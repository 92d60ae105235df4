/-
The ring under concurrency: the producers work through one lane of positions, the consumers through
another behind it, at most `max` apart. The 32-bit indices are the ends of the lanes modulo 2 ^ 32.
A thread that compares an old head with the current one is not fooled: for the head to come round,
every position in between is stored to and loaded from, which takes more than 2 ^ 32 steps.
-/
import BeehiveIm.Core.Ring.Fifo
import BeehiveIm.Core.Ring.Race
import BeehiveIm.Lib.Lane
import BeehiveIm.Lib.Run
import Mathlib.Data.List.Infix

namespace BeehiveIm.Core.Ring

open BeehiveIm.Lib

variable {τ : Type} {S S' : Race τ} {P C P' C' : Lane τ} {t u : τ} {pc : Pc}

/-! ## The invariant -/

/-- The positions stored to and those loaded from. -/
def worked (P C : Lane τ) : Nat := P.done.card + C.done.card

/-- What the lanes are for a thread at `pc`: `P` that of the producers, `C` that of the
consumers. -/
def At (S : Race τ) (P C : Lane τ) (t : τ) : Pc → Prop
  | .idle | .pushNum _ | .popNum _ => P.seg t = none ∧ C.seg t = none
  | .pushHead addr => P.seg t = none ∧ C.seg t = none ∧ Batch addr
  | .pushTail addr prodHead => P.seg t = none ∧ C.seg t = none ∧ Batch addr ∧ ∃ a, prodHead = BitVec.ofNat 32 a ∧
      a ≤ P.head ∧ worked P C + S.seen t ≤ S.clock + 2 * a
  | .pushCas addr prodHead => P.seg t = none ∧ C.seg t = none ∧ Batch addr ∧ ∃ a, prodHead = BitVec.ofNat 32 a ∧
      a ≤ P.head ∧ worked P C + S.seen t ≤ S.clock + 2 * a ∧
      (a = P.head → a + addr.length ≤ C.tail + S.ring.max.toNat)
  | .pushFill addr prodHead i => C.seg t = none ∧ Batch addr ∧ ∃ a, prodHead = BitVec.ofNat 32 a ∧
      P.seg t = some ⟨a, addr.length, i⟩ ∧ addr <+: S.pushed.drop a
  | .pushDone addr prodHead => C.seg t = none ∧ Batch addr ∧ ∃ a, prodHead = BitVec.ofNat 32 a ∧
      P.seg t = some ⟨a, addr.length, addr.length⟩ ∧ a = P.tail
  | .popHead num => P.seg t = none ∧ C.seg t = none ∧ 0 < num.toNat
  | .popTail num consHead => P.seg t = none ∧ C.seg t = none ∧ 0 < num.toNat ∧ ∃ b, consHead = BitVec.ofNat 32 b ∧
      b ≤ C.head ∧ worked P C + S.seen t ≤ S.clock + 2 * b + S.ring.max.toNat
  | .popCas num consHead => P.seg t = none ∧ C.seg t = none ∧ 0 < num.toNat ∧ ∃ b, consHead = BitVec.ofNat 32 b ∧
      b ≤ C.head ∧ worked P C + S.seen t ≤ S.clock + 2 * b + S.ring.max.toNat ∧
      (b = C.head → b + num.toNat ≤ P.tail)
  | .popFill num consHead addr => P.seg t = none ∧ ∃ b, consHead = BitVec.ofNat 32 b ∧
      C.seg t = some ⟨b, num.toNat, addr.length⟩ ∧ addr <+: S.pushed.drop b
  | .popDone num consHead addr => P.seg t = none ∧ ∃ b, consHead = BitVec.ofNat 32 b ∧
      C.seg t = some ⟨b, num.toNat, num.toNat⟩ ∧ b = C.tail ∧ addr.length = num.toNat ∧ addr <+: S.pushed.drop b

structure Sim (S : Race τ) (P C : Lane τ) : Prop where
  sized : S.ring.Sized
  prod : S.ring.prod = ⟨BitVec.ofNat 32 P.head, BitVec.ofNat 32 P.tail⟩
  cons : S.ring.cons = ⟨BitVec.ofNat 32 C.head, BitVec.ofNat 32 C.tail⟩
  behind : C.head ≤ P.tail
  room : P.head ≤ C.tail + S.ring.max.toNat
  pushed : S.pushed.length = P.head
  popped : S.popped = S.pushed.take C.tail
  cells : ∀ p (hp : p < S.pushed.length), p ∈ P.done → C.tail ≤ p →
    S.ring.data (S.ring.cell (BitVec.ofNat 32 p)) = S.pushed[p]
  threads : ∀ t, At S P C t (S.pc t)

/-- What a step of another thread leaves to `t`. -/
structure Later (S : Race τ) (P C : Lane τ) (S' : Race τ) (P' C' : Lane τ) (t : τ) : Prop where
  pseg : P'.seg t = P.seg t
  cseg : C'.seg t = C.seg t
  seen : S'.seen t = S.seen t
  max : S'.ring.max = S.ring.max
  phead : P.head ≤ P'.head
  chead : C.head ≤ C'.head
  ptail : P.tail ≤ P'.tail
  ctail : C.tail ≤ C'.tail
  clock : worked P' C' + S.clock ≤ worked P C + S'.clock
  pushed : S.pushed <+: S'.pushed
  pturn : ∀ s, P.seg t = some s → s.start = P.tail → P'.tail = P.tail
  cturn : ∀ s, C.seg t = some s → s.start = C.tail → C'.tail = C.tail

theorem At.later (h : At S P C t pc) (hl : Later S P C S' P' C' t) : At S' P' C' t pc := by
  obtain ⟨hp, hc, hseen, hmax, hph, hch, hpt, hct, hclock, hpre, hpturn, hcturn⟩ := hl
  cases pc with
  | idle | pushNum | popNum => exact ⟨hp.trans h.1, hc.trans h.2⟩
  | pushHead | popHead => exact ⟨hp.trans h.1, hc.trans h.2.1, h.2.2⟩
  | pushTail addr prodHead =>
    obtain ⟨h1, h2, h3, a, ha, hle, hw⟩ := h
    exact ⟨hp.trans h1, hc.trans h2, h3, a, ha, hle.trans hph, by rw [hseen]; omega⟩
  | pushCas addr prodHead =>
    obtain ⟨h1, h2, h3, a, ha, hle, hw, hroom⟩ := h
    refine ⟨hp.trans h1, hc.trans h2, h3, a, ha, hle.trans hph, by rw [hseen]; omega, fun heq => ?_⟩
    have := hroom (by omega)
    rw [hmax]
    omega
  | pushFill addr prodHead i =>
    obtain ⟨h1, h2, a, ha, hs, haddr⟩ := h
    exact ⟨hc.trans h1, h2, a, ha, hp.trans hs, haddr.trans (hpre.drop a)⟩
  | pushDone addr prodHead =>
    obtain ⟨h1, h2, a, ha, hs, htail⟩ := h
    exact ⟨hc.trans h1, h2, a, ha, hp.trans hs, by rw [hpturn _ hs htail]; exact htail⟩
  | popTail num consHead =>
    obtain ⟨h1, h2, h3, b, hb, hle, hw⟩ := h
    exact ⟨hp.trans h1, hc.trans h2, h3, b, hb, hle.trans hch, by rw [hseen, hmax]; omega⟩
  | popCas num consHead =>
    obtain ⟨h1, h2, h3, b, hb, hle, hw, hdata⟩ := h
    refine ⟨hp.trans h1, hc.trans h2, h3, b, hb, hle.trans hch, by rw [hseen, hmax]; omega, fun heq => ?_⟩
    have := hdata (by omega)
    omega
  | popFill num consHead addr =>
    obtain ⟨h1, b, hb, hs, haddr⟩ := h
    exact ⟨hp.trans h1, b, hb, hc.trans hs, haddr.trans (hpre.drop b)⟩
  | popDone num consHead addr =>
    obtain ⟨h1, b, hb, hs, htail, hlen, haddr⟩ := h
    exact ⟨hp.trans h1, b, hb, hc.trans hs, by rw [hcturn _ hs htail]; exact htail, hlen,
      haddr.trans (hpre.drop b)⟩

theorem Sim.init (max : BitVec 32) (hmax : max.toNat ≤ 2 ^ 30) :
    Sim (Race.init τ max) (Lane.empty τ) (Lane.empty τ) where
  sized := ringCreat_sized hmax
  prod := rfl
  cons := rfl
  behind := le_rfl
  room := Nat.zero_le _
  pushed := rfl
  popped := rfl
  cells p hp := by simp [Race.init] at hp
  threads t := ⟨rfl, rfl⟩

theorem worked_le : worked P C ≤ P.head + C.head := Nat.add_le_add Lane.card_done_le Lane.card_done_le

theorem tails_le_worked : P.tail + C.tail ≤ worked P C :=
  Nat.add_le_add Lane.tail_le_card_done Lane.tail_le_card_done

/-- The head a producer read has not come round. -/
theorem Sim.prod_head_eq (h : Sim S P C) {a : Nat} (ha : a ≤ P.head)
    (hw : worked P C + S.seen t ≤ S.clock + 2 * a) (htime : S.clock < S.seen t + 2 ^ 32)
    (heq : S.ring.prod.head = BitVec.ofNat 32 a) : a = P.head := by
  have hmax := h.sized.le
  have htails := tails_le_worked (P := P) (C := C)
  have := P.tail_le
  have := C.tail_le
  have := h.behind
  have := h.room
  rw [h.prod] at heq
  have hmod : P.head % 2 ^ 32 = a % 2 ^ 32 := by simpa using congrArg BitVec.toNat heq
  omega

/-- The head a consumer read has not come round. -/
theorem Sim.cons_head_eq (h : Sim S P C) {b : Nat} (hb : b ≤ C.head)
    (hw : worked P C + S.seen t ≤ S.clock + 2 * b + S.ring.max.toNat) (htime : S.clock < S.seen t + 2 ^ 32)
    (heq : S.ring.cons.head = BitVec.ofNat 32 b) : b = C.head := by
  have hmax := h.sized.le
  have htails := tails_le_worked (P := P) (C := C)
  have := P.tail_le
  have := C.tail_le
  have := h.behind
  have := h.room
  rw [h.cons] at heq
  have hmod : C.head % 2 ^ 32 = b % 2 ^ 32 := by simpa using congrArg BitVec.toNat heq
  omega

/-! ## Steps that leave the lanes -/

variable [DecidableEq τ]

/-- A thread that moves on, or counts, and changes nothing else that the others see. -/
theorem Sim.move (h : Sim S P C) (num : BitVec 32) (seen : τ → Nat) (hseen : ∀ u, u ≠ t → seen u = S.seen u)
    (hat : At { S.at t pc with ring := { S.ring with num := num }, seen := seen } P C t pc) :
    Sim { S.at t pc with ring := { S.ring with num := num }, seen := seen } P C where
  sized := ⟨h.sized.mask, h.sized.max⟩
  prod := h.prod
  cons := h.cons
  behind := h.behind
  room := h.room
  pushed := h.pushed
  popped := h.popped
  cells := h.cells
  threads u := by
    by_cases hu : u = t
    · subst hu
      show At _ P C u (Function.update S.pc u pc u)
      rw [Function.update_self]
      exact hat
    · show At _ P C u (Function.update S.pc t pc u)
      rw [Function.update_of_ne hu]
      exact (h.threads u).later ⟨rfl, rfl, hseen u hu, rfl, le_rfl, le_rfl, le_rfl, le_rfl,
        Nat.add_le_add_left (Nat.le_succ _) _, List.prefix_rfl, fun _ _ _ => rfl, fun _ _ _ => rfl⟩

/-- The same for a step that only moves on. -/
theorem Sim.goto (h : Sim S P C) (hat : At (S.at t pc) P C t pc) : Sim (S.at t pc) P C :=
  h.move S.ring.num S.seen (fun _ _ => rfl) hat

/-! ## Steps along a lane -/

/-- The other threads, when `t` moves along its lane. -/
theorem Sim.others (h : Sim S P C) (hpc : S'.pc = Function.update S.pc t pc) (hat : At S' P' C' t pc)
    (hl : ∀ u, u ≠ t → Later S P C S' P' C' u) : ∀ u, At S' P' C' u (S'.pc u) := by
  intro u
  rw [hpc]
  by_cases hu : u = t
  · subst hu
    rw [Function.update_self]
    exact hat
  · rw [Function.update_of_ne hu]
    exact (h.threads u).later (hl u hu)

theorem update_seg_ne {f : τ → Option Seg} {v : Option Seg} (hu : u ≠ t) : Function.update f t v u = f u :=
  Function.update_of_ne hu ..

/-- The head moves: the addresses are admitted. -/
theorem Sim.admit (h : Sim S P C) {addr : List Ptr} (hp : P.seg t = none) (hc : C.seg t = none)
    (haddr : Batch addr) (hroom : P.head + addr.length ≤ C.tail + S.ring.max.toNat) :
    ∃ P', Sim { S.at t (.pushFill addr (BitVec.ofNat 32 P.head) 0) with
        ring := { S.ring with
          prod := { S.ring.prod with head := BitVec.ofNat 32 P.head + BitVec.ofNat 32 addr.length } }
        pushed := S.pushed ++ addr } P' C := by
  refine ⟨P.take t addr.length haddr.1 hp, ⟨h.sized.mask, h.sized.max⟩, ?_, h.cons, h.behind, hroom, ?_, ?_, ?_, ?_⟩
  · show Span.mk _ S.ring.prod.tail = ⟨BitVec.ofNat 32 (P.head + addr.length), BitVec.ofNat 32 P.tail⟩
    rw [h.prod, BitVec.ofNat_add]
  · show (S.pushed ++ addr).length = P.head + addr.length
    rw [List.length_append, h.pushed]
  · show S.popped = (S.pushed ++ addr).take C.tail
    have := C.tail_le
    have := P.tail_le
    have := h.behind
    rw [List.take_append_of_le_length (by rw [h.pushed]; omega)]
    exact h.popped
  · intro p hlen hdone htail
    have hlt : p < S.pushed.length := by rw [h.pushed]; exact Lane.lt_head_of_done (L := P) hdone
    show _ = (S.pushed ++ addr)[p]
    rw [List.getElem_append_left hlt]
    exact h.cells p hlt hdone htail
  · refine h.others rfl ⟨hc, haddr, P.head, rfl, Function.update_self .., ?_⟩ fun u hu =>
      ⟨update_seg_ne hu, rfl, rfl, rfl, Nat.le_add_right _ _, le_rfl, le_rfl, le_rfl,
        Nat.add_le_add_left (Nat.le_succ _) _, List.prefix_append _ _, fun _ _ _ => rfl, fun _ _ _ => rfl⟩
    show addr <+: (S.pushed ++ addr).drop P.head
    rw [← h.pushed, List.drop_left]

/-- A cell is filled. No unread cell is written to. -/
theorem Sim.fill (h : Sim S P C) {addr : List Ptr} {a i : Nat} (hc : C.seg t = none) (haddr : Batch addr)
    (hs : P.seg t = some ⟨a, addr.length, i⟩) (hpre : addr <+: S.pushed.drop a) (hi : i < addr.length) :
    ∃ P', Sim { S.at t (.pushFill addr (BitVec.ofNat 32 a) (i + 1)) with
        ring := S.ring.put (BitVec.ofNat 32 a + BitVec.ofNat 32 i) addr[i] } P' C := by
  have hin := P.within hs
  have hctail := C.tail_le
  have hbehind := h.behind
  have hroom := h.room
  simp only at hin
  have h0 : S.ring.max ≠ 0 := by rintro h0; rw [h0] at hroom; simp at hroom; omega
  have hpos : BitVec.ofNat 32 a + BitVec.ofNat 32 i = BitVec.ofNat 32 (a + i) := (BitVec.ofNat_add ..).symm
  rw [hpos]
  refine ⟨P.work t _ hs hi, h.sized.put _ _, h.prod, h.cons, h.behind, h.room, h.pushed, h.popped, ?_, ?_⟩
  · intro p hlen hdone htail
    show Function.update S.ring.data _ _ (S.ring.cell (BitVec.ofNat 32 p)) = S.pushed[p]
    rcases Finset.mem_insert.1 hdone with rfl | hdone
    · rw [Function.update_self]
      have := hpre.getElem hi
      rw [List.getElem_drop] at this
      exact this
    · have hlt := Lane.lt_head_of_done hdone
      have hne : p ≠ a + i := by
        rintro rfl
        exact Lane.next_not_done hs hi hdone
      rw [Function.update_of_ne (cell_ne h.sized h0 hne (by omega) (by omega))]
      exact h.cells p hlen hdone htail
  · refine h.others rfl ⟨hc, haddr, a, rfl, Function.update_self .., hpre⟩ fun u hu =>
      ⟨update_seg_ne hu, rfl, rfl, rfl, le_rfl, le_rfl, le_rfl, le_rfl, ?_, List.prefix_rfl,
        fun _ _ _ => rfl, fun _ _ _ => rfl⟩
    show (P.work t _ hs hi).done.card + C.done.card + S.clock ≤ P.done.card + C.done.card + (S.clock + 1)
    rw [Lane.card_work]
    omega

/-- A producer whose turn it is publishes what it stored. -/
theorem Sim.publish (h : Sim S P C) {addr : List Ptr} (hc : C.seg t = none)
    (hs : P.seg t = some ⟨P.tail, addr.length, addr.length⟩) :
    ∃ P', Sim { S.at t (.pushNum addr) with
        ring := { S.ring with
          prod := { S.ring.prod with tail := BitVec.ofNat 32 P.tail + BitVec.ofNat 32 addr.length } } } P' C := by
  refine ⟨P.give t _ hs rfl rfl, ⟨h.sized.mask, h.sized.max⟩, ?_, h.cons, h.behind.trans (Nat.le_add_right _ _),
    h.room, h.pushed, h.popped, fun p hlen hdone htail => h.cells p hlen hdone htail, ?_⟩
  · show Span.mk S.ring.prod.head _ = ⟨BitVec.ofNat 32 P.head, BitVec.ofNat 32 (P.tail + addr.length)⟩
    rw [h.prod, BitVec.ofNat_add]
  · exact h.others rfl ⟨Function.update_self .., hc⟩ fun u hu =>
      ⟨update_seg_ne hu, rfl, rfl, rfl, le_rfl, le_rfl, Nat.le_add_right _ _, le_rfl,
        Nat.add_le_add_left (Nat.le_succ _) _, List.prefix_rfl,
        fun s hsu htail => absurd (Lane.eq_of_start_eq_tail hsu hs htail rfl) hu, fun _ _ _ => rfl⟩

/-- The head of the consumers moves: the positions are a consumer's own. -/
theorem Sim.claim (h : Sim S P C) {num : BitVec 32} (hp : P.seg t = none) (hc : C.seg t = none)
    (hnum : 0 < num.toNat) (hdata : C.head + num.toNat ≤ P.tail) :
    ∃ C', Sim { S.at t (.popFill num (BitVec.ofNat 32 C.head) []) with
        ring := { S.ring with cons := { S.ring.cons with head := BitVec.ofNat 32 C.head + num } } } P C' := by
  refine ⟨C.take t num.toNat hnum hc, ⟨h.sized.mask, h.sized.max⟩, h.prod, ?_, hdata, h.room, h.pushed, h.popped,
    h.cells, ?_⟩
  · show Span.mk _ S.ring.cons.tail = ⟨BitVec.ofNat 32 (C.head + num.toNat), BitVec.ofNat 32 C.tail⟩
    rw [h.cons, BitVec.ofNat_add, BitVec.ofNat_toNat, BitVec.setWidth_eq]
  · exact h.others rfl ⟨hp, C.head, rfl, Function.update_self .., List.nil_prefix⟩ fun u hu =>
      ⟨rfl, update_seg_ne hu, rfl, rfl, le_rfl, Nat.le_add_right _ _, le_rfl, le_rfl,
        Nat.add_le_add_left (Nat.le_succ _) _, List.prefix_rfl, fun _ _ _ => rfl, fun _ _ _ => rfl⟩

/-- A consumer reads what was pushed at its position. -/
theorem Sim.read (h : Sim S P C) {num : BitVec 32} {b : Nat} {addr : List Ptr} (hp : P.seg t = none)
    (hs : C.seg t = some ⟨b, num.toNat, addr.length⟩) (hpre : addr <+: S.pushed.drop b)
    (hlen : addr.length < num.toNat) :
    ∃ C', Sim (S.at t (.popFill num (BitVec.ofNat 32 b)
      (addr ++ [S.ring.data (S.ring.cell (BitVec.ofNat 32 b + BitVec.ofNat 32 addr.length))]))) P C' := by
  have hin := C.within hs
  have hbehind := h.behind
  have hptail := P.tail_le
  simp only at hin
  have hlt : b + addr.length < S.pushed.length := by rw [h.pushed]; omega
  have hcell : S.ring.data (S.ring.cell (BitVec.ofNat 32 b + BitVec.ofNat 32 addr.length)) =
      S.pushed[b + addr.length] := by
    rw [← BitVec.ofNat_add]
    exact h.cells _ hlt (Lane.done_of_lt_tail (by omega)) (by omega)
  refine ⟨C.work t _ hs hlen, h.sized, h.prod, h.cons, h.behind, h.room, h.pushed, h.popped, h.cells, ?_⟩
  refine h.others rfl ⟨hp, b, rfl, ?_, ?_⟩ fun u hu =>
    ⟨rfl, update_seg_ne hu, rfl, rfl, le_rfl, le_rfl, le_rfl, le_rfl, ?_, List.prefix_rfl,
      fun _ _ _ => rfl, fun _ _ _ => rfl⟩
  · rw [List.length_append, List.length_singleton]
    exact Function.update_self ..
  · rw [hcell]
    show addr ++ [S.pushed[b + addr.length]] <+: S.pushed.drop b
    rw [List.prefix_iff_eq_take] at hpre ⊢
    rw [List.length_append, List.length_singleton, List.take_add_one, ← hpre, List.getElem?_drop,
      List.getElem?_eq_getElem hlt, Option.toList_some]
  · show P.done.card + (C.work t _ hs hlen).done.card + S.clock ≤ P.done.card + C.done.card + (S.clock + 1)
    rw [Lane.card_work]
    omega

/-- A consumer whose turn it is frees its cells, and has what was pushed there. -/
theorem Sim.free (h : Sim S P C) {num : BitVec 32} {addr : List Ptr} (hp : P.seg t = none)
    (hs : C.seg t = some ⟨C.tail, num.toNat, num.toNat⟩) (hlen : addr.length = num.toNat)
    (hpre : addr <+: S.pushed.drop C.tail) :
    ∃ C', Sim { S.at t (.popNum num) with
        ring := { S.ring with cons := { S.ring.cons with tail := BitVec.ofNat 32 C.tail + num } }
        popped := S.popped ++ addr } P C' := by
  refine ⟨C.give t _ hs rfl rfl, ⟨h.sized.mask, h.sized.max⟩, h.prod, ?_, h.behind,
    h.room.trans (Nat.add_le_add_right (Nat.le_add_right _ _) _), h.pushed, ?_, ?_, ?_⟩
  · show Span.mk S.ring.cons.head _ = ⟨BitVec.ofNat 32 C.head, BitVec.ofNat 32 (C.tail + num.toNat)⟩
    rw [h.cons, BitVec.ofNat_add, BitVec.ofNat_toNat, BitVec.setWidth_eq]
  · show S.popped ++ addr = S.pushed.take (C.tail + num.toNat)
    rw [List.prefix_iff_eq_take] at hpre
    rw [h.popped, hpre, hlen, List.take_add]
  · exact fun p hlen hdone htail => h.cells p hlen hdone ((Nat.le_add_right _ _).trans htail)
  · exact h.others rfl ⟨hp, Function.update_self ..⟩ fun u hu =>
      ⟨rfl, update_seg_ne hu, rfl, rfl, le_rfl, le_rfl, le_rfl, Nat.le_add_right _ _,
        Nat.add_le_add_left (Nat.le_succ _) _, List.prefix_rfl, fun _ _ _ => rfl,
        fun s hsu htail => absurd (Lane.eq_of_start_eq_tail hsu hs htail rfl) hu⟩

/-! ## Runs -/

theorem Sim.go (h : Sim S P C) (hok : S.Allowed (t, .go)) :
    ∃ S' P' C', S.go t = some S' ∧ Sim S' P' C' ∧ S'.ring.max = S.ring.max := by
  have hat := h.threads t
  have hmax := h.sized.le
  obtain ⟨hgo, -, htime⟩ := hok
  change (S.go t).isSome at hgo
  unfold Race.InTime at htime
  unfold Race.go at hgo ⊢
  cases hpc : S.pc t with
  | idle => rw [hpc] at hgo; simp at hgo
  | pushHead addr =>
    rw [hpc] at hat
    refine ⟨_, P, C, rfl, h.move S.ring.num (Function.update S.seen t (S.clock + 1))
      (fun u hu => Function.update_of_ne hu ..) ⟨hat.1, hat.2.1, hat.2.2, P.head, by rw [h.prod], le_rfl, ?_⟩, rfl⟩
    show worked P C + Function.update S.seen t (S.clock + 1) t ≤ S.clock + 1 + 2 * P.head
    have := worked_le (P := P) (C := C)
    have := h.behind
    have := P.tail_le
    rw [Function.update_self]
    omega
  | pushTail addr prodHead =>
    rw [hpc] at hat
    obtain ⟨h1, h2, h3, a, rfl, hle, hw⟩ := hat
    refine ⟨_, P, C, rfl, h.goto ?_, rfl⟩
    split
    · rename_i hroom
      refine ⟨h1, h2, h3, a, rfl, hle, hw.trans (by show _ ≤ S.clock + 1 + 2 * a; omega), fun heq => ?_⟩
      subst heq
      rw [h.cons] at hroom
      have := C.tail_le
      have := P.tail_le
      have := h.behind
      exact (hasRoom_iff h.sized (by omega) h.room h3.2).1 hroom
    · exact ⟨h1, h2⟩
  | pushCas addr prodHead =>
    rw [hpc] at hat
    obtain ⟨h1, h2, h3, a, rfl, hle, hw, hroom⟩ := hat
    simp only
    split
    · rename_i heq
      obtain rfl := h.prod_head_eq hle hw (by simpa only [hpc] using htime) heq
      obtain ⟨P', h'⟩ := h.admit h1 h2 h3 (hroom rfl)
      exact ⟨_, P', C, rfl, h', rfl⟩
    · exact ⟨_, P, C, rfl, h.goto ⟨h1, h2, h3⟩, rfl⟩
  | pushFill addr prodHead i =>
    rw [hpc] at hat
    obtain ⟨h1, h2, a, rfl, hs, hpre⟩ := hat
    simp only
    split
    · rename_i x hx
      obtain ⟨hi, rfl⟩ := List.getElem?_eq_some_iff.1 hx
      obtain ⟨P', h'⟩ := h.fill h1 h2 hs hpre hi
      exact ⟨_, P', C, rfl, h', rfl⟩
    · rename_i hx
      obtain rfl : i = addr.length := Nat.le_antisymm (P.count_le hs) (List.getElem?_eq_none_iff.1 hx)
      refine ⟨_, P, C, rfl, h.goto ?_, rfl⟩
      split
      · rename_i heq
        refine ⟨h1, h2, a, rfl, hs, ?_⟩
        have hin := P.within hs
        have := C.tail_le
        have := h.behind
        have := h.room
        simp only at hin
        rw [h.prod] at heq
        have hmod : P.tail % 2 ^ 32 = a % 2 ^ 32 := by simpa using congrArg BitVec.toNat heq
        omega
      · exact ⟨h1, h2, a, rfl, hs, hpre⟩
  | pushDone addr prodHead =>
    rw [hpc] at hat
    obtain ⟨h1, h2, a, rfl, hs, rfl⟩ := hat
    obtain ⟨P', h'⟩ := h.publish h1 hs
    exact ⟨_, P', C, rfl, h', rfl⟩
  | pushNum addr =>
    rw [hpc] at hat
    exact ⟨_, P, C, rfl, h.move _ S.seen (fun _ _ => rfl) hat, rfl⟩
  | popHead num =>
    rw [hpc] at hat
    refine ⟨_, P, C, rfl, h.move S.ring.num (Function.update S.seen t (S.clock + 1))
      (fun u hu => Function.update_of_ne hu ..) ⟨hat.1, hat.2.1, hat.2.2, C.head, by rw [h.cons], le_rfl, ?_⟩, rfl⟩
    show worked P C + Function.update S.seen t (S.clock + 1) t ≤ S.clock + 1 + 2 * C.head + S.ring.max.toNat
    have := worked_le (P := P) (C := C)
    have := h.room
    have := C.tail_le
    rw [Function.update_self]
    omega
  | popTail num consHead =>
    rw [hpc] at hat
    obtain ⟨h1, h2, h3, b, rfl, hle, hw⟩ := hat
    refine ⟨_, P, C, rfl, h.goto ?_, rfl⟩
    split
    · rename_i hdata
      refine ⟨h1, h2, h3, b, rfl, hle, hw.trans (by show _ ≤ S.clock + 1 + 2 * b + S.ring.max.toNat; omega),
        fun heq => ?_⟩
      subst heq
      rw [h.prod, ← BitVec.setWidth_eq num, ← BitVec.ofNat_toNat] at hdata
      have := C.tail_le
      have := P.tail_le
      have := h.room
      exact (hasData_iff h.behind (by omega) num.isLt).1 hdata
    · exact ⟨h1, h2⟩
  | popCas num consHead =>
    rw [hpc] at hat
    obtain ⟨h1, h2, h3, b, rfl, hle, hw, hdata⟩ := hat
    simp only
    split
    · rename_i heq
      obtain rfl := h.cons_head_eq hle hw (by simpa only [hpc] using htime) heq
      obtain ⟨C', h'⟩ := h.claim h1 h2 h3 (hdata rfl)
      exact ⟨_, P, C', rfl, h', rfl⟩
    · exact ⟨_, P, C, rfl, h.goto ⟨h1, h2, h3⟩, rfl⟩
  | popFill num consHead addr =>
    rw [hpc] at hat
    obtain ⟨h1, b, rfl, hs, hpre⟩ := hat
    simp only
    split
    · rename_i hlen
      obtain ⟨C', h'⟩ := h.read h1 hs hpre hlen
      exact ⟨_, P, C', rfl, h', rfl⟩
    · rename_i hlen
      have hfull : addr.length = num.toNat := Nat.le_antisymm (C.count_le hs) (Nat.le_of_not_lt hlen)
      refine ⟨_, P, C, rfl, h.goto ?_, rfl⟩
      split
      · rename_i heq
        refine ⟨h1, b, rfl, by rw [hs, hfull], ?_, hfull, hpre⟩
        have hin := C.within hs
        have := P.tail_le
        have := h.behind
        have := h.room
        simp only at hin
        rw [h.cons] at heq
        have hmod : C.tail % 2 ^ 32 = b % 2 ^ 32 := by simpa using congrArg BitVec.toNat heq
        omega
      · exact ⟨h1, b, rfl, hs, hpre⟩
  | popDone num consHead addr =>
    rw [hpc] at hat
    obtain ⟨h1, b, rfl, hs, rfl, hlen, hpre⟩ := hat
    obtain ⟨C', h'⟩ := h.free h1 hs hlen hpre
    exact ⟨_, P, C', rfl, h', rfl⟩
  | popNum num =>
    rw [hpc] at hat
    exact ⟨_, P, C, rfl, h.move _ S.seen (fun _ _ => rfl) hat, rfl⟩

theorem Sim.step (h : Sim S P C) {o : τ × Act} (hok : S.Allowed o) :
    ∃ S' P' C', S.step o = some S' ∧ Sim S' P' C' ∧ S'.ring.max = S.ring.max := by
  obtain ⟨t, act⟩ := o
  have hat := h.threads t
  have hstep := hok.1
  unfold Race.step at hstep ⊢
  cases act with
  | go => exact h.go hok
  | push addr =>
    cases hpc : S.pc t with
    | idle =>
      rw [hpc] at hat
      exact ⟨_, P, C, rfl, h.goto ⟨hat.1, hat.2, hok.2.1⟩, rfl⟩
    | _ => simp [hpc] at hstep
  | pop num =>
    cases hpc : S.pc t with
    | idle =>
      rw [hpc] at hat
      exact ⟨_, P, C, rfl, h.goto ⟨hat.1, hat.2, hok.2.1⟩, rfl⟩
    | _ => simp [hpc] at hstep

/-- What a ring is for: the pointers leave it in the order in which they were admitted, each once;
at most `max` are admitted and not popped; a cell that was published is not written before it is
popped; and when no call is in progress nothing is lost. -/
structure Fifo (S : Race τ) (max : BitVec 32) : Prop where
  order : S.popped <+: S.pushed
  bound : S.pushed.length ≤ S.popped.length + max.toNat
  kept : ∃ ready, S.ring.prod.tail = BitVec.ofNat 32 ready ∧ S.popped.length ≤ ready ∧ ready ≤ S.pushed.length ∧
    ∀ p (hp : p < S.pushed.length), S.popped.length ≤ p → p < ready →
      S.ring.data (S.ring.cell (BitVec.ofNat 32 p)) = S.pushed[p]
  rest : (∀ t, S.pc t = .idle) → S.ring.Holds S.popped.length (S.pushed.drop S.popped.length)

omit [DecidableEq τ] in
theorem Sim.fifo (h : Sim S P C) : Fifo S S.ring.max := by
  have hC := C.tail_le
  have hP := P.tail_le
  have hb := h.behind
  have hr := h.room
  have hlen : S.popped.length = C.tail := by rw [h.popped, List.length_take, h.pushed]; omega
  refine ⟨h.popped ▸ List.take_prefix _ _, by rw [hlen, h.pushed]; exact hr, ⟨P.tail, by rw [h.prod], by omega,
    by rw [h.pushed]; exact hP, fun p hp hlo hhi => h.cells p hp (Lane.done_of_lt_tail hhi) (by omega)⟩,
    fun hidle => ?_⟩
  have hseg : ∀ t, P.seg t = none ∧ C.seg t = none := fun t => by have := h.threads t; rwa [hidle t] at this
  have hp0 := Lane.tail_eq_head fun t => (hseg t).1
  have hc0 := Lane.tail_eq_head fun t => (hseg t).2
  have hsum : C.tail + (S.pushed.length - C.tail) = P.head := by rw [h.pushed]; omega
  rw [hlen]
  refine ⟨h.sized, ?_, by rw [h.cons, hc0], ?_, fun i hi => ?_⟩
  · rw [h.prod, List.length_drop, hsum, hp0]
  · rw [List.length_drop, h.pushed]; omega
  · rw [List.length_drop, h.pushed] at hi
    rw [List.getElem_drop]
    exact h.cells _ _ (Lane.done_of_lt_tail (by omega)) (by omega)

/-- In every run of any threads, with every interleaving of their steps, the ring is a queue of at
most `power2 max` pointers, though its indices come round at 2 ^ 32. -/
theorem ring_race_correct (max : BitVec 32) (hmax : max.toNat ≤ 2 ^ 30) (ops : List (τ × Act))
    (hops : Guarded (fun S o => (S.step o).getD S) Race.Allowed (Race.init τ max) ops) :
    ∃ S, ops.foldlM Race.step (Race.init τ max) = some S ∧ Fifo S (power2 max) := by
  obtain ⟨S, hrun, hmaxS, P, C, h⟩ := run_invariant Race.step Race.Allowed
    (fun S => S.ring.max = power2 max ∧ ∃ P C, Sim S P C)
    (fun S o ⟨hm, P, C, h⟩ hok => by
      obtain ⟨S', P', C', hstep, h', hm'⟩ := h.step hok
      exact ⟨S', hstep, hm'.trans hm, P', C', h'⟩)
    ops (Race.init τ max) ⟨rfl, Lane.empty τ, Lane.empty τ, Sim.init max hmax⟩ hops
  exact ⟨S, hrun, hmaxS ▸ h.fifo⟩

/-- A producer overtaken by another between its two reads of the head, and a consumer. -/
def raceRun : List (Fin 3 × Act) :=
  [(0, .push [7, 8]), (0, .go), (1, .push [9]), (1, .go), (1, .go), (1, .go), (0, .go), (0, .go), (1, .go), (1, .go),
    (1, .go), (0, .go), (2, .pop 1), (2, .go), (2, .go), (2, .go), (0, .go), (2, .go), (2, .go), (2, .go)]

theorem ring_race_correct_overtaken :
    ∃ S, raceRun.foldlM Race.step (Race.init (Fin 3) 4) = some S ∧ Fifo S (power2 4) :=
  ring_race_correct 4 (by decide) raceRun (by decide)

/-- Thread 0 pushes nothing, and is overtaken after its compare-and-set by a push and a pop. -/
def zeroPushRun : List (Fin 3 × Act) :=
  (0, .push []) :: List.replicate 4 (0, .go) ++ (1, .push [7]) :: List.replicate 7 (1, .go) ++
    (2, .pop 1) :: List.replicate 7 (2, .go) ++ List.replicate 2 (0, .go) ++
    (2, .pop 1) :: List.replicate 6 (2, .go)

/-- A push of nothing that is overtaken puts `prod.tail` back: of the one pointer pushed, two pops
take it. And a ring for three pointers takes four. -/
theorem ring_push_of_nothing_pops_twice :
    (zeroPushRun.foldlM Race.step (Race.init (Fin 3) 1)).map (fun S => (S.pushed, S.popped)) = some ([7], [7, 7]) ∧
      ((ringCreat 3).ringMpush [1, 2, 3, 4]).map Prod.snd = some true := by
  decide

end BeehiveIm.Core.Ring
