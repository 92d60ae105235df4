/-
When blocks are given back while threads count their references. Between the two sections of a
decrement another thread may take a new reference: the second section then keeps the block. What no
section can put right is a count that wraps.
-/
import BeehiveIm.Core.HashTab.Slots
import BeehiveIm.Core.Mref

namespace BeehiveIm.Core.MrefTab

open BeehiveIm.Lib

/-! ## The table as a function -/

/-- The table keeps the counts `c`. -/
structure Keeps (tab : HashTab (Addr × BitVec 32)) (c : Block → Option (BitVec 32)) : Prop where
  ex : ∃ live, Stored idKey Prod.fst {k | 0 ≤ k.toInt} mrefSlotLen tab live ∧
    ∀ a : Block, c a = (lookup Prod.fst live a.1).map Prod.snd

variable {tab : HashTab (Addr × BitVec 32)} {c : Block → Option (BitVec 32)} {a : Block}

theorem addr_keySet : KeySet idKey mrefSlotLen {k | 0 ≤ k.toInt} := ⟨fun _ hk => .inl hk, cmpOn_idKey⟩

theorem hashTabCreat_keeps : Keeps (HashTab.hashTabCreat _ mrefSlotLen) fun _ => none :=
  ⟨[], hashTabCreat_stored (by decide) (by decide) addr_keySet, fun _ => rfl⟩

theorem Keeps.query (h : Keeps tab c) (a : Block) :
    idKey.query Prod.fst tab a.1 = some ((c a).map fun n => (a.1, n)) := by
  obtain ⟨live, hs, hc⟩ := h
  rw [hs.query a.2, hc]
  cases hl : lookup Prod.fst live a.1 with
  | none => rfl
  | some e => rw [← (lookup_mem hl).2]; rfl

/-- What a write leaves of the other counts. -/
theorem update_lookup {live live' : List (Addr × BitVec 32)} {x : Option (BitVec 32)}
    (hc : ∀ b : Block, c b = (lookup Prod.fst live b.1).map Prod.snd)
    (ha : (lookup Prod.fst live' a.1).map Prod.snd = x)
    (hother : ∀ b : Block, b ≠ a → lookup Prod.fst live' b.1 = lookup Prod.fst live b.1) (b : Block) :
    Function.update c a x b = (lookup Prod.fst live' b.1).map Prod.snd := by
  by_cases hb : b = a
  · rw [hb, Function.update_self, ha]
  · rw [Function.update_of_ne hb, hother b hb, hc]

theorem Keeps.write (h : Keeps tab c) (a : Block) (g : BitVec 32 → BitVec 32) :
    ∃ tab', idKey.write Prod.fst tab a.1 (fun item => (item.1, g item.2)) = some tab' ∧
      Keeps tab' (Function.update c a ((c a).map g)) := by
  obtain ⟨live, hs, hc⟩ := h
  obtain ⟨tab', hw, hs'⟩ := hs.write a.2 (g := fun item => (item.1, g item.2)) fun _ => rfl
  refine ⟨tab', hw, _, hs', update_lookup hc ?_ fun b hb => ?_⟩
  · rw [lookup_writeAt (g := fun item => (item.1, g item.2)) fun _ => rfl, if_pos rfl, hc]
    cases lookup Prod.fst live a.1 <;> rfl
  · rw [lookup_writeAt (g := fun item => (item.1, g item.2)) fun _ => rfl, if_neg fun h => hb (Subtype.ext h)]

theorem Keeps.insert (h : Keeps tab c) (ha : c a = none) :
    ∃ tab', idKey.insert Prod.fst tab (a.1, 1) true = some (tab', .ok) ∧ Keeps tab' (Function.update c a (some 1)) := by
  obtain ⟨live, hs, hc⟩ := h
  rw [hc, Option.map_eq_none_iff] at ha
  obtain ⟨tab', hins, hs'⟩ := hs.insert_ok (e := (a.1, 1)) a.2 ha
  refine ⟨tab', hins, _, hs', update_lookup hc ?_ fun b hb => ?_⟩
  · rw [lookup_cons, if_pos rfl]; rfl
  · rw [lookup_cons, if_neg fun h => hb (Subtype.ext h.symm)]

/-- A block that has an item, or no memory for one: nothing changes. -/
theorem Keeps.insert_not (h : Keeps tab c) {room : Bool} (ha : c a ≠ none ∨ room = false) :
    ∃ ret, idKey.insert Prod.fst tab (a.1, 1) room = some (tab, ret) ∧ ret ≠ RbtRet.ok := by
  obtain ⟨live, hs, hc⟩ := h
  cases hl : lookup Prod.fst live a.1 with
  | some e => exact ⟨_, hs.insert_exist hl room, by decide⟩
  | none =>
    rcases ha with ha | rfl
    · exact absurd (by rw [hc, hl]; rfl) ha
    · exact ⟨_, hs.insert_err a.2 hl, by decide⟩

theorem Keeps.delete (h : Keeps tab c) (a : Block) : ∃ r, idKey.delete Prod.fst tab a.1 = some r ∧
    Keeps r.1 (Function.update c a none) := by
  obtain ⟨live, hs, hc⟩ := h
  obtain ⟨tab', hdel, hs'⟩ := hs.delete a.2
  refine ⟨_, hdel, _, hs', update_lookup hc ?_ fun b hb => ?_⟩
  · rw [lookup_without, if_pos rfl]; rfl
  · rw [lookup_without, if_neg fun h => hb (Subtype.ext h)]

/-! ## What a step can do -/

/-- The block a thread has to itself: it is allocated and has no item. -/
def Pc.owns : Pc → Option Block
  | .addQuery a => some a
  | .addInsert a => some a
  | .decDealloc a => some a
  | _ => none

/-- The block a step is about. -/
def Act.block (p : Pc) : Act → Option Block
  | .alloc a => some a
  | .inc a => some a
  | .dec a => some a
  | .more _ => p.block

namespace Race

variable {τ : Type} {R : Race τ} {t : τ} {act : Act}

/-- The count of a block that has an item. -/
def count (R : Race τ) (a : Block) : Option (BitVec 32) :=
  match R.query a with
  | some (some item) => some item.2
  | _ => none

theorem count_eq (h : Keeps R.tab c) : R.count = c := by
  funext a
  unfold count query
  rw [h.query]
  cases c a <;> rfl

/-- The counts and the blocks allocated after a step of a thread at `p` that gets to `p'`. -/
inductive Effect (c : Block → Option (BitVec 32)) (mem : Block → Bool) :
    Act → Pc → Pc → (Block → Option (BitVec 32)) → (Block → Bool) → Prop
  | stay {act : Act} {p : Pc} : Effect c mem act p p c mem
  | alloc {a : Block} (h : mem a = false) : Effect c mem (.alloc a) .idle (.addQuery a) c (Function.update mem a true)
  | inc {a : Block} {n : BitVec 32} (h : c a = some n) : Effect c mem (.inc a) .idle .idle (Function.update c a (some (n + 1))) mem
  | dec {a : Block} {n : BitVec 32} (h : c a = some n) :
    Effect c mem (.dec a) .idle (if n - 1 = 0 then .decQuery a else .idle) (Function.update c a (some (n - 1))) mem
  | addFound {a : Block} {n : BitVec 32} {room : Bool} (h : c a = some n) :
    Effect c mem (.more room) (.addQuery a) .idle (Function.update c a (some (n + 1))) mem
  | addMiss {a : Block} {room : Bool} (h : c a = none) : Effect c mem (.more room) (.addQuery a) (.addInsert a) c mem
  | insert {a : Block} {room : Bool} (h : c a = none) :
    Effect c mem (.more room) (.addInsert a) .idle (Function.update c a (some 1)) mem
  | again {a : Block} {room : Bool} : Effect c mem (.more room) (.addInsert a) (.addQuery a) c mem
  | kept {a : Block} {room : Bool} (h : c a ≠ some 0) : Effect c mem (.more room) (.decQuery a) .idle c mem
  | delete {a : Block} {room : Bool} (h : c a = some 0) :
    Effect c mem (.more room) (.decQuery a) (.decDealloc a) (Function.update c a none) mem
  | dealloc {a : Block} {room : Bool} : Effect c mem (.more room) (.decDealloc a) .idle c (Function.update mem a false)

/-- A step of `t` from `R` to `R'`, with the counts before and after it. -/
structure Moves (R : Race τ) (t : τ) (act : Act) (c : Block → Option (BitVec 32)) (R' : Race τ)
    (c' : Block → Option (BitVec 32)) : Prop where
  keeps : Keeps R'.tab c'
  effect : Effect c R.mem act (R.pc t) (R'.pc t) c' R'.mem
  others : ∀ t', t' ≠ t → R'.pc t' = R.pc t'
  twice : R'.twice = true → R.twice = true ∨ ∃ a, R.pc t = .decDealloc a ∧ R.mem a = false

/-- A step that leaves the threads and the memory as they are. -/
theorem Moves.same (h : Keeps R.tab c) (aborted : Bool) : Moves R t act c { R with aborted := aborted } c :=
  ⟨h, .stay, fun _ _ => rfl, .inl⟩

/-- A step that moves `t` on. -/
theorem Moves.goto [DecidableEq τ] {tab' : HashTab (Addr × BitVec 32)} {c' : Block → Option (BitVec 32)} {p : Pc}
    (h : Keeps tab' c')
    (he : Effect c R.mem act (R.pc t) p c' R.mem) : Moves R t act c ({ R with tab := tab' }.goto t p) c' where
  keeps := h
  effect := by
    show Effect c R.mem act (R.pc t) (Function.update R.pc t p t) c' R.mem
    rw [Function.update_self]
    exact he
  others := fun t' ht => Function.update_of_ne ht ..
  twice := .inl

/-- A step that only changes the table. -/
theorem Moves.table {tab' : HashTab (Addr × BitVec 32)} {c' : Block → Option (BitVec 32)} (h : Keeps tab' c')
    (he : Effect c R.mem act (R.pc t) (R.pc t) c' R.mem) : Moves R t act c { R with tab := tab' } c' :=
  ⟨h, he, fun _ _ => rfl, .inl⟩

theorem write_keeps (h : Keeps R.tab c) {n : BitVec 32} (ha : c a = some n) (g : BitVec 32 → BitVec 32) :
    ∃ tab', R.write a g = some { R with tab := tab' } ∧ Keeps tab' (Function.update c a (some (g n))) := by
  obtain ⟨tab', hw, hk⟩ := h.write a g
  refine ⟨tab', by rw [Race.write, hw]; rfl, ?_⟩
  rw [ha] at hk
  exact hk

theorem query_eq (h : Keeps R.tab c) (a : Block) : R.query a = some ((c a).map fun n => (a.1, n)) := h.query a

theorem mrefInc_moves (h : Keeps R.tab c) (hp : R.pc t = .idle) :
    ∃ R' c', R.mrefInc a = some R' ∧ Moves R t (.inc a) c R' c' := by
  unfold mrefInc
  rw [query_eq h]
  cases ha : c a with
  | none => exact ⟨_, c, rfl, .same h true⟩
  | some n =>
    obtain ⟨tab', hw, hk⟩ := write_keeps h ha (· + 1)
    exact ⟨_, _, hw, .table hk (by rw [hp]; exact .inc ha)⟩

/-- Whether a count wraps from `n` to `n'`. -/
def wraps (n n' : Option (BitVec 32)) : Bool :=
  decide (n = some 0 ∧ n' = some (-1)) || decide (n = some (-1) ∧ n' = some 0)

theorem wraps_inc {n : BitVec 32} (h : n + 1 = 0) : wraps (some n) (some (n + 1)) = true := by
  have hn : n = -1 := by
    have h0 : n + 1 - 1 = 0 - 1 := congrArg (· - 1) h
    simpa [BitVec.add_sub_cancel] using h0
  subst hn
  decide

section Effect

variable {p p' : Pc} {c' : Block → Option (BitVec 32)} {mem mem' : Block → Bool}

/-- A step leaves every block but its own as it is. -/
theorem Effect.frame (h : Effect c mem act p p' c' mem') {b : Block} (hb : act.block p ≠ some b) :
    c' b = c b ∧ mem' b = mem b := by
  cases h
  all_goals
    simp only [Act.block, Pc.block, ne_eq, Option.some.injEq] at hb
    simp [Function.update_of_ne (Ne.symm hb)]

/-- What another thread owns stays allocated and without an item. -/
theorem Effect.keep_owned (h : Effect c mem act p p' c' mem') (hmem : mem a = true) (ha : c a = none)
    (hp : p.owns ≠ some a) : mem' a = true ∧ c' a = none := by
  cases h
  all_goals grind [Pc.owns, Function.update_apply]

/-- What a thread owns after its step it owned before, or is allocated now, or its item is deleted
now. -/
theorem Effect.owns (h : Effect c mem act p p' c' mem') (hp' : p'.owns = some a) :
    p.owns = some a ∧ mem' a = mem a ∧ c' a = c a ∨ mem a = false ∧ mem' a = true ∧ c' a = c a ∨
      c a ≠ none ∧ mem' a = mem a ∧ c' a = none := by
  cases h
  all_goals grind [Pc.owns, Function.update_apply]

/-- An item comes only to a block whose thread owned it; memory goes only from one. -/
theorem Effect.item (h : Effect c mem act p p' c' mem') {n : BitVec 32} (hc : c' a = some n) :
    (c a ≠ none ∨ p.owns = some a) ∧ (mem a = true → mem' a = true ∨ p.owns = some a ∧ c a ≠ none) := by
  cases h
  all_goals grind [Pc.owns, Function.update_apply]

/-- A block that stays allocated keeps its item or its owner. -/
theorem Effect.held (h : Effect c mem act p p' c' mem') (hmem : mem' a = true) :
    c' a ≠ none ∨ p'.owns = some a ∨ mem a = true ∧ p.owns ≠ some a ∧ c a = none := by
  cases h
  all_goals grind [Pc.owns, Function.update_apply]

/-- A count gets to zero by a decrement that is to come back, or by an increment that wraps. -/
theorem Effect.zero (h : Effect c mem act p p' c' mem') (hc : c' a = some 0) :
    wraps (c a) (c' a) = true ∨ p' = .decQuery a ∨ c a = some 0 ∧ p ≠ .decQuery a := by
  cases h
  case inc b n hb =>
    by_cases hab : a = b
    · subst hab
      rw [Function.update_self] at hc ⊢
      rw [hb]
      exact .inl (wraps_inc (Option.some.inj hc))
    · rw [Function.update_of_ne hab] at hc
      exact .inr (.inr ⟨hc, by simp⟩)
  case addFound b n room hb =>
    by_cases hab : a = b
    · subst hab
      rw [Function.update_self] at hc ⊢
      rw [hb]
      exact .inl (wraps_inc (Option.some.inj hc))
    · rw [Function.update_of_ne hab] at hc
      exact .inr (.inr ⟨hc, by simp⟩)
  all_goals grind [Function.update_apply]

/-- An item is deleted only when its count is zero. -/
theorem Effect.taken (h : Effect c mem act p p' c' mem') {n : BitVec 32} (hc : c a = some n) (hc' : c' a = none) :
    n = 0 ∧ p' = .decDealloc a := by
  cases h
  all_goals grind [Function.update_apply]

/-- Memory is given back only by the thread that deleted the item. -/
theorem Effect.freed (h : Effect c mem act p p' c' mem') (hmem : mem a = true) (hmem' : mem' a = false) :
    p = .decDealloc a := by
  cases h
  all_goals grind [Function.update_apply]

end Effect

variable [DecidableEq τ]

theorem mrefDec_moves (h : Keeps R.tab c) (hp : R.pc t = .idle) :
    ∃ R' c', R.mrefDec t a = some R' ∧ Moves R t (.dec a) c R' c' := by
  unfold mrefDec
  rw [query_eq h]
  cases ha : c a with
  | none => exact ⟨_, c, rfl, .same h true⟩
  | some n =>
    obtain ⟨tab', hw, hk⟩ := write_keeps h ha (· - 1)
    have he : Effect c R.mem (.dec a) (R.pc t) (if n - 1 = 0 then .decQuery a else .idle)
      (Function.update c a (some (n - 1))) R.mem := by rw [hp]; exact .dec ha
    simp only [Option.map_some, hw]
    by_cases h0 : n - 1 = 0
    · rw [if_pos h0] at he ⊢
      exact ⟨_, _, rfl, .goto hk he⟩
    · rw [if_neg h0] at he ⊢
      exact ⟨_, _, rfl, .table hk (hp ▸ he)⟩

theorem more_moves (h : Keeps R.tab c) (room : Bool) :
    ∃ R' c', R.more t room = some R' ∧ Moves R t (.more room) c R' c' := by
  unfold more
  cases hp : R.pc t with
  | idle => exact ⟨R, c, rfl, .same h R.aborted⟩
  | addQuery a =>
    simp only [query_eq h]
    cases ha : c a with
    | none =>
      cases room with
      | true => exact ⟨_, c, rfl, .goto h (by rw [hp]; exact .addMiss ha)⟩
      | false => exact ⟨_, c, rfl, .same h true⟩
    | some n =>
      obtain ⟨tab', hw, hk⟩ := write_keeps h ha (· + 1)
      exact ⟨_, _, by simp only [Option.map_some, hw]; rfl, .goto hk (by rw [hp]; exact .addFound ha)⟩
  | addInsert a =>
    by_cases ha : c a = none ∧ room = true
    · obtain ⟨ha, rfl⟩ := ha
      obtain ⟨tab', hins, hk⟩ := h.insert ha
      exact ⟨_, _, by simp only [hins]; rfl, .goto hk (by rw [hp]; exact .insert ha)⟩
    · have hno : c a ≠ none ∨ room = false := by
        by_cases hroom : room = true
        · exact .inl fun h0 => ha ⟨h0, hroom⟩
        · exact .inr (by simpa using hroom)
      obtain ⟨ret, hins, hret⟩ := h.insert_not hno
      simp only [hins, if_neg hret]
      exact ⟨_, c, rfl, .goto h (by rw [hp]; exact .again)⟩
  | decQuery a =>
    simp only [query_eq h]
    cases ha : c a with
    | none => exact ⟨_, c, rfl, .goto h (by rw [hp]; exact .kept (by rw [ha]; simp))⟩
    | some n =>
      by_cases h0 : n = 0
      · obtain ⟨r, hdel, hk⟩ := h.delete a
        simp only [Option.map_some, if_pos h0, hdel]
        exact ⟨_, _, rfl, .goto hk (by rw [hp]; exact .delete (by rw [ha, h0]))⟩
      · simp only [Option.map_some, if_neg h0]
        exact ⟨_, c, rfl, .goto h (by rw [hp]; exact .kept (by rw [ha]; simpa using h0))⟩
  | decDealloc a =>
    refine ⟨_, c, rfl, h, ?_, fun t' ht => Function.update_of_ne ht .., fun h2 => ?_⟩
    · show Effect c R.mem (.more room) (R.pc t) (Function.update R.pc t .idle t) c (Function.update R.mem a false)
      rw [hp, Function.update_self]
      exact .dealloc
    · have h2 : (R.twice || !R.mem a) = true := h2
      rw [Bool.or_eq_true, Bool.not_eq_true'] at h2
      exact h2.imp_right fun hm => ⟨a, hp, hm⟩

theorem step_moves (h : Keeps R.tab c) (t : τ) (act : Act) :
    ∃ R' c', R.step t act = some R' ∧ Moves R t act c R' c' := by
  have hstay : Moves R t act c R c := .same h R.aborted
  unfold step
  split
  · exact ⟨R, c, rfl, hstay⟩
  cases act with
  | alloc a =>
    simp only
    split
    · rename_i ha
      refine ⟨_, c, rfl, h, ?_, fun t' ht => Function.update_of_ne ht .., .inl⟩
      show Effect c R.mem (.alloc a) (R.pc t) (Function.update R.pc t (.addQuery a) t) c (Function.update R.mem a true)
      rw [ha.1, Function.update_self]
      exact .alloc ha.2
    · exact ⟨R, c, rfl, hstay⟩
  | inc a =>
    simp only
    split
    · exact mrefInc_moves h (by assumption)
    · exact ⟨R, c, rfl, hstay⟩
  | dec a =>
    simp only
    split
    · exact mrefDec_moves h (by assumption)
    · exact ⟨R, c, rfl, hstay⟩
  | more room => exact more_moves h room

/-! ## The invariant -/

/-- The blocks whose count has wrapped since they were allocated. -/
def marked (R R' : Race τ) (marks : Block → Bool) (a : Block) : Bool :=
  if R.mem a = false ∧ R'.mem a = true then false else marks a || wraps (R.count a) (R'.count a)

/-- A run with the blocks whose count has wrapped. -/
def next (s : Race τ × (Block → Bool)) (x : τ × Act) : Option (Race τ × (Block → Bool)) :=
  (s.1.step x.1 x.2).map fun R' => (R', marked s.1 R' s.2)

/-- `c` are the counts, and `marks` the blocks whose count has wrapped. -/
structure Inv (R : Race τ) (c : Block → Option (BitVec 32)) (marks : Block → Bool) : Prop where
  keeps : Keeps R.tab c
  owns : ∀ t a, (R.pc t).owns = some a → R.mem a = true ∧ c a = none
  once : ∀ t t' a, (R.pc t).owns = some a → (R.pc t').owns = some a → t = t'
  mem : ∀ a n, c a = some n → R.mem a = true
  held : ∀ a, R.mem a = true → c a ≠ none ∨ ∃ t, (R.pc t).owns = some a
  zero : ∀ a, c a = some 0 → marks a = true ∨ ∃ t, R.pc t = .decQuery a
  twice : R.twice = false

variable {R' : Race τ} {c c' : Block → Option (BitVec 32)} {marks : Block → Bool}

theorem Inv.step (h : Inv R c marks) (hm : Moves R t act c R' c') : Inv R' c' (marked R R' marks) := by
  obtain ⟨hk, he, hothers, htwice⟩ := hm
  have hc : R.count = c := count_eq h.keeps
  have hc' : R'.count = c' := count_eq hk
  -- another thread that owns a block keeps it
  have hother : ∀ t' a, t' ≠ t → (R.pc t').owns = some a → (R.pc t).owns ≠ some a ∧ R'.mem a = true ∧ c' a = none := by
    intro t' a hne ho
    have hown : (R.pc t).owns ≠ some a := fun h0 => hne (h.once t' t a ho h0)
    exact ⟨hown, he.keep_owned (h.owns t' a ho).1 (h.owns t' a ho).2 hown⟩
  have hself : ∀ a, (R'.pc t).owns = some a → R'.mem a = true ∧ c' a = none := by
    intro a ho
    rcases he.owns ho with ⟨hp, hmem, hca⟩ | ⟨hno, hmem, hca⟩ | ⟨hca, hmem, hca'⟩
    · rw [hmem, hca]
      exact h.owns t a hp
    · refine ⟨hmem, ?_⟩
      rw [hca]
      by_contra hne
      obtain ⟨n, hn⟩ := Option.ne_none_iff_exists'.1 hne
      rw [h.mem a n hn] at hno
      cases hno
    · obtain ⟨n, hn⟩ := Option.ne_none_iff_exists'.1 hca
      exact ⟨hmem.trans (h.mem a n hn), hca'⟩
  have honly : ∀ t' a, t' ≠ t → (R.pc t').owns = some a → (R'.pc t).owns ≠ some a := by
    intro t' a hne ho ho'
    obtain ⟨hmem, hca⟩ := h.owns t' a ho
    rcases he.owns ho' with ⟨hp, -, -⟩ | ⟨hno, -, -⟩ | ⟨hno, -, -⟩
    · exact (hother t' a hne ho).1 hp
    · rw [hmem] at hno
      cases hno
    · exact hno hca
  refine ⟨hk, fun t' a ho => ?_, fun t₁ t₂ a h₁ h₂ => ?_, fun a n hn => ?_, fun a hmem => ?_, fun a ha => ?_, ?_⟩
  · by_cases hne : t' = t
    · subst hne
      exact hself a ho
    · rw [hothers t' hne] at ho
      exact (hother t' a hne ho).2
  · by_cases hne₁ : t₁ = t
    · by_cases hne₂ : t₂ = t
      · rw [hne₁, hne₂]
      · rw [hothers t₂ hne₂] at h₂
        exact absurd (hne₁ ▸ h₁) (honly t₂ a hne₂ h₂)
    · rw [hothers t₁ hne₁] at h₁
      by_cases hne₂ : t₂ = t
      · exact absurd (hne₂ ▸ h₂) (honly t₁ a hne₁ h₁)
      · rw [hothers t₂ hne₂] at h₂
        exact h.once t₁ t₂ a h₁ h₂
  · obtain ⟨hfrom, hto⟩ := he.item hn
    have hmem : R.mem a = true := by
      rcases hfrom with hne | hown
      · obtain ⟨k, hk⟩ := Option.ne_none_iff_exists'.1 hne
        exact h.mem a k hk
      · exact (h.owns t a hown).1
    rcases hto hmem with hmem' | ⟨hown, hne⟩
    · exact hmem'
    · exact absurd (h.owns t a hown).2 hne
  · rcases he.held hmem with hne | hown | ⟨hmem₀, hown, hnone⟩
    · exact .inl hne
    · exact .inr ⟨t, hown⟩
    · obtain hne | ⟨t', ho⟩ := h.held a hmem₀
      · exact absurd hnone hne
      · have hne : t' ≠ t := fun h0 => hown (h0 ▸ ho)
        exact .inr ⟨t', by rw [hothers t' hne]; exact ho⟩
  · have hnew : R.mem a = false → c' a ≠ some 0 := by
      intro hno hz
      obtain ⟨hfrom, -⟩ := he.item hz
      have hmem : R.mem a = true := by
        rcases hfrom with hne | hown
        · obtain ⟨k, hk⟩ := Option.ne_none_iff_exists'.1 hne
          exact h.mem a k hk
        · exact (h.owns t a hown).1
      rw [hmem] at hno
      cases hno
    have hmark : marked R R' marks a = (marks a || wraps (c a) (c' a)) := by
      rw [marked, hc, hc', if_neg fun h0 => hnew h0.1 ha]
    rw [hmark, Bool.or_eq_true]
    rcases he.zero ha with hw | hp | ⟨h0, hp⟩
    · exact .inl (.inr hw)
    · exact .inr ⟨t, hp⟩
    · rcases h.zero a h0 with hg | ⟨t', ht'⟩
      · exact .inl (.inl hg)
      · have hne : t' ≠ t := fun h0 => hp (h0 ▸ ht')
        exact .inr ⟨t', by rw [hothers t' hne]; exact ht'⟩
  · rw [← Bool.not_eq_true]
    intro h2
    rcases htwice h2 with h2 | ⟨a, hp, hno⟩
    · rw [h.twice] at h2
      cases h2
    · rw [(h.owns t a (by rw [hp]; rfl)).1] at hno
      cases hno

omit [DecidableEq τ] in
theorem init_inv : Inv (init τ) (fun _ => none) fun _ => false where
  keeps := hashTabCreat_keeps
  owns := fun _ _ h => by cases h
  once := fun _ _ _ h => by cases h
  mem := fun _ _ h => by cases h
  held := fun _ h => by cases h
  zero := fun _ h => by cases h
  twice := rfl

/-! ## Runs -/

/-- Memory is given back once, only when its item is gone, and at rest no allocated block has count
zero. -/
structure Safe (R : Race τ) (marks : Block → Bool) : Prop where
  /-- No block is given back that is not allocated. -/
  once : R.twice = false
  /-- A block with an item is allocated. -/
  counted : ∀ a n, R.count a = some n → R.mem a = true
  /-- A block about to be given back is allocated, has no count, and no other thread is about to. -/
  freeing : ∀ t a, R.pc t = .decDealloc a → R.mem a = true ∧ R.count a = none ∧ ∀ t', R.pc t' = .decDealloc a → t' = t
  /-- A block that no call is at work on has a count other than zero while it is allocated. -/
  rest : ∀ a, (∀ t, (R.pc t).block ≠ some a) → R.mem a = true → marks a = false → ∃ n, R.count a = some n ∧ n ≠ 0

/-- What a step of `t` may do to counts and memory. -/
structure Lawful (R : Race τ) (t : τ) (act : Act) (R' : Race τ) : Prop where
  /-- Only an item whose count is zero is deleted, by the thread that gives the block back. -/
  taken : ∀ a n, R.count a = some n → R'.count a = none → n = 0 ∧ R'.pc t = .decDealloc a
  freed : ∀ a, R.mem a = true → R'.mem a = false → R.pc t = .decDealloc a
  /-- Every other block is left as it is. -/
  other : ∀ b, act.block (R.pc t) ≠ some b → R'.count b = R.count b ∧ R'.mem b = R.mem b

omit [DecidableEq τ] in
theorem Inv.safe (h : Inv R c marks) : R.Safe marks where
  once := h.twice
  counted := fun a n hn => h.mem a n (count_eq h.keeps ▸ hn)
  freeing := fun t a hp => by
    have hown : (R.pc t).owns = some a := by rw [hp]; rfl
    rw [count_eq h.keeps]
    exact ⟨(h.owns t a hown).1, (h.owns t a hown).2, fun t' hp' => h.once t' t a (by rw [hp']; rfl) hown⟩
  rest := fun a hrest hmem hmark => by
    rw [count_eq h.keeps]
    have hnot : ∀ t, (R.pc t).owns ≠ some a := fun t ho => hrest t (by
      cases hp : R.pc t <;> rw [hp] at ho <;> first | exact ho | cases ho)
    obtain hne | ⟨t, ho⟩ := h.held a hmem
    · obtain ⟨n, hn⟩ := Option.ne_none_iff_exists'.1 hne
      refine ⟨n, hn, fun h0 => ?_⟩
      subst h0
      rcases h.zero a hn with hm | ⟨t, ht⟩
      · rw [hmark] at hm
        cases hm
      · exact hrest t (by rw [ht]; rfl)
    · exact absurd ho (hnot t)

omit [DecidableEq τ] in
theorem Moves.lawful (hm : Moves R t act c R' c') (h : Keeps R.tab c) : R.Lawful t act R' where
  taken := fun a n hn hn' => by
    rw [count_eq h] at hn
    rw [count_eq hm.keeps] at hn'
    exact hm.effect.taken hn hn'
  freed := fun a hmem hmem' => hm.effect.freed hmem hmem'
  other := fun b hb => by
    rw [count_eq h, count_eq hm.keeps]
    exact hm.effect.frame hb

theorem Inv.run : ∀ {R : Race τ} {c : Block → Option (BitVec 32)} {marks : Block → Bool} (acts : List (τ × Act)),
    Inv R c marks → ∃ R' c' marks', acts.foldlM next (R, marks) = some (R', marks') ∧ Inv R' c' marks'
  | R, c, marks, [], h => ⟨R, c, marks, rfl, h⟩
  | R, c, marks, (t, act) :: acts, h => by
    obtain ⟨R₁, c₁, hstep, hm⟩ := step_moves h.keeps t act
    obtain ⟨R', c', marks', hrun, h'⟩ := (h.step hm).run acts
    refine ⟨R', c', marks', ?_, h'⟩
    rw [List.foldlM_cons]
    simp only [next, hstep, Option.map_some]
    exact hrun

/-- In every run every block is given back at most once, and at rest one that is still allocated has
a count other than zero unless its count has wrapped; a step deletes no item with a count and
touches one block only. -/
theorem mref_race_correct (acts : List (τ × Act)) : ∃ R marks,
    acts.foldlM next (init τ, fun _ => false) = some (R, marks) ∧ R.Safe marks ∧
      ∀ t act, ∃ R', R.step t act = some R' ∧ R.Lawful t act R' := by
  obtain ⟨R, c, marks, hrun, h⟩ := init_inv.run acts
  refine ⟨R, marks, hrun, h.safe, fun t act => ?_⟩
  obtain ⟨R', c', hstep, hm⟩ := step_moves h.keeps t act
  exact ⟨R', hstep, hm.lawful h.keeps⟩

/-- An increment after the count has got to zero, and before the decrement comes back, keeps the
block. A second decrement there takes the count below zero: no call gives the block back any more,
not even when the count is zero again. -/
theorem count_zero_not_freed : (¬∀ (acts acts' : List (Fin 2 × Act)) (R R' : Race (Fin 2)) (a : Block),
    (init (Fin 2)).run acts = some R → R.count a = some 0 → R.run acts' = some R' → (∀ x ∈ acts', x.2 ≠ .alloc a) →
      (∀ t, R'.pc t = .idle) → R'.mem a = false) ∧
    ¬∀ (acts : List (Fin 2 × Act)) (R : Race (Fin 2)) (a : Block), (init (Fin 2)).run acts = some R →
      (∀ t, R.pc t = .idle) → R.count a ≠ some 0 := by
  constructor
  · intro h
    have hzero : ((init (Fin 2)).run [(0, .alloc ⟨8, by decide⟩), (0, .more true), (0, .more true),
        (0, .dec ⟨8, by decide⟩)]).map (fun R => (R.count ⟨8, by decide⟩,
          (R.run [(1, .inc ⟨8, by decide⟩), (0, .more true)]).map fun R' =>
            (R'.mem ⟨8, by decide⟩, decide (∀ t, R'.pc t = .idle)))) = some (some 0, some (true, true)) := by
      decide +kernel
    obtain ⟨R, hrun, hR⟩ := Option.map_eq_some_iff.1 hzero
    simp only [Prod.mk.injEq] at hR
    obtain ⟨R', hrun', hR'⟩ := Option.map_eq_some_iff.1 hR.2
    simp only [Prod.mk.injEq, decide_eq_true_eq] at hR'
    have hacts : ∀ x ∈ [((1 : Fin 2), Act.inc ⟨8, by decide⟩), (0, Act.more true)], x.2 ≠ .alloc ⟨8, by decide⟩ := by
      rintro x (_ | ⟨_, _ | ⟨_, ⟨⟩⟩⟩) <;> simp
    have hfreed := h _ _ R R' _ hrun hR.1 hrun' hacts hR'.2
    rw [hR'.1] at hfreed
    cases hfreed
  · intro h
    have hwrap : ((init (Fin 2)).run [(0, .alloc ⟨8, by decide⟩), (0, .more true), (0, .more true),
        (0, .dec ⟨8, by decide⟩), (1, .dec ⟨8, by decide⟩), (0, .more true), (1, .inc ⟨8, by decide⟩)]).map
          (fun R => (R.count ⟨8, by decide⟩, decide (∀ t, R.pc t = .idle))) = some (some 0, true) := by decide +kernel
    obtain ⟨R, hrun, hR⟩ := Option.map_eq_some_iff.1 hwrap
    simp only [Prod.mk.injEq, decide_eq_true_eq] at hR
    exact h _ R _ hrun hR.2 hR.1

end Race

end BeehiveIm.Core.MrefTab
