/-
Threads in `mem_seg_ref_alloc`, `mem_seg_ref_incr` and `mem_seg_ref_decr` at once. What a step
does, it does at one address, so the invariant says of every address where the segment that begins
there stands. All is right unless a count is brought to zero while a thread that has brought it
there before is still to look.
-/
import BeehiveIm.Core.MemSegRef
import BeehiveIm.Core.RbTree.Run
import BeehiveIm.Lib.Run

namespace BeehiveIm.Core.MemSegRef

open BeehiveIm.Lib

variable {τ : Type}

/-! ## What is right -/

/-- A thread has taken the item out of the tree, and is to give the memory back. -/
def Leaving (ctx : Cntx τ) (addr : Nat) : Prop :=
  ∃ t p it, ctx.pc t = .dealloc p ∧ ctx.item p = some it ∧ it.addr = addr

/-- A thread has brought the count of the item to zero, and is to look again. -/
def Testing (ctx : Cntx τ) (addr : Nat) : Prop :=
  ∃ t a p it, ctx.pc t = .test a p ∧ ctx.item p = some it ∧ it.addr = addr

/-- The segment is found by its addresses, with its references. -/
def Counted (ctx : Cntx τ) (s : Seg) : Prop :=
  ∀ a, s.Has a → ∃ p it, ctx.query a = some (some p) ∧ ctx.item p = some it ∧ it.addr = s.addr ∧ it.size = s.size ∧
    (it.count.toNat : Int) = s.count

/-- The counts are those of the calls made; a segment without references is on its way
back, and none with one is. -/
structure Right (w : World τ) : Prop where
  apart : w.segs.Pairwise Seg.Apart
  counted : ∀ s ∈ w.segs, s.given = true → Counted w.ctx s ∨ Leaving w.ctx s.addr
  leaving : ∀ s ∈ w.segs, Leaving w.ctx s.addr → s.count = 0
  zero : ∀ s ∈ w.segs, s.count = 0 → Testing w.ctx s.addr ∨ Leaving w.ctx s.addr
  freed : ∀ s ∈ w.freed, s.count = 0

/-- The allocator hands out what lies apart from all that is allocated, and calls are made with an
address of a segment that `mem_seg_ref_alloc` has answered. -/
def Allowed (w : World τ) (e : τ × Act) : Prop :=
  match e.2 with
  | .alloc addr size => w.ctx.pc e.1 = .idle ∧ 0 < addr ∧ ∀ s ∈ w.segs, Seg.Apart ⟨addr, size, 1, false⟩ s
  | .incr addr => w.ctx.pc e.1 = .idle ∧ ∃ s ∈ w.segs, s.given = true ∧ s.Has addr
  | .decr addr => w.ctx.pc e.1 = .idle ∧ ∃ s ∈ w.segs, s.given = true ∧ s.Has addr
  | .more room => ∀ p ∈ room, w.ctx.item p = none

/-- There is memory for an item; the segment that is referred to is not on its way back, its count
does not wrap, and it is not brought to zero while a thread is to look at it. -/
def Meets (w : World τ) (e : τ × Act) : Prop :=
  match e.2 with
  | .alloc _ _ => True
  | .incr addr => ∀ s ∈ w.segs, s.Has addr → s.count + 1 < 2 ^ 32 ∧ ¬Leaving w.ctx s.addr
  | .decr addr => ∀ s ∈ w.segs, s.Has addr → 1 ≤ s.count ∧ (s.count = 1 → ¬Testing w.ctx s.addr)
  | .more room => ∀ addr size, w.ctx.pc e.1 = .add addr size → room ≠ none

/-! ## Where an address stands -/

/-- The address a thread is about -/
def about (ctx : Cntx τ) : Pc → Option Nat
  | .idle => none
  | .add addr _ => some addr
  | .insert addr _ _ => some addr
  | .test _ p => (ctx.item p).map (·.addr)
  | .dealloc p => (ctx.item p).map (·.addr)

/-- The segment that begins at an address, its item, whether that is in the tree, and the
thread that is about it. -/
structure Site (τ : Type) where
  seg : Option Seg
  item : Option (Ptr × MemSegRefItem)
  stored : Bool
  thread : Option (τ × Pc)

/-- What is to be seen of the address `x` -/
structure Sees (w : World τ) (l : List Ptr) (x : Nat) (site : Site τ) : Prop where
  seg : ∀ s, s ∈ w.segs ∧ s.addr = x ↔ site.seg = some s
  item : ∀ p it, w.ctx.item p = some it ∧ it.addr = x ↔ site.item = some (p, it)
  stored : ∀ p it, site.item = some (p, it) → (p ∈ l ↔ site.stored = true)
  thread : ∀ t pc, w.ctx.pc t = pc ∧ about w.ctx pc = some x ↔ site.thread = some (t, pc)

/-- Where a segment can stand. -/
inductive Stands (x : Nat) : Site τ → Prop
  | none : Stands x ⟨.none, .none, false, .none⟩
  | add {t : τ} {n : Nat} : Stands x ⟨some ⟨x, n, 1, false⟩, .none, false, some (t, .add x n)⟩
  | insert {t : τ} {n : Nat} {p : Ptr} :
    Stands x ⟨some ⟨x, n, 1, false⟩, some (p, ⟨x, n, 1⟩), false, some (t, .insert x n p)⟩
  | stored {n : Nat} {c : BitVec 32} {p : Ptr} (hc : c ≠ 0) :
    Stands x ⟨some ⟨x, n, c.toNat, true⟩, some (p, ⟨x, n, c⟩), true, .none⟩
  | test {t : τ} {n a : Nat} {c : BitVec 32} {p : Ptr} (ha : Covers ⟨x, n, c⟩ a) :
    Stands x ⟨some ⟨x, n, c.toNat, true⟩, some (p, ⟨x, n, c⟩), true, some (t, .test a p)⟩
  | dealloc {t : τ} {n : Nat} {c : BitVec 32} {p : Ptr} :
    Stands x ⟨some ⟨x, n, 0, true⟩, some (p, ⟨x, n, c⟩), false, some (t, .dealloc p)⟩

/-- What holds of the tree and of the segments as a whole -/
structure Sound (w : World τ) (l : List Ptr) : Prop where
  tree : TreeOf w.ctx l
  apart : w.segs.Pairwise Seg.Apart
  pos : ∀ s ∈ w.segs, 0 < s.addr
  freed : ∀ s ∈ w.freed, s.count = 0

/-- Every address stands somewhere, and every thread is about one or in no call. -/
structure Kept (w : World τ) (l : List Ptr) : Prop extends Sound w l where
  sites : ∀ x, ∃ site, Sees w l x site ∧ Stands x site
  known : ∀ t, about w.ctx (w.ctx.pc t) = none → w.ctx.pc t = .idle

variable {w w' : World τ} {l l' : List Ptr} {x y : Nat} {site : Site τ} {s s' : Seg} {t : τ} {p : Ptr} {it : MemSegRefItem}
  {a n : Nat}

theorem Kept.site_of_seg (h : Kept w l) (hs : s ∈ w.segs) : ∃ site, Sees w l s.addr site ∧ Stands s.addr site ∧
    site.seg = some s := by
  obtain ⟨site, hsees, hstands⟩ := h.sites s.addr
  exact ⟨site, hsees, hstands, (hsees.seg s).1 ⟨hs, rfl⟩⟩

theorem Kept.site_of_item (h : Kept w l) (hit : w.ctx.item p = some it) : ∃ site, Sees w l it.addr site ∧
    Stands it.addr site ∧ site.item = some (p, it) := by
  obtain ⟨site, hsees, hstands⟩ := h.sites it.addr
  exact ⟨site, hsees, hstands, (hsees.item p it).1 ⟨hit, rfl⟩⟩

theorem Kept.site_of_thread (h : Kept w l) (hx : about w.ctx (w.ctx.pc t) = some x) : ∃ site, Sees w l x site ∧
    Stands x site ∧ site.thread = some (t, w.ctx.pc t) := by
  obtain ⟨site, hsees, hstands⟩ := h.sites x
  exact ⟨site, hsees, hstands, (hsees.thread t _).1 ⟨rfl, hx⟩⟩

theorem about_dealloc (hit : w.ctx.item p = some it) (haddr : it.addr = x) : about w.ctx (.dealloc p) = some x := by
  show (w.ctx.item p).map (·.addr) = some x
  rw [hit, Option.map_some, haddr]

theorem Kept.counted (h : Kept w l) (hp : p ∈ l) (hit : w.ctx.item p = some it) (haddr : it.addr = s.addr)
    (hsize : it.size = s.size) (hcount : (it.count.toNat : Int) = s.count) : Counted w.ctx s := by
  intro a ha
  refine ⟨p, it, h.tree.query hp hit ?_, hit, haddr, hsize, hcount⟩
  unfold Covers
  rw [haddr, hsize]
  exact ha

/-- All that is right can be read off where the addresses stand. -/
theorem Kept.right (h : Kept w l) : Right w := by
  refine ⟨h.apart, ?_, ?_, ?_, h.freed⟩
  · intro s hs hgiven
    obtain ⟨site, hsees, hstands, hseg⟩ := h.site_of_seg hs
    cases hstands with
    | none => cases hseg
    | add =>
      have hnot := congrArg Seg.given (Option.some.inj hseg)
      rw [hgiven] at hnot
      cases hnot
    | insert =>
      have hnot := congrArg Seg.given (Option.some.inj hseg)
      rw [hgiven] at hnot
      cases hnot
    | stored hc =>
      have heq := Option.some.inj hseg
      exact Or.inl (h.counted ((hsees.stored _ _ rfl).2 rfl) ((hsees.item _ _).2 rfl).1 rfl (congrArg Seg.size heq)
        (congrArg Seg.count heq))
    | test ha =>
      have heq := Option.some.inj hseg
      exact Or.inl (h.counted ((hsees.stored _ _ rfl).2 rfl) ((hsees.item _ _).2 rfl).1 rfl (congrArg Seg.size heq)
        (congrArg Seg.count heq))
    | dealloc => exact Or.inr ⟨_, _, _, ((hsees.thread _ _).2 rfl).1, ((hsees.item _ _).2 rfl).1, rfl⟩
  · rintro s hs ⟨t, p, it, hpc, hit, haddr⟩
    obtain ⟨site, hsees, hstands, hseg⟩ := h.site_of_seg hs
    have hthread := (hsees.thread t _).1 ⟨hpc, about_dealloc hit haddr⟩
    cases hstands with
    | dealloc => exact (congrArg Seg.count (Option.some.inj hseg)).symm
    | _ => cases hthread
  · intro s hs hzero
    obtain ⟨site, hsees, hstands, hseg⟩ := h.site_of_seg hs
    cases hstands with
    | none => cases hseg
    | add => exact absurd (congrArg Seg.count (Option.some.inj hseg)) (by rw [hzero]; exact one_ne_zero)
    | insert => exact absurd (congrArg Seg.count (Option.some.inj hseg)) (by rw [hzero]; exact one_ne_zero)
    | stored hc =>
      have hcount := congrArg Seg.count (Option.some.inj hseg)
      rw [hzero] at hcount
      exact absurd (BitVec.eq_of_toNat_eq (Int.ofNat.inj hcount)) hc
    | test ha => exact Or.inl ⟨_, _, _, _, ((hsees.thread _ _).2 rfl).1, ((hsees.item _ _).2 rfl).1, rfl⟩
    | dealloc => exact Or.inr ⟨_, _, _, ((hsees.thread _ _).2 rfl).1, ((hsees.item _ _).2 rfl).1, rfl⟩

/-! ## A step at one address -/

/-- Only the address `y` is touched, and by the thread `t`. -/
structure Frame (y : Nat) (t : τ) (w w' : World τ) (l l' : List Ptr) : Prop where
  segs : ∀ s : Seg, s.addr ≠ y → (s ∈ w'.segs ↔ s ∈ w.segs)
  item : ∀ p it, it.addr ≠ y → (w'.ctx.item p = some it ↔ w.ctx.item p = some it)
  list : ∀ p it, w.ctx.item p = some it → it.addr ≠ y → (p ∈ l' ↔ p ∈ l)
  pc : ∀ t', t' ≠ t → w'.ctx.pc t' = w.ctx.pc t'
  before : ∀ x, x ≠ y → about w.ctx (w.ctx.pc t) ≠ some x
  after : ∀ x, x ≠ y → about w'.ctx (w'.ctx.pc t) ≠ some x

theorem Frame.about_iff (h : Frame y t w w' l l') (hx : x ≠ y) (pc : Pc) :
    about w'.ctx pc = some x ↔ about w.ctx pc = some x := by
  have hitem : ∀ p, (w'.ctx.item p).map (·.addr) = some x ↔ (w.ctx.item p).map (·.addr) = some x := fun p => by
    simp only [Option.map_eq_some_iff]
    refine exists_congr fun it => and_congr_left fun haddr => h.item p it ?_
    rwa [haddr]
  cases pc with
  | idle => exact Iff.rfl
  | add a n => exact Iff.rfl
  | insert a n p => exact Iff.rfl
  | test a p => exact hitem p
  | dealloc p => exact hitem p

/-- What is to be seen of the other addresses is the same. -/
theorem Sees.frame (h : Sees w l x site) (hf : Frame y t w w' l l') (hx : x ≠ y) : Sees w' l' x site where
  seg s := by
    rw [← h.seg s]
    exact and_congr_left fun haddr => hf.segs s (by rwa [haddr])
  item p it := by
    rw [← h.item p it]
    exact and_congr_left fun haddr => hf.item p it (by rwa [haddr])
  stored p it hsite := by
    obtain ⟨hit, haddr⟩ := (h.item p it).2 hsite
    rw [← h.stored p it hsite]
    exact hf.list p it hit (by rwa [haddr])
  thread t' pc := by
    rw [← h.thread t' pc, hf.about_iff hx]
    refine and_congr_left fun habout => ?_
    by_cases ht : t' = t
    · subst ht
      refine iff_of_false (fun hpc => ?_) fun hpc => ?_
      · exact hf.after x hx (hpc ▸ (hf.about_iff hx pc).2 habout)
      · exact hf.before x hx (hpc ▸ habout)
    · rw [hf.pc t' ht]

/-- What is to be seen of the address that is touched, as far as the thread is concerned -/
structure Here (w : World τ) (l : List Ptr) (x : Nat) (t : τ) (site : Site τ) : Prop where
  seg : ∀ s, s ∈ w.segs ∧ s.addr = x ↔ site.seg = some s
  item : ∀ p it, w.ctx.item p = some it ∧ it.addr = x ↔ site.item = some (p, it)
  stored : ∀ p it, site.item = some (p, it) → (p ∈ l ↔ site.stored = true)
  thread : site.thread = some (t, w.ctx.pc t) ∧ about w.ctx (w.ctx.pc t) = some x ∨
    site.thread = none ∧ w.ctx.pc t = .idle

/-- The invariant is kept if the address that is touched stands somewhere afterwards. -/
theorem Kept.move {old : Site τ} (h : Kept w l) (hold : Sees w l y old) (honly : ∀ t' pc, old.thread = some (t', pc) → t' = t)
    (hf : Frame y t w w' l l') (hsound : Sound w' l') (hstands : Stands y site) (hhere : Here w' l' y t site) :
    Kept w' l' := by
  have hother : ∀ t', t' ≠ t → about w'.ctx (w.ctx.pc t') = about w.ctx (w.ctx.pc t') ∧
      about w.ctx (w.ctx.pc t') ≠ some y := fun t' ht => by
    have hne : about w.ctx (w.ctx.pc t') ≠ some y := fun habout => ht (honly t' _ ((hold.thread t' _).1 ⟨rfl, habout⟩))
    refine ⟨?_, hne⟩
    cases habout : about w.ctx (w.ctx.pc t') with
    | none =>
      rw [h.known t' habout]
      rfl
    | some x => exact (hf.about_iff (fun hx => hne (hx ▸ habout)) _).2 habout
  refine ⟨hsound, fun x => ?_, fun t' habout => ?_⟩
  · by_cases hx : x = y
    · subst hx
      refine ⟨site, ⟨hhere.seg, hhere.item, hhere.stored, fun t' pc => ?_⟩, hstands⟩
      by_cases ht : t' = t
      · subst ht
        rcases hhere.thread with ⟨hthread, habout⟩ | ⟨hthread, hidle⟩
        · rw [hthread, Option.some_inj, Prod.mk.injEq, and_iff_right rfl]
          exact and_iff_left_of_imp fun hpc => hpc ▸ habout
        · rw [hthread, hidle]
          refine iff_of_false (fun hpc => ?_) fun hsite => nomatch hsite
          rw [← hpc.1] at hpc
          exact nomatch hpc.2
      · refine iff_of_false (fun hpc => ?_) fun hsite => ?_
        · rw [hf.pc t' ht] at hpc
          exact (hother t' ht).2 ((hother t' ht).1 ▸ hpc.1.symm ▸ hpc.2)
        · rcases hhere.thread with ⟨hthread, -⟩ | ⟨hthread, -⟩
          · rw [hthread] at hsite
            exact ht (congrArg Prod.fst (Option.some.inj hsite)).symm
          · rw [hthread] at hsite
            cases hsite
    · obtain ⟨site', hsees, hstands'⟩ := h.sites x
      exact ⟨site', hsees.frame hf hx, hstands'⟩
  · by_cases ht : t' = t
    · subst ht
      rcases hhere.thread with ⟨-, hsome⟩ | ⟨-, hidle⟩
      · rw [hsome] at habout
        cases habout
      · exact hidle
    · rw [hf.pc t' ht] at habout ⊢
      exact h.known t' ((hother t' ht).1.symm.trans habout)

/-! ## Segments and items that change -/

/-- The segment at `y` changes, and keeps its bytes. -/
def alter (y : Nat) (f : Seg → Seg) (segs : List Seg) : List Seg := segs.map fun s => if s.addr = y then f s else s

section Alter

variable {segs : List Seg} {f : Seg → Seg} (hf : ∀ s, (f s).addr = s.addr ∧ (f s).size = s.size)

include hf

theorem mem_alter_ne (hs : s.addr ≠ y) : s ∈ alter y f segs ↔ s ∈ segs := by
  unfold alter
  rw [List.mem_map]
  constructor
  · rintro ⟨s', hs', rfl⟩
    split at hs
    · rename_i haddr
      exact absurd ((hf s').1.trans haddr) hs
    · rename_i haddr
      rwa [if_neg haddr]
  · exact fun h => ⟨s, h, if_neg hs⟩

theorem mem_alter (hy : ∀ s', s' ∈ segs ∧ s'.addr = y ↔ some s = some s') (s' : Seg) :
    s' ∈ alter y f segs ∧ s'.addr = y ↔ some (f s) = some s' := by
  obtain ⟨hmem, haddr⟩ := (hy s).2 rfl
  unfold alter
  rw [List.mem_map]
  constructor
  · rintro ⟨⟨s₁, hs₁, rfl⟩, hs'⟩
    have haddr₁ : s₁.addr = y := by
      by_contra hne
      rw [if_neg hne] at hs'
      exact hne hs'
    rw [if_pos haddr₁, Option.some.inj ((hy s₁).1 ⟨hs₁, haddr₁⟩)]
  · intro heq
    cases heq
    exact ⟨⟨s, hmem, if_pos haddr⟩, (hf s).1.trans haddr⟩

theorem apart_alter (h : segs.Pairwise Seg.Apart) : (alter y f segs).Pairwise Seg.Apart := by
  have hsame : ∀ s : Seg, (if s.addr = y then f s else s).addr = s.addr ∧
      (if s.addr = y then f s else s).size = s.size := fun s => by
    split
    · exact hf s
    · exact ⟨rfl, rfl⟩
  refine List.pairwise_map.2 (h.imp fun {s s'} hs => ?_)
  unfold Seg.Apart
  rw [(hsame s).1, (hsame s).2, (hsame s').1, (hsame s').2]
  exact hs

theorem pos_alter (h : ∀ s ∈ segs, 0 < s.addr) : ∀ s ∈ alter y f segs, 0 < s.addr := by
  intro s hs
  obtain ⟨s', hs', rfl⟩ := List.mem_map.1 hs
  split
  · rw [(hf s').1]
    exact h s' hs'
  · exact h s' hs'

end Alter

instance instSymmApart : Std.Symm Seg.Apart := ⟨fun _ _ h => h.symm⟩

/-- Where segments lie apart, an address is in one of them only. -/
theorem has_unique {segs : List Seg} (h : segs.Pairwise Seg.Apart) (hs : s ∈ segs) (hs' : s' ∈ segs) (ha : s.Has a)
    (ha' : s'.Has a) : s = s' := by
  by_contra hne
  have hapart : Seg.Apart s s' := h.forall hs hs' hne
  unfold Seg.Has at ha ha'
  unfold Seg.Apart at hapart
  omega

theorem countBy_eq {segs : List Seg} (h : segs.Pairwise Seg.Apart) (hs : s ∈ segs) (ha : s.Has a) (d : Int) :
    countBy a d segs = alter s.addr (fun s => { s with count := s.count + d }) segs := by
  refine List.map_congr_left fun s' hs' => ?_
  by_cases ha' : s'.Has a
  · rw [if_pos ha', if_pos (congrArg Seg.addr (has_unique h hs' hs ha' ha))]
  · have hne : s'.addr ≠ s.addr := fun heq => by
      have hapart : s' ≠ s → Seg.Apart s' s := h.forall hs' hs
      have hsame : s' ≠ s := fun heq => ha' (heq ▸ ha)
      have hlt := hapart hsame
      unfold Seg.Apart at hlt
      omega
    rw [if_neg ha', if_neg hne]

section Update

variable {item : Ptr → Option MemSegRefItem} {v : Option MemSegRefItem} (hv : ∀ it, v = some it → it.addr = y)

include hv

theorem update_item_ne (hp : ∀ it, item p = some it → it.addr = y) (q : Ptr) (hit : it.addr ≠ y) :
    Function.update item p v q = some it ↔ item q = some it := by
  by_cases hq : q = p
  · subst hq
    rw [Function.update_self]
    exact iff_of_false (fun h => hit (hv it h)) fun h => hit (hp it h)
  · rw [Function.update_of_ne hq]

theorem update_item (hp : ∀ q it, item q = some it → it.addr = y → q = p) (q : Ptr) (it : MemSegRefItem) :
    Function.update item p v q = some it ∧ it.addr = y ↔ v.map (fun it => (p, it)) = some (q, it) := by
  by_cases hq : q = p
  · subst hq
    rw [Function.update_self, Option.map_eq_some_iff]
    constructor
    · exact fun h => ⟨it, h.1, rfl⟩
    · rintro ⟨it', hit', heq⟩
      cases heq
      exact ⟨hit', hv it hit'⟩
  · rw [Function.update_of_ne hq, Option.map_eq_some_iff]
    refine iff_of_false (fun h => hq (hp q it h.1 h.2)) ?_
    rintro ⟨it', -, heq⟩
    cases heq
    exact hq rfl

end Update

end BeehiveIm.Core.MemSegRef
