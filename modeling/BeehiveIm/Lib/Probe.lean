/-
Sorted lists under a comparison callback. A search only ever sees the answers of the callback for
one key, so a *probe* `ck : α → Int` stands for `cmp(key, ·)`: negative means the key is smaller
than the element, zero that it is equal to it, positive that it is larger. What a search tree does
to its in-order list is stated for probes; an order on the keys is only needed to know that the
answers of a probe are monotone along the list.
-/
import Mathlib.Data.List.Basic
import Mathlib.Data.List.Pairwise
import Mathlib.Data.List.Perm.Basic
import Mathlib.Data.Set.Basic
import Mathlib.Tactic.Linarith

namespace BeehiveIm.Lib

variable {α : Type}

/-! ## Comparison callbacks -/

/-- `cmp` is the sign function of a total preorder on `S`. -/
structure CmpOn (cmp : α → α → Int) (S : Set α) : Prop where
  symm : ∀ a ∈ S, ∀ b ∈ S, (cmp a b < 0 ↔ 0 < cmp b a)
  trans : ∀ a ∈ S, ∀ b ∈ S, ∀ c ∈ S, cmp a b ≤ 0 → cmp b c ≤ 0 → cmp a c ≤ 0

namespace CmpOn

variable {cmp : α → α → Int} {S T : Set α}

theorem mono (h : CmpOn cmp S) (hT : T ⊆ S) : CmpOn cmp T :=
  ⟨fun a ha b hb => h.symm a (hT ha) b (hT hb),
    fun a ha b hb c hc => h.trans a (hT ha) b (hT hb) c (hT hc)⟩

/-- A comparison of keys orders the elements that carry them. -/
theorem comap {β : Type} {f : β → α} {R : Set β} (h : CmpOn cmp S) (hf : ∀ x ∈ R, f x ∈ S) :
    CmpOn (fun x y => cmp (f x) (f y)) R :=
  ⟨fun a ha b hb => h.symm _ (hf a ha) _ (hf b hb),
    fun a ha b hb c hc => h.trans _ (hf a ha) _ (hf b hb) _ (hf c hc)⟩

/-- Elements that carry the same keys are ordered alike. -/
theorem of_keys {β : Type} {f : β → α} {R R' : Set β} (h : CmpOn (fun x y => cmp (f x) (f y)) R)
    (hf : ∀ x ∈ R', ∃ y ∈ R, f y = f x) : CmpOn (fun x y => cmp (f x) (f y)) R' := by
  refine ⟨fun a ha b hb => ?_, fun a ha b hb c hc => ?_⟩
  · obtain ⟨a', ha', hfa⟩ := hf a ha
    obtain ⟨b', hb', hfb⟩ := hf b hb
    rw [← hfa, ← hfb]
    exact h.symm a' ha' b' hb'
  · obtain ⟨a', ha', hfa⟩ := hf a ha
    obtain ⟨b', hb', hfb⟩ := hf b hb
    obtain ⟨c', hc', hfc⟩ := hf c hc
    rw [← hfa, ← hfb, ← hfc]
    exact h.trans a' ha' b' hb' c' hc'

theorem lt_of_le_of_lt (h : CmpOn cmp S) {a b c : α} (ha : a ∈ S) (hb : b ∈ S) (hc : c ∈ S)
    (hab : cmp a b ≤ 0) (hbc : cmp b c < 0) : cmp a c < 0 := by
  by_contra hac
  have hca : cmp c a ≤ 0 := by
    have := h.symm a ha c hc; have := h.symm c hc a ha; omega
  have hcb := h.trans c hc a ha b hb hca hab
  have := h.symm b hb c hc
  omega

/-- Elements equal to each other compare alike with every third. -/
theorem sign_congr (h : CmpOn cmp S) {a b c : α} (ha : a ∈ S) (hb : b ∈ S) (hc : c ∈ S)
    (hab : cmp a b = 0) : (cmp a c < 0 ↔ cmp b c < 0) ∧ (cmp a c = 0 ↔ cmp b c = 0) := by
  have hba : cmp b a = 0 := by
    have := h.symm a ha b hb; have := h.symm b hb a ha; omega
  have h1 := h.trans a ha b hb c hc (by omega)
  have h2 := h.trans b hb a ha c hc (by omega)
  have h3 := h.lt_of_le_of_lt ha hb hc (by omega)
  have h4 := h.lt_of_le_of_lt hb ha hc (by omega)
  constructor <;> constructor <;> intro h' <;> first | exact h3 h' | exact h4 h' | (by_contra; omega)

theorem eq_symm (h : CmpOn cmp S) {a b : α} (ha : a ∈ S) (hb : b ∈ S) (hab : cmp a b = 0) : cmp b a = 0 := by
  have := h.symm a ha b hb; have := h.symm b hb a ha; omega

/-- The first difference decides, the second between equals. -/
theorem lex {β : Type} {cmp' : β → β → Int} {S' : Set β} (h : CmpOn cmp S) (h' : CmpOn cmp' S') :
    CmpOn (fun x y : α × β => if cmp x.1 y.1 = 0 then cmp' x.2 y.2 else cmp x.1 y.1) {x | x.1 ∈ S ∧ x.2 ∈ S'} := by
  refine ⟨fun a ha b hb => ?_, fun a ha b hb c hc hab hbc => ?_⟩
  · have hs := h.symm a.1 ha.1 b.1 hb.1
    have hs' := h.symm b.1 hb.1 a.1 ha.1
    by_cases h0 : cmp a.1 b.1 = 0
    · simp only [h0, h.eq_symm ha.1 hb.1 h0, if_true]
      exact h'.symm a.2 ha.2 b.2 hb.2
    · have h0' : cmp b.1 a.1 ≠ 0 := by omega
      simpa only [h0, h0', if_false] using hs
  · by_cases h1 : cmp a.1 b.1 = 0 <;> by_cases h2 : cmp b.1 c.1 = 0 <;>
      simp only [h1, h2, if_true, if_false] at hab hbc
    · have h3 := (h.sign_congr ha.1 hb.1 hc.1 h1).2.2 h2
      simpa only [h3, if_true] using h'.trans a.2 ha.2 b.2 hb.2 c.2 hc.2 hab hbc
    · have h3 := (h.sign_congr ha.1 hb.1 hc.1 h1).1.2 (by omega)
      rw [if_neg (by omega)]; omega
    · have h3 : cmp a.1 c.1 < 0 := by
        have hcongr := h.sign_congr hb.1 hc.1 ha.1 h2
        have hsab := h.symm a.1 ha.1 b.1 hb.1
        have hsac := h.symm a.1 ha.1 c.1 hc.1
        omega
      rw [if_neg (by omega)]; omega
    · have h3 := h.lt_of_le_of_lt ha.1 hb.1 hc.1 hab (by omega)
      rw [if_neg (by omega)]; omega

end CmpOn

/-- Strictly increasing. -/
def Sorted (cmp : α → α → Int) (l : List α) : Prop := l.Pairwise fun a b => cmp a b < 0

/-- The answers of the probe go from positive to negative along `l`, with at most one zero. -/
def Splits (ck : α → Int) (l : List α) : Prop := l.Pairwise fun a b => ck a ≤ 0 → ck b < 0

/-- A key that is comparable with every element of a sorted list splits it. -/
theorem Sorted.splits {cmp : α → α → Int} {l : List α} {k : α} (hs : Sorted cmp l)
    (hc : CmpOn cmp (insert k {x | x ∈ l})) : Splits (cmp k) l := by
  refine List.Pairwise.imp_of_mem ?_ hs
  intro a b ha hb hab hka
  exact hc.lt_of_le_of_lt (by simp) (by simp [ha]) (by simp [hb]) hka hab

/-! ## What an operation does to the in-order list -/

/-- The element the probe finds. -/
def findBy (ck : α → Int) (l : List α) : Option α := l.find? fun x => ck x == 0

/-- `d` put between the elements smaller and the elements larger than it. -/
def insertBy (ck : α → Int) (d : α) (l : List α) : List α :=
  l.filter (fun x => 0 < ck x) ++ d :: l.filter (fun x => ck x < 0)

/-- The elements the probe does not find. -/
def eraseBy (ck : α → Int) (l : List α) : List α := l.filter fun x => ck x != 0

theorem findBy_eq_none {ck : α → Int} {l : List α} : findBy ck l = none ↔ ∀ x ∈ l, ck x ≠ 0 := by
  simp [findBy]

theorem findBy_mem {ck : α → Int} {l : List α} {x : α} (h : findBy ck l = some x) :
    x ∈ l ∧ ck x = 0 :=
  ⟨List.mem_of_find?_eq_some h, by simpa using List.find?_some h⟩

theorem mem_eraseBy {ck : α → Int} {l : List α} {x : α} : x ∈ eraseBy ck l ↔ x ∈ l ∧ ck x ≠ 0 := by
  simp [eraseBy]

theorem eraseBy_eq_self {ck : α → Int} {l : List α} (h : ∀ x ∈ l, ck x ≠ 0) : eraseBy ck l = l := by
  rw [eraseBy, List.filter_eq_self]
  intro x hx
  simpa using h x hx

theorem mem_insertBy {ck : α → Int} {l : List α} {d x : α} (h : ∀ x ∈ l, ck x ≠ 0) :
    x ∈ insertBy ck d l ↔ x = d ∨ x ∈ l := by
  simp only [insertBy, List.mem_append, List.mem_filter, decide_eq_true_eq, List.mem_cons]
  constructor
  · rintro (⟨h1, -⟩ | rfl | ⟨h1, -⟩)
    exacts [.inr h1, .inl rfl, .inr h1]
  · rintro (rfl | h1)
    · exact .inr (.inl rfl)
    · have := h x h1
      rcases Int.lt_or_gt_of_ne this with h2 | h2
      exacts [.inr (.inr ⟨h1, h2⟩), .inl ⟨h1, h2⟩]

theorem insertBy_perm {ck : α → Int} {l : List α} {d : α} (h : ∀ x ∈ l, ck x ≠ 0) :
    (insertBy ck d l).Perm (d :: l) := by
  induction l with
  | nil => exact .rfl
  | cons a l ih =>
    have ha := h a (by simp)
    have ih := ih fun x hx => h x (by simp [hx])
    simp only [insertBy] at ih ⊢
    rcases Int.lt_or_gt_of_ne ha with h1 | h1
    · have h2 : ¬0 < ck a := by omega
      simp only [List.filter_cons, h1, h2, decide_false, decide_true, Bool.false_eq_true, if_true, if_false]
      refine (List.perm_middle).trans ((List.Perm.cons d ?_).trans (.refl _))
      refine List.perm_middle.trans (.cons a ?_)
      exact (List.perm_cons d).1 (List.perm_middle.symm.trans ih)
    · have h2 : ¬ck a < 0 := by omega
      simp only [List.filter_cons, h1, h2, decide_false, decide_true, Bool.false_eq_true, if_true, if_false,
        List.cons_append]
      exact (List.Perm.cons a ih).trans (.swap d a l)

theorem Splits.found_unique {ck : α → Int} {l : List α} (hs : Splits ck l) {x y : α} (hx : x ∈ l)
    (hy : y ∈ l) (h1 : ck x = 0) (h2 : ck y = 0) : x = y := by
  induction l with
  | nil => cases hx
  | cons a l ih =>
    obtain ⟨ha, hl⟩ := List.pairwise_cons.1 hs
    rcases List.mem_cons.1 hx with rfl | hx' <;> rcases List.mem_cons.1 hy with rfl | hy'
    · rfl
    · have := ha _ hy' (by omega); omega
    · have := ha _ hx' (by omega); omega
    · exact ih hl hx' hy'

theorem findBy_eq_some {ck : α → Int} {l : List α} (hs : Splits ck l) {x : α} (hx : x ∈ l)
    (h : ck x = 0) : findBy ck l = some x := by
  cases hf : findBy ck l with
  | none => exact absurd h (findBy_eq_none.1 hf x hx)
  | some y =>
    obtain ⟨hy, hy0⟩ := findBy_mem hf
    rw [hs.found_unique hy hx hy0 h]

/-! ## The three ways a probe can answer at a node `l ++ x :: r` -/

section Node

variable {ck : α → Int} {l r : List α} {x : α}

theorem Splits.left (h : Splits ck (l ++ x :: r)) : Splits ck l := (List.pairwise_append.1 h).1

theorem Splits.right (h : Splits ck (l ++ x :: r)) : Splits ck r :=
  (List.pairwise_cons.1 (List.pairwise_append.1 h).2.1).2

theorem Splits.before_pos (h : Splits ck (l ++ x :: r)) (hx : 0 ≤ ck x) : ∀ a ∈ l, 0 < ck a := by
  intro a ha
  have := (List.pairwise_append.1 h).2.2 a ha x (by simp)
  omega

theorem Splits.after_neg (h : Splits ck (l ++ x :: r)) (hx : ck x ≤ 0) : ∀ b ∈ r, ck b < 0 := by
  intro b hb
  exact (List.pairwise_cons.1 (List.pairwise_append.1 h).2.1).1 b hb hx

end Node

/-- An insertion at the place a search ends keeps the list sorted. -/
theorem Sorted.insertBy {cmp : α → α → Int} {l : List α} {d : α} (hs : Sorted cmp l)
    (hc : CmpOn cmp (insert d {x | x ∈ l})) : Sorted cmp (insertBy (cmp d) d l) := by
  have hmem : ∀ {x}, x ∈ l → x ∈ insert d {x | x ∈ l} := fun hx => Set.mem_insert_of_mem _ hx
  have hd : d ∈ insert d {x | x ∈ l} := Set.mem_insert _ _
  unfold Lib.insertBy Sorted
  rw [List.pairwise_append, List.pairwise_cons]
  refine ⟨hs.sublist List.filter_sublist, ⟨?_, hs.sublist List.filter_sublist⟩, ?_⟩
  · intro b hb
    simpa using (List.mem_filter.1 hb).2
  · intro a ha b hb
    obtain ⟨ha, had⟩ := List.mem_filter.1 ha
    simp only [decide_eq_true_eq] at had
    have had' : cmp a d < 0 := (hc.symm a (hmem ha) d hd).2 had
    rcases List.mem_cons.1 hb with rfl | hb
    · exact had'
    · obtain ⟨hb, hdb⟩ := List.mem_filter.1 hb
      simp only [decide_eq_true_eq] at hdb
      exact hc.lt_of_le_of_lt (hmem ha) hd (hmem hb) (by omega) hdb

theorem Sorted.eraseBy {cmp : α → α → Int} {l : List α} (ck : α → Int) (hs : Sorted cmp l) :
    Sorted cmp (eraseBy ck l) := hs.sublist List.filter_sublist

/-! ## The list as a map -/

section Map

variable {cmp : α → α → Int} {l : List α} {k d : α}

/-- A lookup after an insertion. -/
theorem findBy_insertBy (hs : Sorted cmp l) (hc : CmpOn cmp (insert k (insert d {x | x ∈ l})))
    (hd : findBy (cmp d) l = none) :
    findBy (cmp k) (insertBy (cmp d) d l) = if cmp k d = 0 then some d else findBy (cmp k) l := by
  have hne := findBy_eq_none.1 hd
  have hmem : ∀ {x}, x ∈ insertBy (cmp d) d l ↔ x = d ∨ x ∈ l := mem_insertBy hne
  have hs' : Splits (cmp k) (insertBy (cmp d) d l) := by
    refine (hs.insertBy (hc.mono (Set.subset_insert _ _))).splits (hc.mono ?_)
    intro x hx
    simpa [hmem] using hx
  split
  · rename_i h0
    exact findBy_eq_some hs' (hmem.2 (.inl rfl)) h0
  · rename_i h0
    cases hf : findBy (cmp k) l with
    | none =>
      refine findBy_eq_none.2 fun x hx => ?_
      rcases hmem.1 hx with rfl | hx
      exacts [h0, findBy_eq_none.1 hf x hx]
    | some y =>
      obtain ⟨hy, hy0⟩ := findBy_mem hf
      exact findBy_eq_some hs' (hmem.2 (.inr hy)) hy0

/-- A lookup after a deletion. -/
theorem findBy_eraseBy (hs : Sorted cmp l) (hc : CmpOn cmp (insert k (insert d {x | x ∈ l}))) :
    findBy (cmp k) (eraseBy (cmp d) l) = if cmp k d = 0 then none else findBy (cmp k) l := by
  have hk : k ∈ insert k (insert d {x | x ∈ l}) := Set.mem_insert _ _
  have hd : d ∈ insert k (insert d {x | x ∈ l}) := by simp
  have hmem : ∀ {x}, x ∈ l → x ∈ insert k (insert d {x | x ∈ l}) := fun hx => by simp [hx]
  split
  · rename_i h0
    refine findBy_eq_none.2 fun x hx h => ?_
    obtain ⟨hx, hdx⟩ := mem_eraseBy.1 hx
    exact hdx ((hc.sign_congr hk hd (hmem hx) h0).2.1 h)
  · rename_i h0
    have hs' : Splits (cmp k) (eraseBy (cmp d) l) := by
      refine (hs.eraseBy _).splits (hc.mono ?_)
      intro x hx
      rcases hx with rfl | hx
      exacts [hk, hmem (mem_eraseBy.1 hx).1]
    cases hf : findBy (cmp k) l with
    | none => exact findBy_eq_none.2 fun x hx => findBy_eq_none.1 hf x (mem_eraseBy.1 hx).1
    | some y =>
      obtain ⟨hy, hy0⟩ := findBy_mem hf
      refine findBy_eq_some hs' (mem_eraseBy.2 ⟨hy, fun hdy => h0 ?_⟩) hy0
      have hyk : cmp y k = 0 := by
        have := hc.symm k hk y (hmem hy); have := hc.symm y (hmem hy) k hk; omega
      have hdk : cmp d k = 0 := by
        have hyd : cmp y d = 0 := by
          have := hc.symm d hd y (hmem hy); have := hc.symm y (hmem hy) d hd; omega
        exact (hc.sign_congr (hmem hy) hd hk hyd).2.1 hyk
      have := hc.symm k hk d hd; have := hc.symm d hd k hk; omega

end Map

end BeehiveIm.Lib
