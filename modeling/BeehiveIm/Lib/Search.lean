/-
The descent of a search in a tree with addresses, as a path and the subtree it ends at, and what
inserting, finding or erasing there does to the in-order list.
-/
import BeehiveIm.Lib.PtrTree

namespace BeehiveIm.Lib

variable {τ α : Type}

/-- Follow the probe from `t`, which hangs under `c`, to a node it finds or to a leaf. -/
def descend (ck : α → Int) : PTree τ α → Path τ α → Path τ α × PTree τ α
  | .nil, c => (c, .nil)
  | .node a tag d l r, c =>
    if ck d = 0 then (c, .node a tag d l r)
    else if ck d < 0 then descend ck l (⟨.left, a, tag, d, r⟩ :: c)
    else descend ck r (⟨.right, a, tag, d, l⟩ :: c)

theorem descend_step (ck : α → Int) (a : Ptr) (tag : τ) (d : α) (l r : PTree τ α) (c : Path τ α) :
    descend ck (.node a tag d l r) c =
      if ck d = 0 then (c, .node a tag d l r)
      else if ck d < 0 then descend ck l (⟨.left, a, tag, d, r⟩ :: c)
      else descend ck r (⟨.right, a, tag, d, l⟩ :: c) := rfl

theorem descend_fill (ck : α → Int) : ∀ (t : PTree τ α) (c : Path τ α),
    Path.fill (descend ck t c).1 (descend ck t c).2 = Path.fill c t
  | .nil, _ => rfl
  | .node a tag d l r, c => by
    rw [descend_step]
    split
    · rfl
    · split
      · rw [descend_fill ck l]; rfl
      · rw [descend_fill ck r]; rfl

/-- A descent ends at a node it has found, or at a leaf. -/
theorem descend_found (ck : α → Int) : ∀ (t : PTree τ α) (c : Path τ α) {a : Ptr} {tag : τ} {d : α}
    {l r : PTree τ α}, (descend ck t c).2 = .node a tag d l r → ck d = 0
  | .nil, _, _, _, _, _, _, h => by cases h
  | .node _ _ d _ _, _, _, _, _, _, _, h => by
    rw [descend_step] at h
    split at h
    · rename_i h0; cases h; exact h0
    · split at h
      · exact descend_found ck _ _ h
      · exact descend_found ck _ _ h

/-- The elements before the end of a descent are smaller than the key, those after it larger. -/
theorem descend_signs (ck : α → Int) : ∀ (t : PTree τ α) (c : Path τ α), Splits ck t.toList →
    (∀ x ∈ Path.before c, 0 < ck x) → (∀ x ∈ Path.after c, ck x < 0) →
    (∀ x ∈ Path.before (descend ck t c).1, 0 < ck x) ∧ (∀ x ∈ Path.after (descend ck t c).1, ck x < 0)
  | .nil, _, _, hb, ha => ⟨hb, ha⟩
  | .node a tag d l r, c, hs, hb, ha => by
    rw [descend_step]
    split
    · exact ⟨hb, ha⟩
    · split
      · rename_i hd
        refine descend_signs ck l _ hs.left (by simpa [Path.before] using hb) ?_
        intro x hx
        simp only [Path.after, List.mem_cons, List.mem_append, List.cons_append] at hx
        rcases hx with rfl | hx | hx
        exacts [hd, hs.after_neg (by omega) x hx, ha x hx]
      · rename_i h0 hd
        refine descend_signs ck r _ hs.right ?_ (by simpa [Path.after] using ha)
        intro x hx
        simp only [Path.before, List.mem_append, List.mem_singleton] at hx
        rcases hx with (hx | hx) | rfl
        exacts [hb x hx, hs.before_pos (by omega) x hx, by omega]

theorem descend_length (ck : α → Int) : ∀ (t : PTree τ α) (c : Path τ α),
    (descend ck t c).1.length ≤ c.length + t.height
  | .nil, _ => Nat.le_add_right _ _
  | .node a tag d l r, c => by
    rw [descend_step]
    split
    · exact Nat.le_add_right _ _
    · split
      · have := descend_length ck l (⟨.left, a, tag, d, r⟩ :: c)
        simp only [List.length_cons] at this; simp only [PTree.height]; omega
      · have := descend_length ck r (⟨.right, a, tag, d, l⟩ :: c)
        simp only [List.length_cons] at this; simp only [PTree.height]; omega

section Lists

variable {ck : α → Int} {A B : List α}

theorem filter_pos_all (h : ∀ x ∈ A, 0 < ck x) : A.filter (fun x => 0 < ck x) = A := by
  rw [List.filter_eq_self]; intro x hx; simpa using h x hx

theorem filter_pos_none (h : ∀ x ∈ A, ck x < 0) : A.filter (fun x => 0 < ck x) = [] := by
  rw [List.filter_eq_nil_iff]; intro x hx; have := h x hx; simp; omega

theorem filter_neg_all (h : ∀ x ∈ A, ck x < 0) : A.filter (fun x => ck x < 0) = A := by
  rw [List.filter_eq_self]; intro x hx; simpa using h x hx

theorem filter_neg_none (h : ∀ x ∈ A, 0 < ck x) : A.filter (fun x => ck x < 0) = [] := by
  rw [List.filter_eq_nil_iff]; intro x hx; have := h x hx; simp; omega

theorem insertBy_append (d : α) (hA : ∀ x ∈ A, 0 < ck x) (hB : ∀ x ∈ B, ck x < 0) :
    insertBy ck d (A ++ B) = A ++ d :: B := by
  unfold insertBy
  rw [List.filter_append, List.filter_append, filter_pos_all hA, filter_pos_none hB,
    filter_neg_none hA, filter_neg_all hB]
  simp

theorem findBy_append_none (hA : ∀ x ∈ A, 0 < ck x) (hB : ∀ x ∈ B, ck x < 0) :
    findBy ck (A ++ B) = none := by
  rw [findBy_eq_none]
  intro x hx
  rcases List.mem_append.1 hx with h | h
  · have := hA x h; omega
  · have := hB x h; omega

theorem findBy_append_cons {d : α} (hA : ∀ x ∈ A, 0 < ck x) (hd : ck d = 0) :
    findBy ck (A ++ d :: B) = some d := by
  unfold findBy
  rw [List.find?_append, List.find?_eq_none.2 (fun x hx => by have := hA x hx; simp; omega)]
  simp [hd]

theorem eraseBy_append_cons {d : α} (hA : ∀ x ∈ A, 0 < ck x) (hd : ck d = 0) (hB : ∀ x ∈ B, ck x < 0) :
    eraseBy ck (A ++ d :: B) = A ++ B := by
  have h1 : A.filter (fun x => ck x != 0) = A := eraseBy_eq_self fun x hx => by have := hA x hx; omega
  have h2 : B.filter (fun x => ck x != 0) = B := eraseBy_eq_self fun x hx => by have := hB x hx; omega
  unfold eraseBy
  rw [List.filter_append, List.filter_cons, h1, h2]
  simp [hd]

theorem insertBy_left {d e : α} (hs : Splits ck (A ++ e :: B)) (he : ck e < 0) :
    insertBy ck d (A ++ e :: B) = insertBy ck d A ++ e :: B := by
  have hB := hs.after_neg he.le
  have he' : ¬0 < ck e := by omega
  simp only [insertBy, List.filter_append, List.filter_cons, filter_pos_none hB, filter_neg_all hB]
  simp [he, he']

theorem insertBy_right {d e : α} (hs : Splits ck (A ++ e :: B)) (he : 0 < ck e) :
    insertBy ck d (A ++ e :: B) = A ++ e :: insertBy ck d B := by
  have hA := hs.before_pos he.le
  have he' : ¬ck e < 0 := by omega
  simp only [insertBy, List.filter_append, List.filter_cons, filter_pos_all hA, filter_neg_none hA]
  simp [he, he']

end Lists

/-! ## Reading the list operations off the end of a descent -/

section Descent

variable {ck : α → Int} {t t' : PTree τ α} {c : Path τ α}

theorem toList_descend (ck : α → Int) (t : PTree τ α) : t.toList =
    Path.before (descend ck t []).1 ++ (descend ck t []).2.toList ++ Path.after (descend ck t []).1 := by
  rw [← Path.toList_fill, descend_fill]; rfl

/-- Where the probe finds nothing a descent ends at a leaf, whatever the order. -/
theorem descend_none (h : findBy ck t.toList = none) : (descend ck t []).2 = .nil := by
  have hl := toList_descend ck t
  cases he : (descend ck t []).2 with
  | nil => rfl
  | node a tag d l r =>
    have h0 := descend_found ck t [] he
    rw [he] at hl
    exact absurd h0 (findBy_eq_none.1 h d (by rw [hl]; simp))

/-- A descent that ends at a leaf: the probe finds nothing, and the leaf is where an insertion
goes. -/
theorem descend_leaf (hs : Splits ck t.toList) (h : descend ck t [] = (c, .nil)) (d : α) :
    findBy ck t.toList = none ∧ insertBy ck d t.toList = Path.before c ++ d :: Path.after c := by
  obtain ⟨hb, ha⟩ := descend_signs ck t [] hs (by simp [Path.before]) (by simp [Path.after])
  have hl := toList_descend ck t
  rw [h] at hb ha hl
  simp only [PTree.toList_nil, List.append_nil] at hl
  rw [hl]
  exact ⟨findBy_append_none hb ha, insertBy_append d hb ha⟩

/-- A descent that ends at a node: the probe finds its payload, and without the node is without
it. -/
theorem descend_node {a : Ptr} {tag : τ} {d : α} {l r : PTree τ α} (hs : Splits ck t.toList)
    (h : descend ck t [] = (c, .node a tag d l r)) :
    findBy ck t.toList = some d ∧
      eraseBy ck t.toList = Path.before c ++ (l.toList ++ r.toList) ++ Path.after c := by
  obtain ⟨hb, ha⟩ := descend_signs ck t [] hs (by simp [Path.before]) (by simp [Path.after])
  have hl := toList_descend ck t
  have hd := descend_found ck t [] (by rw [h])
  rw [h] at hb ha hl
  have hl' : t.toList = (Path.before c ++ l.toList) ++ d :: (r.toList ++ Path.after c) := by
    rw [hl]; simp
  have hA : ∀ x ∈ Path.before c ++ l.toList, 0 < ck x := by
    rw [hl'] at hs; exact hs.before_pos (by omega)
  have hB : ∀ x ∈ r.toList ++ Path.after c, ck x < 0 := by
    rw [hl'] at hs; exact hs.after_neg (by omega)
  rw [hl']
  refine ⟨findBy_append_cons hA hd, ?_⟩
  rw [eraseBy_append_cons hA hd hB]; simp

end Descent

/-! ## One step of a search -/

/-- The probe's answer `r` at a node sends a search to the child at side `s`. -/
def Toward (s : Side) (r : Int) : Prop :=
  match s with
  | .left => r < 0
  | .right => 0 < r

section Toward

variable {ck : α → Int} {s : Side} {a : Ptr} {tag tag' : τ} {e : α} {t t' y : PTree τ α}

/-- What the search does not pass cannot be found. -/
theorem findBy_toward (hs : Splits ck (PTree.nodeAt s a tag e t y).toList) (h : Toward s (ck e)) :
    findBy ck (PTree.nodeAt s a tag e t y).toList = findBy ck t.toList := by
  cases s with
  | left =>
    have hr := hs.after_neg (Int.le_of_lt h)
    have he : ck e < 0 := h
    have hnone : findBy ck (e :: y.toList) = none := by
      refine findBy_eq_none.2 fun x hx => ?_
      rcases List.mem_cons.1 hx with rfl | hx
      · omega
      · have := hr x hx; omega
    simp only [findBy] at hnone
    simp only [PTree.nodeAt_left, PTree.toList_node, findBy, List.find?_append, hnone, Option.or_none]
  | right =>
    have hl := hs.before_pos (Int.le_of_lt h)
    have he : 0 < ck e := h
    have hnone : findBy ck y.toList = none := findBy_eq_none.2 fun x hx => by have := hl x hx; omega
    simp only [findBy] at hnone
    simp only [PTree.nodeAt_right, PTree.toList_node, findBy, List.find?_append, hnone, Option.none_or]
    exact List.find?_cons_of_neg (by simp; omega)

end Toward

/-! ## Searches without an order -/

/-- The element a search stops at. -/
def meetBy (ck : α → Int) : PTree τ α → Option α
  | .nil => none
  | .node _ _ e l r => if ck e = 0 then some e else if ck e < 0 then meetBy ck l else meetBy ck r

/-- The elements when `d` is put at the leaf a search ends at. -/
def placeBy (ck : α → Int) (d : α) : PTree τ α → List α
  | .nil => [d]
  | .node _ _ e l r =>
    if ck e < 0 then placeBy ck d l ++ e :: r.toList else l.toList ++ e :: placeBy ck d r

/-- The elements without the one a search stops at. -/
def dropBy (ck : α → Int) : PTree τ α → List α
  | .nil => []
  | .node _ _ e l r =>
    if ck e = 0 then l.toList ++ r.toList
    else if ck e < 0 then dropBy ck l ++ e :: r.toList
    else l.toList ++ e :: dropBy ck r

/-- The tree with `g` applied to the element a search stops at. -/
def alterBy (ck : α → Int) (g : α → α) : PTree τ α → PTree τ α
  | .nil => .nil
  | .node a k e l r =>
    if ck e = 0 then .node a k (g e) l r
    else if ck e < 0 then .node a k e (alterBy ck g l) r
    else .node a k e l (alterBy ck g r)

/-- `g` applied to the elements the probe finds. -/
def writeBy (ck : α → Int) (g : α → α) (l : List α) : List α := l.map fun x => if ck x = 0 then g x else x

theorem writeBy_eq_self {ck : α → Int} {g : α → α} {l : List α} (h : ∀ x ∈ l, ck x ≠ 0) : writeBy ck g l = l := by
  refine (List.map_congr_left fun x hx => ?_).trans (List.map_id _)
  rw [if_neg (h x hx)]; rfl

section Meet

variable {ck : α → Int} {s : Side} {a : Ptr} {tag : τ} {d e : α} {t t' y : PTree τ α}

theorem meetBy_toward (h : Toward s (ck e)) : meetBy ck (PTree.nodeAt s a tag e t y) = meetBy ck t := by
  cases s with
  | left =>
    have h' : ck e < 0 := h
    rw [PTree.nodeAt_left, meetBy, if_neg (by omega), if_pos h']
  | right =>
    have h' : 0 < ck e := h
    rw [PTree.nodeAt_right, meetBy, if_neg (by omega), if_neg (by omega)]

theorem placeBy_toward (h : Toward s (ck e)) (ht : t'.toList = placeBy ck d t) :
    (PTree.nodeAt s a tag e t' y).toList = placeBy ck d (PTree.nodeAt s a tag e t y) := by
  cases s with
  | left =>
    have h' : ck e < 0 := h
    rw [PTree.nodeAt_left, PTree.nodeAt_left, placeBy, if_pos h', PTree.toList_node, ht]
  | right =>
    have h' : 0 < ck e := h
    rw [PTree.nodeAt_right, PTree.nodeAt_right, placeBy, if_neg (by omega), PTree.toList_node, ht]

theorem dropBy_toward (h : Toward s (ck e)) (ht : t'.toList = dropBy ck t) :
    (PTree.nodeAt s a tag e t' y).toList = dropBy ck (PTree.nodeAt s a tag e t y) := by
  cases s with
  | left =>
    have h' : ck e < 0 := h
    rw [PTree.nodeAt_left, PTree.nodeAt_left, dropBy, if_neg (by omega), if_pos h', PTree.toList_node, ht]
  | right =>
    have h' : 0 < ck e := h
    rw [PTree.nodeAt_right, PTree.nodeAt_right, dropBy, if_neg (by omega), if_neg (by omega), PTree.toList_node, ht]

theorem placeBy_perm : ∀ t : PTree τ α, (placeBy ck d t).Perm (d :: t.toList)
  | .nil => .rfl
  | .node _ _ e l r => by
    rw [placeBy, PTree.toList_node]
    split
    · exact (placeBy_perm l).append_right _
    · exact (((placeBy_perm r).cons e).append_left _).trans
        (((List.Perm.swap d e _).append_left _).trans List.perm_middle)

/-- In the order a search meets what the probe finds. -/
theorem meetBy_eq : ∀ {t : PTree τ α}, Splits ck t.toList → meetBy ck t = findBy ck t.toList
  | .nil, _ => rfl
  | .node a k e l r, hs => by
    rw [meetBy]
    by_cases h0 : ck e = 0
    · rw [if_pos h0, findBy_eq_some hs (by simp) h0]
    rw [if_neg h0]
    by_cases hlt : ck e < 0
    · rw [if_pos hlt, meetBy_eq hs.left]
      have hto : Toward .left (ck e) := hlt
      exact (findBy_toward (s := .left) (a := a) hs hto).symm
    · rw [if_neg hlt, meetBy_eq hs.right]
      have hto : Toward .right (ck e) := by change 0 < ck e; omega
      exact (findBy_toward (s := .right) (a := a) hs hto).symm

theorem placeBy_eq : ∀ {t : PTree τ α}, Splits ck t.toList → findBy ck t.toList = none →
    placeBy ck d t = insertBy ck d t.toList
  | .nil, _, _ => by simp [placeBy, insertBy]
  | .node a k e l r, hs, hx => by
    have h0 : ck e ≠ 0 := findBy_eq_none.1 hx e (by simp)
    rw [placeBy, PTree.toList_node]
    by_cases hlt : ck e < 0
    · rw [if_pos hlt, insertBy_left hs hlt, placeBy_eq hs.left (findBy_eq_none.2 fun x hx' =>
        findBy_eq_none.1 hx x (by simp [hx']))]
    · rw [if_neg hlt, insertBy_right hs (by omega), placeBy_eq hs.right (findBy_eq_none.2 fun x hx' =>
        findBy_eq_none.1 hx x (by simp [hx']))]

/-- What a search meets is what its descent ends at. -/
theorem meetBy_descend (ck : α → Int) : ∀ (t : PTree τ α) (c : Path τ α),
    meetBy ck t = match (descend ck t c).2 with
      | .nil => none
      | .node _ _ d _ _ => some d
  | .nil, _ => rfl
  | .node a k e l r, c => by
    rw [meetBy, descend]
    split
    · rfl
    · split
      · exact meetBy_descend ck l _
      · exact meetBy_descend ck r _

theorem meetBy_none : ∀ {t : PTree τ α}, (∀ x ∈ t.toList, ck x ≠ 0) → meetBy ck t = none
  | .nil, _ => rfl
  | .node a k e l r, h => by
    rw [meetBy, if_neg (h e (by simp)), meetBy_none fun x hx => h x (by simp [hx]),
      meetBy_none fun x hx => h x (by simp [hx]), ite_self]

/-- The element a search stops at, and the others. -/
theorem dropBy_perm : ∀ {t : PTree τ α}, meetBy ck t = some d → ck d = 0 ∧ t.toList.Perm (d :: dropBy ck t)
  | .nil, h => by cases h
  | .node a k e l r, h => by
    rw [meetBy] at h
    rw [dropBy, PTree.toList_node]
    split at h
    · rename_i h0
      cases h
      rw [if_pos h0]
      exact ⟨h0, List.perm_middle⟩
    rename_i h0
    rw [if_neg h0]
    split at h
    · rename_i hlt
      obtain ⟨hd, hp⟩ := dropBy_perm h
      rw [if_pos hlt]
      exact ⟨hd, hp.append_right _⟩
    · rename_i hlt
      obtain ⟨hd, hp⟩ := dropBy_perm h
      rw [if_neg hlt]
      refine ⟨hd, ((hp.cons e).append_left _).trans ?_⟩
      exact ((List.Perm.swap d e _).append_left _).trans List.perm_middle

/-- The probe finds one element at most. -/
def AtMostOne (ck : α → Int) (l : List α) : Prop := l.Pairwise fun a b => ck a = 0 → ck b ≠ 0

theorem Splits.atMostOne {l : List α} (h : Splits ck l) : AtMostOne ck l := h.imp fun {x y} hxy hx => by omega

/-- Where the probe finds one element at most, the search drops what the probe finds. -/
theorem dropBy_eq : ∀ {t : PTree τ α}, AtMostOne ck t.toList → meetBy ck t = some d →
    dropBy ck t = eraseBy ck t.toList
  | .nil, _, h => by cases h
  | .node a k e l r, hu, h => by
    obtain ⟨hul, hur, hlr⟩ := List.pairwise_append.1 hu
    obtain ⟨her, hur⟩ := List.pairwise_cons.1 hur
    have hsplit : eraseBy ck (PTree.node a k e l r).toList = eraseBy ck l.toList ++ eraseBy ck (e :: r.toList) := by
      rw [PTree.toList_node, eraseBy, eraseBy, eraseBy, List.filter_append]
    rw [meetBy] at h
    rw [hsplit, dropBy]
    split at h
    · rename_i h0
      have hl : eraseBy ck l.toList = l.toList := eraseBy_eq_self fun x hx hx0 => hlr x hx e (by simp) hx0 h0
      have hr : eraseBy ck r.toList = r.toList := eraseBy_eq_self fun x hx => her x hx h0
      rw [if_pos h0, hl, eraseBy, List.filter_cons_of_neg (by simpa using h0)]
      exact congrArg _ hr.symm
    rename_i h0
    rw [if_neg h0]
    split at h
    · rename_i hlt
      obtain ⟨hd0, hp⟩ := dropBy_perm h
      have hd : d ∈ l.toList := hp.mem_iff.2 (by simp)
      rw [if_pos hlt, dropBy_eq hul h, eraseBy_eq_self (l := e :: r.toList) fun x hx => hlr d hd x hx hd0]
    · rename_i hlt
      obtain ⟨hd0, hp⟩ := dropBy_perm h
      have hd : d ∈ r.toList := hp.mem_iff.2 (by simp)
      rw [if_neg hlt, dropBy_eq hur h, eraseBy_eq_self fun x hx hx0 => hlr x hx d (by simp [hd]) hx0 hd0]
      rw [eraseBy, eraseBy, List.filter_cons_of_pos (by simpa using h0)]

theorem alterBy_none {g : α → α} : ∀ {t : PTree τ α}, meetBy ck t = none → alterBy ck g t = t
  | .nil, _ => rfl
  | .node a k e l r, h => by
    rw [meetBy] at h
    rw [alterBy]
    split at h
    · cases h
    · rename_i h0
      rw [if_neg h0]
      split at h
      · rename_i hlt; rw [if_pos hlt, alterBy_none h]
      · rename_i hlt; rw [if_neg hlt, alterBy_none h]

/-- The change at the end of a descent. -/
theorem fill_alterBy {g : α → α} {l r : PTree τ α} {c' : Path τ α} : ∀ (t : PTree τ α) (c : Path τ α),
    descend ck t c = (c', .node a tag d l r) → Path.fill c' (.node a tag (g d) l r) = Path.fill c (alterBy ck g t)
  | .nil, _, h => by cases h
  | .node b k e l₁ r₁, c, h => by
    rw [descend] at h
    rw [alterBy]
    split at h
    · rename_i h0
      cases h
      rw [if_pos h0]
    · rename_i h0
      rw [if_neg h0]
      split at h
      · rename_i hlt
        rw [if_pos hlt, fill_alterBy l₁ _ h]
        rfl
      · rename_i hlt
        rw [if_neg hlt, fill_alterBy r₁ _ h]
        rfl

theorem writeBy_append {g : α → α} (l l' : List α) : writeBy ck g (l ++ l') = writeBy ck g l ++ writeBy ck g l' :=
  List.map_append

/-- Where the probe finds one element at most, and the search finds it, a write there is one
to what the probe finds. -/
theorem alterBy_met {g : α → α} : ∀ {t : PTree τ α}, AtMostOne ck t.toList → meetBy ck t = some d →
    (alterBy ck g t).toList = writeBy ck g t.toList
  | .nil, _, h => by cases h
  | .node a k e l r, hu, h => by
    obtain ⟨hul, hur, hlr⟩ := List.pairwise_append.1 hu
    obtain ⟨her, hur⟩ := List.pairwise_cons.1 hur
    rw [meetBy] at h
    rw [alterBy, PTree.toList_node, writeBy_append]
    split at h
    · rename_i h0
      rw [if_pos h0, PTree.toList_node, writeBy_eq_self fun x hx hx0 => hlr x hx e (by simp) hx0 h0]
      have hr : writeBy ck g r.toList = r.toList := writeBy_eq_self fun x hx => her x hx h0
      rw [writeBy] at hr ⊢
      rw [List.map_cons, if_pos h0, hr]
    rename_i h0
    rw [if_neg h0]
    split at h
    · rename_i hlt
      obtain ⟨hd0, hp⟩ := dropBy_perm h
      have hd : d ∈ l.toList := hp.mem_iff.2 (by simp)
      rw [if_pos hlt, PTree.toList_node, alterBy_met hul h,
        writeBy_eq_self (l := e :: r.toList) fun x hx => hlr d hd x hx hd0]
    · rename_i hlt
      obtain ⟨hd0, hp⟩ := dropBy_perm h
      have hd : d ∈ r.toList := hp.mem_iff.2 (by simp)
      rw [if_neg hlt, PTree.toList_node, alterBy_met hur h,
        writeBy_eq_self (l := l.toList) fun x hx hx0 => hlr x hx d (by simp [hd]) hx0 hd0]
      rw [writeBy, writeBy, List.map_cons, if_neg h0]

/-- The same, for a search that finds what the probe does. -/
theorem toList_alterBy (g : α → α) {t : PTree τ α} (hu : AtMostOne ck t.toList)
    (hm : meetBy ck t = findBy ck t.toList) : (alterBy ck g t).toList = writeBy ck g t.toList := by
  cases h : meetBy ck t with
  | none => rw [alterBy_none h, writeBy_eq_self (findBy_eq_none.1 (hm.symm.trans h))]
  | some d => exact alterBy_met hu h

end Meet

end BeehiveIm.Lib
