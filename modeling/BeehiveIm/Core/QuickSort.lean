/-
Quick sort (`quick_sort.c`). The elements are an array that the callbacks compare and exchange by
their indexes; an index outside the array is a fault (`none`), and so are more rounds than a loop
may make. The pivot moves with the exchanges: it is at the lower index in front of the first inner
loop, and at the upper one in front of the second.
-/
import Mathlib.Data.List.Pairwise

namespace BeehiveIm.Core.QuickSort

variable {α : Type}

/-- The element at an index -/
def cell (a : Array α) (i : Int) : Option α := if i < 0 then none else a[i.toNat]?

/-- `sort->cmp` -/
def cmpAt (cmp : α → α → Int) (a : Array α) (i j : Int) : Option Int := do
  let x ← cell a i
  let y ← cell a j
  return cmp x y

/-- `sort->swap` -/
def swapAt (a : Array α) (i j : Int) : Option (Array α) :=
  if i < 0 ∨ a.size ≤ i ∨ j < 0 ∨ a.size ≤ j then none else some (a.swapIfInBounds i.toNat j.toNat)

variable (cmp : α → α → Int)

/-- The first inner loop of `_quick_sort_once` -/
def scanDown : Nat → Array α → Int → Int → Option (Array α × Int × Int)
  | 0, _, _, _ => none
  | fuel + 1, a, i, j =>
    if i < j then do
      let ret ← cmpAt cmp a i j
      if ret > 0 then
        let a ← swapAt a i j
        return (a, i + 1, j)
      else scanDown fuel a i (j - 1)
    else some (a, i, j)

/-- The second inner loop of `_quick_sort_once` -/
def scanUp : Nat → Array α → Int → Int → Option (Array α × Int × Int)
  | 0, _, _, _ => none
  | fuel + 1, a, i, j =>
    if i < j then do
      let ret ← cmpAt cmp a i j
      if ret > 0 then
        let a ← swapAt a i j
        return (a, i, j - 1)
      else scanUp fuel a (i + 1) j
    else some (a, i, j)

/-- `_quick_sort_once` -/
def quickSortOnce : Nat → Array α → Int → Int → Option (Array α × Int)
  | 0, _, _, _ => none
  | fuel + 1, a, i, j =>
    if i < j then do
      let r ← scanDown cmp a.size a i j
      let r ← scanUp cmp r.1.size r.1 r.2.1 r.2.2
      quickSortOnce fuel r.1 r.2.1 r.2.2
    else some (a, i)

/-- `_quick_sort` -/
def quickSortRange : Nat → Array α → Int → Int → Option (Array α)
  | 0, _, _, _ => none
  | fuel + 1, a, low, high =>
    if low < high then do
      let r ← quickSortOnce cmp a.size a low high
      let a ← quickSortRange fuel r.1 low (r.2 - 1)
      quickSortRange fuel a (r.2 + 1) high
    else some a

/-- `quick_sort` -/
def quickSort (a : Array α) : Option (Array α) :=
  if a.size ≤ 0 then some a else quickSortRange cmp a.size a 0 (a.size - 1)

/-- The callback compares by a total preorder. -/
structure Orders : Prop where
  total : ∀ x y, cmp x y ≤ 0 ∨ cmp y x ≤ 0
  trans : ∀ x y z, cmp x y ≤ 0 → cmp y z ≤ 0 → cmp x z ≤ 0

variable {cmp} {a a' a'' : Array α} {low high low' high' i j k : Int} {p x y : α} {fuel : Nat}

/-! ## Exchanges -/

theorem cell_of_mem (hi : 0 ≤ i) (hsize : i < a.size) : ∃ x, cell a i = some x := by
  have hlt : i.toNat < a.size := by omega
  unfold cell
  rw [if_neg (by omega), Array.getElem?_eq_getElem hlt]
  exact ⟨_, rfl⟩

/-- What exchanges between two indexes leave as it is -/
structure Within (low high : Int) (a a' : Array α) : Prop where
  perm : a'.Perm a
  outside : ∀ k, k < low ∨ high < k → cell a' k = cell a k
  inside : ∀ k, low ≤ k → k ≤ high → ∃ k', low ≤ k' ∧ k' ≤ high ∧ cell a' k = cell a k'

namespace Within

theorem refl (low high : Int) (a : Array α) : Within low high a a :=
  ⟨.rfl, fun _ _ => rfl, fun k hlow hhigh => ⟨k, hlow, hhigh, rfl⟩⟩

theorem trans (h : Within low high a a') (h' : Within low high a' a'') : Within low high a a'' := by
  refine ⟨h'.perm.trans h.perm, fun k hk => (h'.outside k hk).trans (h.outside k hk), fun k hlow hhigh => ?_⟩
  obtain ⟨k', hlow', hhigh', hk'⟩ := h'.inside k hlow hhigh
  obtain ⟨k'', hlow'', hhigh'', hk''⟩ := h.inside k' hlow' hhigh'
  exact ⟨k'', hlow'', hhigh'', hk'.trans hk''⟩

/-- Exchanges in a part are exchanges in the whole. -/
theorem mono (h : Within low high a a') (hlow : low' ≤ low) (hhigh : high ≤ high') : Within low' high' a a' := by
  refine ⟨h.perm, fun k hk => h.outside k (by omega), fun k hk hk' => ?_⟩
  by_cases hin : low ≤ k ∧ k ≤ high
  · obtain ⟨k', hlow', hhigh', hcell⟩ := h.inside k hin.1 hin.2
    exact ⟨k', by omega, by omega, hcell⟩
  · exact ⟨k, hk, hk', h.outside k (by omega)⟩

theorem size_eq (h : Within low high a a') : a'.size = a.size := h.perm.size_eq

end Within

theorem cell_swap (hi : 0 ≤ i) (hi' : i < a.size) (hj : 0 ≤ j) (hj' : j < a.size) (k : Int) :
    cell (a.swapIfInBounds i.toNat j.toNat) k = if k = i then cell a j else if k = j then cell a i else cell a k := by
  have hi₁ : i.toNat < a.size := by omega
  have hj₁ : j.toNat < a.size := by omega
  have hget := Array.getElem?_swap hi₁ hj₁ (k := k.toNat)
  unfold cell Array.swapIfInBounds
  rw [dif_pos hi₁, dif_pos hj₁, hget, if_neg (by omega : ¬i < 0), if_neg (by omega : ¬j < 0),
    Array.getElem?_eq_getElem hi₁, Array.getElem?_eq_getElem hj₁]
  by_cases hk : k < 0
  · rw [if_pos hk, if_neg (by omega), if_neg (by omega), if_pos hk]
  rw [if_neg hk, if_neg hk]
  by_cases hkj : k = j
  · subst hkj
    rw [if_pos rfl, if_pos rfl]
    split
    · rename_i hki
      subst hki
      rfl
    · rfl
  by_cases hki : k = i
  · subst hki
    rw [if_neg (by omega), if_pos rfl, if_pos rfl]
  · rw [if_neg (by omega), if_neg (by omega), if_neg hki, if_neg hkj]

/-- An exchange goes through inside the array. -/
theorem swap_spec (hlow : 0 ≤ low) (hhigh : high < a.size) (hi : low ≤ i) (hi' : i ≤ high) (hj : low ≤ j)
    (hj' : j ≤ high) : ∃ a', swapAt a i j = some a' ∧ Within low high a a' ∧
      ∀ k, cell a' k = if k = i then cell a j else if k = j then cell a i else cell a k := by
  have hcell := fun k => cell_swap (a := a) (i := i) (j := j) (by omega) (by omega) (by omega) (by omega) k
  refine ⟨_, if_neg (by omega), ⟨?_, fun k hk => ?_, fun k hk hk' => ?_⟩, hcell⟩
  · unfold Array.swapIfInBounds
    rw [dif_pos (by omega), dif_pos (by omega)]
    exact Array.swap_perm _ _
  · rw [hcell, if_neg (by omega), if_neg (by omega)]
  · rw [hcell]
    split
    · exact ⟨j, hj, hj', rfl⟩
    split
    · exact ⟨i, hi, hi', rfl⟩
    · exact ⟨k, hk, hk', rfl⟩

/-! ## One turn -/

/-- What is left of `i` is not above the pivot `p`, and what is right of `j` not below it. -/
structure Split (cmp : α → α → Int) (p : α) (low high i j : Int) (a : Array α) : Prop where
  low_le : low ≤ i
  le : i ≤ j
  le_high : j ≤ high
  left : ∀ k x, low ≤ k → k < i → cell a k = some x → cmp x p ≤ 0
  right : ∀ k x, j < k → k ≤ high → cell a k = some x → cmp p x ≤ 0

theorem cmpAt_eq (hx : cell a i = some x) (hy : cell a j = some y) : cmpAt cmp a i j = some (cmp x y) := by
  unfold cmpAt
  rw [hx, hy]
  rfl

theorem Orders.of_pos (h : Orders cmp) (hxy : cmp x y > 0) : cmp y x ≤ 0 :=
  (h.total y x).resolve_right (by omega)

/-- The pivot is at `i`; it moves to `j` with the first element from the right that is below it. -/
theorem scanDown_spec (h : Orders cmp) (hlow : 0 ≤ low) : ∀ (fuel : Nat) {a : Array α} {j : Int}, high < a.size →
    Split cmp p low high i j a → cell a i = some p → j - i < fuel →
    ∃ a' i' j', scanDown cmp fuel a i j = some (a', i', j') ∧ Within low high a a' ∧ Split cmp p low high i' j' a' ∧
      cell a' j' = some p ∧ j' - i' ≤ j - i ∧ (i < j → j' - i' < j - i)
  | 0, a, j, _, hsplit, _, hfuel => by
    have := hsplit.le
    omega
  | fuel + 1, a, j, hhigh, hsplit, hp, hfuel => by
    have hlow' := hsplit.low_le
    have hhigh' := hsplit.le_high
    unfold scanDown
    by_cases hij : i < j
    · obtain ⟨y, hy⟩ := cell_of_mem (a := a) (i := j) (by omega) (by omega)
      rw [if_pos hij, cmpAt_eq hp hy]
      show ∃ a' i' j', (if cmp p y > 0 then _ else _) = _ ∧ _
      by_cases hpos : cmp p y > 0
      · obtain ⟨a', hswap, hwithin, hcell⟩ := swap_spec (i := i) (j := j) hlow hhigh (by omega) (by omega) (by omega)
          (by omega)
        rw [if_pos hpos, hswap]
        refine ⟨a', i + 1, j, rfl, hwithin, ⟨by omega, by omega, by omega, fun k x hk hk' hx => ?_,
          fun k x hk hk' hx => ?_⟩, ?_, by omega, fun _ => by omega⟩
        · rw [hcell] at hx
          by_cases hki : k = i
          · rw [if_pos hki, hy] at hx
            cases hx
            exact h.of_pos hpos
          · rw [if_neg hki, if_neg (by omega)] at hx
            exact hsplit.left k x hk (by omega) hx
        · rw [hcell, if_neg (by omega), if_neg (by omega)] at hx
          exact hsplit.right k x hk hk' hx
        · rw [hcell, if_neg (by omega), if_pos rfl, hp]
      · rw [if_neg hpos]
        have hsplit' : Split cmp p low high i (j - 1) a := by
          refine ⟨hlow', by omega, by omega, hsplit.left, fun k x hk hk' hx => ?_⟩
          by_cases hkj : k = j
          · rw [hkj, hy] at hx
            cases hx
            omega
          · exact hsplit.right k x (by omega) hk' hx
        obtain ⟨a', i', j', hrun, hwithin, hsplit'', hp', hless⟩ := scanDown_spec h hlow fuel hhigh hsplit' hp
          (by omega)
        exact ⟨a', i', j', hrun, hwithin, hsplit'', hp', by omega, fun _ => by omega⟩
    · rw [if_neg hij]
      have := hsplit.le
      obtain rfl : i = j := by omega
      exact ⟨a, i, i, rfl, .refl _ _ _, hsplit, hp, by omega, fun h => absurd h (by omega)⟩

/-- The pivot is at `j`; it moves back to `i` with the first element from the left that is above
it. -/
theorem scanUp_spec (h : Orders cmp) (hlow : 0 ≤ low) : ∀ (fuel : Nat) {a : Array α} {i : Int}, high < a.size →
    Split cmp p low high i j a → cell a j = some p → j - i < fuel →
    ∃ a' i' j', scanUp cmp fuel a i j = some (a', i', j') ∧ Within low high a a' ∧ Split cmp p low high i' j' a' ∧
      cell a' i' = some p ∧ j' - i' ≤ j - i
  | 0, a, i, _, hsplit, _, hfuel => by
    have := hsplit.le
    omega
  | fuel + 1, a, i, hhigh, hsplit, hp, hfuel => by
    have hlow' := hsplit.low_le
    have hhigh' := hsplit.le_high
    unfold scanUp
    by_cases hij : i < j
    · obtain ⟨x, hx⟩ := cell_of_mem (a := a) (i := i) (by omega) (by omega)
      rw [if_pos hij, cmpAt_eq hx hp]
      show ∃ a' i' j', (if cmp x p > 0 then _ else _) = _ ∧ _
      by_cases hpos : cmp x p > 0
      · obtain ⟨a', hswap, hwithin, hcell⟩ := swap_spec (i := i) (j := j) hlow hhigh (by omega) (by omega) (by omega)
          (by omega)
        rw [if_pos hpos, hswap]
        refine ⟨a', i, j - 1, rfl, hwithin, ⟨by omega, by omega, by omega, fun k y hk hk' hy => ?_,
          fun k y hk hk' hy => ?_⟩, ?_, by omega⟩
        · rw [hcell, if_neg (by omega), if_neg (by omega)] at hy
          exact hsplit.left k y hk hk' hy
        · rw [hcell, if_neg (by omega)] at hy
          by_cases hkj : k = j
          · rw [if_pos hkj, hx] at hy
            cases hy
            exact h.of_pos hpos
          · rw [if_neg hkj] at hy
            exact hsplit.right k y (by omega) hk' hy
        · rw [hcell, if_pos rfl, hp]
      · rw [if_neg hpos]
        have hsplit' : Split cmp p low high (i + 1) j a := by
          refine ⟨by omega, by omega, hhigh', fun k y hk hk' hy => ?_, hsplit.right⟩
          by_cases hki : k = i
          · rw [hki, hx] at hy
            cases hy
            omega
          · exact hsplit.left k y hk (by omega) hy
        obtain ⟨a', i', j', hrun, hwithin, hsplit'', hp', hless⟩ := scanUp_spec h hlow fuel hhigh hsplit' hp (by omega)
        exact ⟨a', i', j', hrun, hwithin, hsplit'', hp', by omega⟩
    · rw [if_neg hij]
      have := hsplit.le
      obtain rfl : i = j := by omega
      exact ⟨a, i, i, rfl, .refl _ _ _, hsplit, hp, by omega⟩

/-- The loop brings the pivot to where the two indexes meet. -/
theorem quickSortOnce_spec (h : Orders cmp) (hlow : 0 ≤ low) : ∀ (fuel : Nat) {a : Array α} {i j : Int},
    high < a.size → Split cmp p low high i j a → cell a i = some p → j - i < fuel →
    ∃ a' m, quickSortOnce cmp fuel a i j = some (a', m) ∧ Within low high a a' ∧ Split cmp p low high m m a' ∧
      cell a' m = some p
  | 0, a, i, j, _, hsplit, _, hfuel => by
    have := hsplit.le
    omega
  | fuel + 1, a, i, j, hhigh, hsplit, hp, hfuel => by
    have hlow' := hsplit.low_le
    have hhigh' := hsplit.le_high
    unfold quickSortOnce
    by_cases hij : i < j
    · rw [if_pos hij]
      obtain ⟨a₁, i₁, j₁, hrun₁, hwithin₁, hsplit₁, hp₁, -, hless₁⟩ := scanDown_spec h hlow a.size hhigh hsplit hp (by omega)
      have hsize₁ := hwithin₁.size_eq
      have hlow₁ := hsplit₁.low_le
      have hhigh₁ := hsplit₁.le_high
      obtain ⟨a₂, i₂, j₂, hrun₂, hwithin₂, hsplit₂, hp₂, hless₂⟩ := scanUp_spec h hlow a₁.size (by omega) hsplit₁ hp₁
        (by omega)
      have hsize₂ := hwithin₂.size_eq
      have hless := hless₁ hij
      obtain ⟨a', m, hrun, hwithin, hsplit', hp'⟩ := quickSortOnce_spec h hlow fuel (by omega) hsplit₂ hp₂ (by omega)
      refine ⟨a', m, ?_, (hwithin₁.trans hwithin₂).trans hwithin, hsplit', hp'⟩
      rw [hrun₁]
      show (scanUp cmp a₁.size a₁ i₁ j₁ >>= _) = _
      rw [hrun₂]
      exact hrun
    · rw [if_neg hij]
      have := hsplit.le
      obtain rfl : i = j := by omega
      exact ⟨a, i, rfl, .refl _ _ _, hsplit, hp⟩

/-! ## All turns -/

/-- The elements from `low` to `high` are in order. -/
def Sorted (cmp : α → α → Int) (low high : Int) (a : Array α) : Prop :=
  ∀ k l x y, low ≤ k → k < l → l ≤ high → cell a k = some x → cell a l = some y → cmp x y ≤ 0

theorem quickSortRange_spec (h : Orders cmp) : ∀ (fuel : Nat) {a : Array α} {low high : Int}, 0 ≤ low →
    high < a.size → low ≤ high + 1 → high - low < fuel → 0 < fuel →
    ∃ a', quickSortRange cmp fuel a low high = some a' ∧ Within low high a a' ∧ Sorted cmp low high a'
  | 0, _, _, _, _, _, _, _, hpos => absurd hpos (Nat.lt_irrefl 0)
  | fuel + 1, a, low, high, hlow, hhigh, hle, hfuel, _ => by
    unfold quickSortRange
    by_cases hlt : low < high
    · rw [if_pos hlt]
      obtain ⟨p, hp⟩ := cell_of_mem (a := a) hlow (by omega)
      have hsplit : Split cmp p low high low high a :=
        ⟨by omega, by omega, by omega, fun k x hk hk' _ => absurd hk (by omega), fun k x hk hk' _ => absurd hk (by omega)⟩
      obtain ⟨a₁, m, hrun₁, hwithin₁, hsplit₁, hp₁⟩ := quickSortOnce_spec h hlow a.size hhigh hsplit hp (by omega)
      have hsize₁ := hwithin₁.size_eq
      have hm := hsplit₁.low_le
      have hm' := hsplit₁.le_high
      obtain ⟨a₂, hrun₂, hwithin₂, hsorted₂⟩ := quickSortRange_spec h fuel hlow
        (show m - 1 < a₁.size by omega) (by omega) (by omega) (by omega)
      have hsize₂ := hwithin₂.size_eq
      obtain ⟨a₃, hrun₃, hwithin₃, hsorted₃⟩ := quickSortRange_spec h fuel (show 0 ≤ m + 1 by omega)
        (show high < a₂.size by omega) (by omega) (by omega) (by omega)
      refine ⟨a₃, ?_, (hwithin₁.trans (hwithin₂.mono (by omega) (by omega))).trans (hwithin₃.mono (by omega) (by omega)), ?_⟩
      · rw [hrun₁]
        show (quickSortRange cmp fuel a₁ low (m - 1) >>= _) = _
        rw [hrun₂]
        exact hrun₃
      -- the parts keep their elements, so that those of the left one stay below the pivot and those of the right one above
      have hpivot : cell a₃ m = some p := by
        rw [hwithin₃.outside m (by omega), hwithin₂.outside m (by omega), hp₁]
      have hleft : ∀ k x, low ≤ k → k < m → cell a₃ k = some x → cmp x p ≤ 0 := fun k x hk hk' hx => by
        rw [hwithin₃.outside k (by omega)] at hx
        obtain ⟨k', hlow', hhigh', hcell⟩ := hwithin₂.inside k hk (by omega)
        exact hsplit₁.left k' x hlow' (by omega) (hcell.symm.trans hx)
      have hright : ∀ k x, m < k → k ≤ high → cell a₃ k = some x → cmp p x ≤ 0 := fun k x hk hk' hx => by
        obtain ⟨k', hlow', hhigh', hcell⟩ := hwithin₃.inside k (by omega) hk'
        rw [hcell, hwithin₂.outside k' (by omega)] at hx
        exact hsplit₁.right k' x (by omega) hhigh' hx
      intro k l x y hk hkl hl hx hy
      rcases Int.lt_trichotomy k m with hkm | rfl | hkm
      · rcases Int.lt_trichotomy l m with hlm | rfl | hlm
        · rw [hwithin₃.outside k (by omega)] at hx
          rw [hwithin₃.outside l (by omega)] at hy
          exact hsorted₂ k l x y hk hkl (by omega) hx hy
        · cases hpivot.symm.trans hy
          exact hleft k x hk hkm hx
        · exact h.trans x p y (hleft k x hk hkm hx) (hright l y hlm hl hy)
      · cases hpivot.symm.trans hx
        exact hright l y hkl hl hy
      · exact hsorted₃ k l x y (by omega) hkl hl hx hy
    · rw [if_neg hlt]
      exact ⟨a, rfl, .refl _ _ _, fun k l x y hk hkl hl _ _ => absurd hk (by omega)⟩

/-- `quick_sort` ends without an index outside the array, and leaves a permutation of the
elements that is in order. -/
theorem quickSort_sorts (h : Orders cmp) (a : Array α) :
    ∃ a', quickSort cmp a = some a' ∧ a'.Perm a ∧ a'.toList.Pairwise fun x y => cmp x y ≤ 0 := by
  unfold quickSort
  by_cases hsize : a.size ≤ 0
  · rw [if_pos hsize]
    refine ⟨a, rfl, .rfl, ?_⟩
    rw [List.eq_nil_of_length_eq_zero (show a.toList.length = 0 by rw [Array.length_toList]; omega)]
    exact List.Pairwise.nil
  · rw [if_neg hsize]
    obtain ⟨a', hrun, hwithin, hsorted⟩ := quickSortRange_spec h a.size (a := a) (Int.le_refl 0)
      (show (a.size : Int) - 1 < a.size by omega) (by omega) (by omega) (by omega)
    refine ⟨a', hrun, hwithin.perm, List.pairwise_iff_getElem.mpr fun k l hk hl hkl => ?_⟩
    have hcell : ∀ (k : Nat) (hk : k < a'.toList.length), cell a' k = some a'.toList[k] := fun k hk => by
      unfold cell
      rw [if_neg (by omega), Int.toNat_natCast, Array.getElem?_eq_getElem hk, Array.getElem_toList]
    have hlen : a'.toList.length = a.size := by rw [Array.length_toList, hwithin.size_eq]
    exact hsorted k l _ _ (by omega) (by omega) (by omega) (hcell k hk) (hcell l hl)

theorem quickSort_sorts_five : ∃ a', quickSort (fun x y : Int => x - y) #[3, 1, 2, 3, 0] = some a' ∧
    a'.Perm #[3, 1, 2, 3, 0] ∧ a'.toList.Pairwise fun x y => x - y ≤ 0 :=
  quickSort_sorts ⟨fun x y => by omega, fun x y z hxy hyz => by omega⟩ #[3, 1, 2, 3, 0]

end BeehiveIm.Core.QuickSort
