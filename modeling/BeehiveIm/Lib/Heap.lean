/-
Heaps kept in an array, for any way `par` to number the parents that never goes up; a
root is its own parent. A hole is a place whose value has been taken out, for a value `x`
that is still to be put in.
-/
import Mathlib.Order.Lattice
import Mathlib.Logic.Function.Basic

namespace BeehiveIm.Lib

variable {κ : Type} [LinearOrder κ] {par : Nat → Nat} {key : Nat → κ} {n i m : Nat} {x : κ}

/-- No value among the first `n` is below its parent's. -/
def Ordered (par : Nat → Nat) (key : Nat → κ) (n : Nat) : Prop :=
  ∀ j < n, par j ≠ j → key (par j) ≤ key j

/-- The pairs that do not touch the hole at `i` are in order, and what is under the hole and what is
to be put in are not below the hole's parent. -/
structure Hole (par : Nat → Nat) (key : Nat → κ) (n i : Nat) (x : κ) : Prop where
  rest : ∀ j < n, par j ≠ j → j ≠ i → par j ≠ i → key (par j) ≤ key j
  grand : par i ≠ i → ∀ j < n, j ≠ i → par j = i → key (par i) ≤ key j
  above : par i ≠ i → key (par i) ≤ x

/-- A value is taken out of a heap. -/
theorem Ordered.hole (h : Ordered par key n) (hi : i < n) (hx : par i ≠ i → key (par i) ≤ x) : Hole par key n i x where
  rest := fun j hj hr _ _ => h j hj hr
  grand := fun hr j hj hne hji => by
    have hij : key i ≤ key j := hji ▸ h j hj (by rw [hji]; exact hne.symm)
    exact (h i hi hr).trans hij
  above := hx

theorem Ordered.mono (h : Ordered par key n) (hm : m ≤ n) : Ordered par key m :=
  fun j hj hr => h j (Nat.lt_of_lt_of_le hj hm) hr

/-- The value goes in where nothing under the hole is below it. -/
theorem Hole.fill (h : Hole par key n i x) (hx : ∀ j < n, j ≠ i → par j = i → x ≤ key j) :
    Ordered par (Function.update key i x) n := by
  intro j hj hr
  by_cases hji : j = i
  · subst hji
    rw [Function.update_self, Function.update_of_ne hr]
    exact h.above hr
  rw [Function.update_of_ne hji]
  by_cases hpi : par j = i
  · rw [hpi, Function.update_self]
    exact hx j hj hji hpi
  · rw [Function.update_of_ne hpi]
    exact h.rest j hj hr hji hpi

/-- The lowest value under the hole, which is not above what is to be put in, goes up. -/
theorem Hole.down (hpar : ∀ j, par j ≤ j) (h : Hole par key n i x) (hm : m < n) (hmi : m ≠ i) (hpm : par m = i)
    (hmin : ∀ j < n, j ≠ i → par j = i → key m ≤ key j) (hx : key m ≤ x) :
    Hole par (Function.update key i (key m)) n m x where
  rest := by
    intro j hj hr hjm hpj
    by_cases hji : j = i
    · subst hji
      rw [Function.update_self, Function.update_of_ne hr]
      exact h.grand hr m hm hmi hpm
    rw [Function.update_of_ne hji]
    by_cases hpi : par j = i
    · rw [hpi, Function.update_self]
      exact hmin j hj hji hpi
    · rw [Function.update_of_ne hpi]
      exact h.rest j hj hr hji hpi
  grand := by
    intro _ j hj hjm hpj
    have hji : j ≠ i := by
      rintro rfl
      have h1 : m ≤ j := hpj ▸ hpar j
      have h2 : j ≤ m := hpm ▸ hpar m
      exact hjm (Nat.le_antisymm h2 h1)
    rw [hpm, Function.update_self, Function.update_of_ne hji, ← hpj]
    exact h.rest j hj (by rw [hpj]; exact hjm.symm) hji (by rw [hpj]; exact hmi)
  above := by
    intro _
    rw [hpm, Function.update_self]
    exact hx

/-- The root of all is lowest. -/
theorem Ordered.root_le (h : Ordered par key n) {r : Nat} (hr : ∀ j < n, j ≠ r → par j < j) :
    ∀ j < n, key r ≤ key j := by
  intro j
  induction j using Nat.strongRecOn with
  | ind j ih =>
    intro hj
    by_cases hjr : j = r
    · rw [hjr]
    · have hlt := hr j hj hjr
      exact (ih (par j) hlt (Nat.lt_trans hlt hj)).trans (h j hj (Nat.ne_of_lt hlt))

end BeehiveIm.Lib
