/-
The Gregorian calendar from 1970 on: leap years, the lengths of years and months, and the date of a
day counted from the first of January 1970. Months count from 0, days of a month from 1.
-/
import Mathlib.Algebra.BigOperators.Intervals
import Mathlib.Tactic

namespace BeehiveIm.Lib.Gregorian

/-- Every fourth year, but of the full centuries only every fourth. -/
def Leap (y : Nat) : Prop := 4 ∣ y ∧ (100 ∣ y → 400 ∣ y)

instance (y : Nat) : Decidable (Leap y) := inferInstanceAs (Decidable (_ ∧ (_ → _)))

def yearLen (y : Nat) : Nat := if Leap y then 366 else 365

def monthLens (y : Nat) : List Nat := [31, if Leap y then 29 else 28, 31, 30, 31, 30, 31, 31, 30, 31, 30, 31]

theorem sum_monthLens (y : Nat) : (monthLens y).sum = yearLen y := by
  unfold monthLens yearLen
  split <;> rfl

/-- The days from the first of January 1970 to that of `y`. -/
def yearStart (y : Nat) : Nat := ∑ i ∈ Finset.Ico 1970 y, yearLen i

@[simp] theorem yearStart_epoch : yearStart 1970 = 0 := by simp [yearStart]

theorem yearStart_succ {y : Nat} (h : 1970 ≤ y) : yearStart (y + 1) = yearStart y + yearLen y :=
  Finset.sum_Ico_succ_top h _

theorem yearStart_mono {y z : Nat} (h : y ≤ z) : yearStart y ≤ yearStart z :=
  Finset.sum_le_sum_of_subset (Finset.Ico_subset_Ico_right h)

/-- The days of the year before the month `m`. -/
def monthStart (y m : Nat) : Nat := ((monthLens y).take m).sum

/-- Day `n` is day `d` of month `m` in year `y`. -/
structure IsDate (n y m d : Nat) : Prop where
  epoch : 1970 ≤ y
  month : m < 12
  pos : 1 ≤ d
  le : d ≤ (monthLens y)[m]!
  eq : yearStart y + monthStart y m + d = n + 1

theorem monthStart_succ {y m : Nat} (h : m < 12) : monthStart y (m + 1) = monthStart y m + (monthLens y)[m]! := by
  have hlen : m < (monthLens y).length := h
  rw [monthStart, monthStart, List.take_add_one, List.sum_append, List.getElem?_eq_getElem hlen,
    getElem!_pos _ m hlen]
  simp

theorem monthStart_mono (y : Nat) {m m' : Nat} (h : m ≤ m') : monthStart y m ≤ monthStart y m' := by
  obtain ⟨k, rfl⟩ := Nat.exists_eq_add_of_le h
  rw [monthStart, monthStart, List.take_add, List.sum_append]
  exact Nat.le_add_right _ _

theorem monthStart_end (y : Nat) : monthStart y 12 = yearLen y := by
  rw [← sum_monthLens]
  rfl

section Date

variable {n y z m m' d d' : Nat}

/-- A date lies in its year. -/
theorem IsDate.year (h : IsDate n y m d) : yearStart y ≤ n ∧ n < yearStart (y + 1) := by
  have hend := monthStart_mono y (show m + 1 ≤ 12 from h.month)
  rw [monthStart_succ h.month, monthStart_end] at hend
  have := h.pos
  have := h.le
  have := h.eq
  rw [yearStart_succ h.epoch]
  omega

/-- A day has one date at most. -/
theorem IsDate.unique (h : IsDate n y m d) (h' : IsDate n z m' d') : y = z ∧ m = m' ∧ d = d' := by
  have hy := h.year
  have hz := h'.year
  obtain rfl : y = z := by
    by_contra hne
    rcases Nat.lt_or_gt_of_ne hne with hlt | hlt
    · have := yearStart_mono (show y + 1 ≤ z from hlt)
      omega
    · have := yearStart_mono (show z + 1 ≤ y from hlt)
      omega
  have := h.eq
  have := h'.eq
  have := h.pos
  have := h'.pos
  have := h.le
  have := h'.le
  obtain rfl : m = m' := by
    by_contra hne
    rcases Nat.lt_or_gt_of_ne hne with hlt | hlt
    · have := monthStart_mono y (show m + 1 ≤ m' from hlt)
      rw [monthStart_succ h.month] at this
      omega
    · have := monthStart_mono y (show m' + 1 ≤ m from hlt)
      rw [monthStart_succ h'.month] at this
      omega
  exact ⟨rfl, rfl, by omega⟩

end Date

/-- Up to 2099 every fourth year is a leap year, as 2000 is one. -/
theorem leap_iff {y : Nat} (h : 1970 ≤ y) (h' : y < 2100) : Leap y ↔ 4 ∣ y := by
  unfold Leap
  omega

theorem yearLen_eq {y : Nat} (h : 1970 ≤ y) (h' : y < 2100) : yearLen y = if 4 ∣ y then 366 else 365 := by
  simp only [yearLen, leap_iff h h']

theorem yearStart_eq : ∀ {k : Nat}, k ≤ 130 → yearStart (1970 + k) = 365 * k + (k + 1) / 4
  | 0, _ => by simp
  | k + 1, h => by
    have ih := yearStart_eq (show k ≤ 130 by omega)
    rw [← Nat.add_assoc, yearStart_succ (by omega), ih, yearLen_eq (by omega) (by omega)]
    split <;> omega

end BeehiveIm.Lib.Gregorian
