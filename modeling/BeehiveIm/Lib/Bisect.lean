/-
Searching an interval by halves. A probe finds what is looked for, or says on which side to go on;
it may say so by the side the search came from. The search succeeds just if it is led to an entry
that is found, each probe before it having pointed to that entry's side.
-/
import Mathlib.Data.Nat.Basic
import Mathlib.Tactic.Common

namespace BeehiveIm.Lib

variable {α : Type} (found : Nat → Option α) (right : Bool → Nat → Bool)

/-- The search of `lo, …, hi - 1`; `up` says whether it went to the right last. -/
def bisect (lo hi : Nat) (up : Bool) : Option α :=
  if lo < hi then
    match found ((lo + hi - 1) / 2) with
    | some a => some a
    | none =>
      if right up ((lo + hi - 1) / 2) then bisect ((lo + hi - 1) / 2 + 1) hi true
      else bisect lo ((lo + hi - 1) / 2) false
  else none
termination_by hi - lo

/-- The probes before `j` of a search that is led to `j`, each with the side it is reached from. -/
def way (j lo hi : Nat) (up : Bool) : List (Bool × Nat) :=
  if lo < hi then
    if (lo + hi - 1) / 2 < j then (up, (lo + hi - 1) / 2) :: way j ((lo + hi - 1) / 2 + 1) hi true
    else if j < (lo + hi - 1) / 2 then (up, (lo + hi - 1) / 2) :: way j lo ((lo + hi - 1) / 2) false
    else []
  else []
termination_by hi - lo

/-- Each probe before `j` finds nothing and points to `j`. -/
def LedTo (j lo hi : Nat) (up : Bool) : Prop :=
  ∀ p ∈ way j lo hi up, found p.2 = none ∧ right p.1 p.2 = decide (p.2 < j)

variable {found right} {lo hi : Nat} {up up' : Bool} {a : α}

theorem bisect_right (hlt : lo < hi) (hfound : found ((lo + hi - 1) / 2) = none)
    (hright : right up ((lo + hi - 1) / 2) = true) :
    bisect found right lo hi up = bisect found right ((lo + hi - 1) / 2 + 1) hi true := by
  rw [bisect, if_pos hlt, hfound]
  exact if_pos hright

theorem bisect_left (hlt : lo < hi) (hfound : found ((lo + hi - 1) / 2) = none)
    (hright : right up ((lo + hi - 1) / 2) = false) :
    bisect found right lo hi up = bisect found right lo ((lo + hi - 1) / 2) false := by
  rw [bisect, if_pos hlt, hfound]
  exact if_neg (by simp [hright])

theorem bisect_found (hlt : lo < hi) (hfound : found ((lo + hi - 1) / 2) = some a) :
    bisect found right lo hi up = some a := by
  rw [bisect, if_pos hlt, hfound]

theorem bisect_empty (hle : hi ≤ lo) : bisect found right lo hi up = none := by
  rw [bisect, if_neg (not_lt.2 hle)]

/-- What is found is found at a probe. -/
theorem found_of_bisect (h : bisect found right lo hi up = some a) : ∃ i, lo ≤ i ∧ i < hi ∧ found i = some a := by
  fun_induction bisect found right lo hi up with
  | case1 lo hi up hlt a' hfound =>
    obtain rfl := Option.some.inj h
    exact ⟨_, by omega, by omega, hfound⟩
  | case2 lo hi up hlt hfound hright ih =>
    obtain ⟨i, hlo, hhi, hi'⟩ := ih h
    exact ⟨i, by omega, hhi, hi'⟩
  | case3 lo hi up hlt hfound hright ih =>
    obtain ⟨i, hlo, hhi, hi'⟩ := ih h
    exact ⟨i, hlo, by omega, hi'⟩
  | case4 => cases h

variable {j : Nat}

theorem ledTo_of_gt (hj : (lo + hi - 1) / 2 < j) (hhi : j < hi) : LedTo found right j lo hi up ↔
    found ((lo + hi - 1) / 2) = none ∧ right up ((lo + hi - 1) / 2) = true ∧
    LedTo found right j ((lo + hi - 1) / 2 + 1) hi true := by
  unfold LedTo
  rw [way, if_pos (by omega), if_pos hj, List.forall_mem_cons, and_assoc, decide_eq_true hj]

theorem ledTo_of_lt (hlo : lo ≤ j) (hj : j < (lo + hi - 1) / 2) : LedTo found right j lo hi up ↔
    found ((lo + hi - 1) / 2) = none ∧ right up ((lo + hi - 1) / 2) = false ∧
    LedTo found right j lo ((lo + hi - 1) / 2) false := by
  unfold LedTo
  rw [way, if_pos (by omega), if_neg (by omega), if_pos hj, List.forall_mem_cons, and_assoc, decide_eq_false (by omega)]

theorem bisect_isSome_iff : (bisect found right lo hi up).isSome ↔
    ∃ j, lo ≤ j ∧ j < hi ∧ (found j).isSome ∧ LedTo found right j lo hi up := by
  fun_induction bisect found right lo hi up with
  | case1 lo hi up hlt a' hfound =>
    refine iff_of_true rfl ⟨(lo + hi - 1) / 2, by omega, by omega, by rw [hfound]; rfl, ?_⟩
    unfold LedTo way
    simp [hlt]
  | case2 lo hi up hlt hfound hright ih =>
    rw [ih]
    constructor
    · rintro ⟨j, hlo, hhi, hj, hled⟩
      exact ⟨j, by omega, hhi, hj, (ledTo_of_gt (by omega) hhi).2 ⟨hfound, hright, hled⟩⟩
    · rintro ⟨j, hlo, hhi, hj, hled⟩
      rcases Nat.lt_trichotomy j ((lo + hi - 1) / 2) with hlt | rfl | hgt
      · rw [((ledTo_of_lt hlo hlt).1 hled).2.1] at hright
        cases hright
      · rw [hfound] at hj
        cases hj
      · exact ⟨j, hgt, hhi, hj, ((ledTo_of_gt hgt hhi).1 hled).2.2⟩
  | case3 lo hi up hlt hfound hright ih =>
    rw [ih]
    constructor
    · rintro ⟨j, hlo, hhi, hj, hled⟩
      exact ⟨j, hlo, by omega, hj, (ledTo_of_lt hlo hhi).2 ⟨hfound, Bool.eq_false_iff.2 hright, hled⟩⟩
    · rintro ⟨j, hlo, hhi, hj, hled⟩
      rcases Nat.lt_trichotomy j ((lo + hi - 1) / 2) with hlt | rfl | hgt
      · exact ⟨j, hlo, hlt, hj, ((ledTo_of_lt hlo hlt).1 hled).2.2⟩
      · rw [hfound] at hj
        cases hj
      · exact absurd ((ledTo_of_gt hgt hhi).1 hled).2.1 hright
  | case4 lo hi up hle =>
    refine iff_of_false nofun ?_
    rintro ⟨j, hlo, hhi, -⟩
    omega

/-- Where every probe points to the side of what is found, the search finds it. -/
theorem bisect_isSome_of_ordered (h : ∀ up i, lo ≤ i → i < hi → found i = none → right up i = decide (i < j))
    (hlo : lo ≤ j) (hhi : j < hi) (hj : (found j).isSome) : (bisect found right lo hi up).isSome := by
  fun_induction bisect found right lo hi up with
  | case1 => rfl
  | case2 lo hi up hlt hfound hright ih =>
    have hlt : (lo + hi - 1) / 2 < j := by simpa [hright] using h up _ (by omega) (by omega) hfound
    exact ih (fun up i hlo' hhi' => h up i (by omega) hhi') hlt hhi
  | case3 lo hi up hlt hfound hright ih =>
    have hle : ¬(lo + hi - 1) / 2 < j := by simpa [hright] using h up _ (by omega) (by omega) hfound
    have hne : (lo + hi - 1) / 2 ≠ j := by
      rintro rfl
      rw [hfound] at hj
      cases hj
    exact ih (fun up i hlo' hhi' => h up i hlo' (by omega)) hlo (by omega)
  | case4 => omega

/-- The first probe that points one way from either side. -/
theorem bisect_up (h : lo < hi → right up ((lo + hi - 1) / 2) = right up' ((lo + hi - 1) / 2)) :
    bisect found right lo hi up = bisect found right lo hi up' := by
  have hstep := fun up => bisect.eq_def found right lo hi up
  rw [hstep up, hstep up']
  by_cases hlt : lo < hi
  · rw [if_pos hlt, if_pos hlt, h hlt]
  · rw [if_neg hlt, if_neg hlt]

end BeehiveIm.Lib
