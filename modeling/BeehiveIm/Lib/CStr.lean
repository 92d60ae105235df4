/-
C strings: the bytes in front of the NUL. What `snprintf` leaves of one in a field, and
how `strcmp` orders them.
-/
import BeehiveIm.Lib.Blocks
import BeehiveIm.Lib.Probe
import Mathlib.Data.List.TakeWhile

namespace BeehiveIm.Lib

/-- A C string, without the NUL at its end. -/
abbrev CStr := { s : List Byte // 0#8 ∉ s }

/-- The string that begins where the bytes do. -/
def cString (mem : List Byte) : CStr := ⟨mem.takeWhile (· ≠ 0#8), fun h => by simpa using List.mem_takeWhile_imp h⟩

/-- `snprintf(field, n, "%s", s)` -/
def snprintf (n : Nat) (s : CStr) : CStr := ⟨s.val.take (n - 1), fun h => s.prop (List.mem_of_mem_take h)⟩

theorem cString_val (s : CStr) : cString s.val = s := by
  refine Subtype.ext (List.takeWhile_eq_self_iff.mpr fun b hb => ?_)
  rw [decide_eq_true_eq]
  rintro rfl
  exact s.prop hb

theorem snprintf_of_lt {n : Nat} {s : CStr} (h : s.val.length < n) : snprintf n s = s :=
  Subtype.ext (List.take_of_length_le (by omega))

theorem length_snprintf_lt {n : Nat} (hn : 0 < n) (s : CStr) : (snprintf n s).val.length < n :=
  lt_of_le_of_lt (List.length_take_le _ _) (Nat.sub_lt hn Nat.one_pos)

theorem snprintf_snprintf (n : Nat) (s : CStr) : snprintf n (snprintf n s) = snprintf n s := by
  rw [Subtype.ext_iff]
  exact List.take_take.trans (by rw [Nat.min_self]; rfl)

/-- `strcmp` -/
def strcmp : List Byte → List Byte → Int
  | [], [] => 0
  | [], b :: _ => -b.toNat
  | a :: _, [] => a.toNat
  | a :: s, b :: t => if a = b then strcmp s t else a.toNat - b.toNat

variable {s t u : List Byte} {n : Nat}

theorem toNat_pos_of_ne {a : Byte} (h : a ≠ 0#8) : 0 < a.toNat :=
  Nat.pos_of_ne_zero fun h0 => h (BitVec.eq_of_toNat_eq h0)

theorem strcmp_self (s : List Byte) : strcmp s s = 0 := by
  induction s with
  | nil => rfl
  | cons a s ih => simpa [strcmp] using ih

theorem strcmp_neg : ∀ s t : List Byte, strcmp t s = -strcmp s t
  | [], [] => rfl
  | [], b :: t => by simp [strcmp]
  | a :: s, [] => by simp [strcmp]
  | a :: s, b :: t => by
    unfold strcmp
    by_cases hab : a = b
    · rw [if_pos hab, if_pos hab.symm, strcmp_neg s t]
    · rw [if_neg hab, if_neg (Ne.symm hab)]
      omega

theorem eq_of_strcmp : ∀ {s t : List Byte}, 0#8 ∉ s → 0#8 ∉ t → strcmp s t = 0 → s = t
  | [], [], _, _, _ => rfl
  | [], b :: t, _, ht, h => by
    have := toNat_pos_of_ne (a := b) fun h0 => ht (h0 ▸ List.mem_cons_self)
    simp only [strcmp] at h
    omega
  | a :: s, [], hs, _, h => by
    have := toNat_pos_of_ne (a := a) fun h0 => hs (h0 ▸ List.mem_cons_self)
    simp only [strcmp] at h
    omega
  | a :: s, b :: t, hs, ht, h => by
    unfold strcmp at h
    split at h
    · rename_i hab
      rw [hab, eq_of_strcmp (fun h => hs (List.mem_cons_of_mem _ h)) (fun h => ht (List.mem_cons_of_mem _ h)) h]
    · rename_i hab
      exact absurd (BitVec.eq_of_toNat_eq (by omega)) hab

theorem strcmp_eq_zero {s t : CStr} : strcmp s t = 0 ↔ s = t := by
  constructor
  · exact fun h => Subtype.ext (eq_of_strcmp s.prop t.prop h)
  · rintro rfl
    exact strcmp_self s

/-- Without a NUL inside, the comparison is transitive. -/
theorem strcmp_trans : ∀ {s t u : List Byte}, 0#8 ∉ s → 0#8 ∉ t → 0#8 ∉ u →
    strcmp s t ≤ 0 → strcmp t u ≤ 0 → strcmp s u ≤ 0
  | [], _, [], _, _, _, _, _ => le_rfl
  | [], _, c :: u, _, _, _, _, _ => by simp [strcmp]
  | a :: s, [], u, hs, _, _, hst, _ => by
    have := toNat_pos_of_ne (a := a) fun h0 => hs (h0 ▸ List.mem_cons_self)
    simp only [strcmp] at hst
    omega
  | a :: s, b :: t, [], _, ht, _, _, htu => by
    have := toNat_pos_of_ne (a := b) fun h0 => ht (h0 ▸ List.mem_cons_self)
    simp only [strcmp] at htu
    omega
  | a :: s, b :: t, c :: u, hs, ht, hu, hst, htu => by
    unfold strcmp at hst htu ⊢
    by_cases hab : a = b
    · subst hab
      rw [if_pos rfl] at hst
      split at htu
      · rename_i hac
        rw [if_pos hac]
        exact strcmp_trans (fun h => hs (List.mem_cons_of_mem _ h)) (fun h => ht (List.mem_cons_of_mem _ h))
          (fun h => hu (List.mem_cons_of_mem _ h)) hst htu
      · rename_i hac
        rw [if_neg hac]
        exact htu
    · rw [if_neg hab] at hst
      have hne : a.toNat ≠ b.toNat := fun h => hab (BitVec.eq_of_toNat_eq h)
      have hbc : b.toNat ≤ c.toNat := by
        split at htu
        · rename_i hbc
          rw [hbc]
        · omega
      rw [if_neg fun hac => hne (by rw [hac] at hst ⊢; omega)]
      omega

theorem cmpOn_strcmp : CmpOn (fun s t : CStr => strcmp s t) Set.univ where
  symm s _ t _ := by rw [strcmp_neg s.val t.val]; omega
  trans s _ t _ u _ := strcmp_trans s.prop t.prop u.prop

end BeehiveIm.Lib
