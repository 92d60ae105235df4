/-
Keys of one kind, each with a value.
-/
import BeehiveIm.Lib.ZSet
import Mathlib.Data.Finset.Basic
import Mathlib.Logic.Function.Basic

namespace BeehiveIm.Lib

variable {κ β : Type} [DecidableEq κ] {f : κ → β} {key k : κ} {g : β → β}

/-- The value of one key changed. -/
def put (f : κ → β) (key : κ) (g : β → β) : κ → β := Function.update f key (g (f key))

@[simp] theorem put_apply (f : κ → β) (key k : κ) (g : β → β) : put f key g k = if k = key then g (f k) else f k := by
  rw [put, Function.update_apply]
  split
  · rename_i h
    rw [h]
  · rfl

theorem put_self (f : κ → β) (key : κ) (g : β → β) : put f key g key = g (f key) := Function.update_self ..

theorem put_cases (P : β → Prop) (h : P (put f key g k)) : P (f k) ∨ key = k ∧ P (g (f k)) := by
  rw [put_apply] at h
  split at h
  · rename_i hk
    exact .inr ⟨hk.symm, h⟩
  · exact .inl h

theorem put_eq_self : put f key g = f ↔ g (f key) = f key := by rw [put, Function.update_eq_self_iff]

/-! ## Sets -/

section

variable {α : Type} [DecidableEq α] {f f' : κ → Finset α} {a : α}

/-- `SREM` changes nothing where the member is not there. -/
theorem put_erase_iff (h : f' = put f key fun u => u.erase a) : f' = f ↔ a ∉ f key := by
  rw [h, put_eq_self, Finset.erase_eq_self]

/-- `SADD` changes nothing where the member is there. -/
theorem put_insert_iff (h : f' = put f key (insert a)) : f' = f ↔ a ∈ f key := by
  rw [h, put_eq_self, Finset.insert_eq_self]

end

/-! ## Sorted sets -/

section

variable {α : Type} {f : κ → ZSet α} {a x : α}

theorem mem_put_add [DecidableEq α] [Text α] {score : Int} :
    x ∈ put f key (fun z => z.add score a) k ↔ x ∈ f k ∨ x = a ∧ k = key := by
  rw [put_apply]
  split
  · rename_i hk
    simp [hk, or_comm]
  · rename_i hk
    simp [hk]

theorem mem_put_rem [DecidableEq α] : x ∈ put f key (fun z => z.rem a) k ↔ x ∈ f k ∧ ¬(x = a ∧ k = key) := by
  rw [put_apply]
  split
  · rename_i hk
    simp [hk]
  · rename_i hk
    simp [hk]

/-- `ZREM` changes nothing where the member is not there. -/
theorem put_rem_iff [DecidableEq α] {f' : κ → ZSet α} (h : f' = put f key fun z => z.rem a) : f' = f ↔ a ∉ f key := by
  rw [h, put_eq_self]
  constructor
  · intro hz ha
    rw [← hz] at ha
    exact ZSet.notMem_rem _ a ha
  · intro ha
    have hlist : ((f key).rem a).list = (f key).list := List.filter_eq_self.2 fun e he => by
      simp only [decide_eq_true_eq]
      rintro rfl
      exact ha (List.mem_map_of_mem he)
    cases hz : f key
    simpa [hz, ZSet.rem] using hlist

theorem mem_put_empty : x ∈ put f key (fun _ => ∅) k ↔ x ∈ f k ∧ k ≠ key := by
  rw [put_apply]
  split
  · rename_i hk
    simp [hk]
  · rename_i hk
    simp [hk]

end

end BeehiveIm.Lib
