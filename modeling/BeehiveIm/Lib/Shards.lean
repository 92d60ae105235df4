/-
Maps cut into shards: an array of finite maps, the shard of a key being a function of the key. Under
look-up, insertion and deletion it is one map.
-/
import Mathlib.Algebra.GroupWithZero.Nat
import Mathlib.Data.List.AList
import Mathlib.Data.Fintype.BigOperators
import Mathlib.Algebra.BigOperators.Group.Finset.Basic

namespace BeehiveIm.Lib

/-! ## Finite maps -/

section
variable {κ ν : Type} [DecidableEq κ] {m : AList fun _ : κ => ν} {k : κ} {v w : ν}

theorem lookup_insert (k' : κ) : (m.insert k v).lookup k' = if k' = k then some v else m.lookup k' := by
  split
  · rename_i h
    rw [h, AList.lookup_insert]
  · rename_i h
    rw [AList.lookup_insert_ne h]

theorem lookup_erase (k' : κ) : (m.erase k).lookup k' = if k' = k then none else m.lookup k' := by
  split
  · rename_i h
    rw [h, AList.lookup_erase]
  · rename_i h
    rw [AList.lookup_erase_ne h]

theorem mem_entries : ⟨k, v⟩ ∈ m.entries ↔ m.lookup k = some v :=
  (List.mem_dlookup_iff m.nodupKeys).symm

/-- An entry that the map has comes first, for what does not depend on the order. -/
theorem entries_perm (h : m.lookup k = some w) : m.entries.Perm (⟨k, w⟩ :: (m.erase k).entries) := by
  have hk : k ∈ m.entries.keys := AList.lookup_isSome.mp (by rw [h]; rfl)
  obtain ⟨w', l₁, l₂, -, hl, herase⟩ := List.exists_of_kerase hk
  have hw : m.lookup k = some w' := mem_entries.mp (by rw [hl]; simp)
  obtain rfl : w' = w := Option.some.inj (hw.symm.trans h)
  rw [show (m.erase k).entries = l₁ ++ l₂ from herase, hl]
  exact List.perm_middle

/-- What the values of a map count for together. -/
def total (f : ν → Nat) (m : AList fun _ : κ => ν) : Nat := (m.entries.map fun e => f e.2).sum

theorem total_erase (f : ν → Nat) : total f (m.erase k) + (m.lookup k).elim 0 f = total f m := by
  cases h : m.lookup k with
  | none =>
    have hkeys : k ∉ m.entries.keys := AList.lookup_eq_none.mp h
    rw [total, show (m.erase k).entries = m.entries from List.kerase_of_notMem_keys hkeys]
    rfl
  | some w =>
    have hsum := ((entries_perm h).map fun e => f e.2).sum_eq
    rw [total, total, hsum, List.map_cons, List.sum_cons, Option.elim_some, Nat.add_comm]

theorem total_insert (f : ν → Nat) : total f (m.insert k v) + (m.lookup k).elim 0 f = total f m + f v := by
  have hsum : total f (m.insert k v) = f v + total f (m.erase k) := by
    simp only [total, AList.entries_insert, List.map_cons, List.sum_cons]
    rfl
  have := total_erase (m := m) (k := k) f
  omega

end

/-! ## The order of a traversal -/

/-- The order in which a loop visits `l`: `order`, if it is one of `l`. -/
def ranged {α : Type} [DecidableEq α] (order l : List α) : List α := if order.Perm l then order else l

theorem ranged_perm {α : Type} [DecidableEq α] (order l : List α) : (ranged order l).Perm l := by
  unfold ranged
  split
  · assumption
  · exact .refl l

/-! ## Shards -/

structure Shards {κ : Type} {n : Nat} (slot : κ → Fin n) (ν : Type) where
  shard : Fin n → AList fun _ : κ => ν
  placed : ∀ i k, k ∈ shard i → slot k = i

namespace Shards

variable {κ ν : Type} {n : Nat} {slot : κ → Fin n}

def empty (slot : κ → Fin n) (ν : Type) : Shards slot ν := ⟨fun _ => ∅, fun _ _ h => absurd h (AList.notMem_empty _)⟩

variable [DecidableEq κ] (S : Shards slot ν) (k : κ) (v : ν)

def get : Option ν := (S.shard (slot k)).lookup k

def set : Shards slot ν where
  shard := Function.update S.shard (slot k) ((S.shard (slot k)).insert k v)
  placed i k' h := by
    rcases eq_or_ne i (slot k) with rfl | hne
    · rw [Function.update_self, AList.mem_insert] at h
      rcases h with rfl | h
      · rfl
      · exact S.placed _ k' h
    · rw [Function.update_of_ne hne] at h
      exact S.placed i k' h

def del : Shards slot ν where
  shard := Function.update S.shard (slot k) ((S.shard (slot k)).erase k)
  placed i k' h := by
    rcases eq_or_ne i (slot k) with rfl | hne
    · rw [Function.update_self, AList.mem_erase] at h
      exact S.placed _ k' h.2
    · rw [Function.update_of_ne hne] at h
      exact S.placed i k' h

/-- The entries, shard by shard. -/
def toList : List (κ × ν) := (List.finRange n).flatMap fun i => (S.shard i).entries.map fun e => (e.1, e.2)

/-- What the values count for together. -/
def sum (f : ν → Nat) : Nat := ∑ i, total f (S.shard i)

variable {S k v}

@[simp] theorem get_empty : (empty slot ν).get k = none := rfl

theorem get_set (k' : κ) : (S.set k v).get k' = if k' = k then some v else S.get k' := by
  unfold get set
  rcases eq_or_ne (slot k') (slot k) with h | h
  · simp only [h, Function.update_self, lookup_insert]
  · simp only [Function.update_of_ne h]
    rw [if_neg (fun hk => h (congrArg slot hk))]

theorem get_del (k' : κ) : (S.del k).get k' = if k' = k then none else S.get k' := by
  unfold get del
  rcases eq_or_ne (slot k') (slot k) with h | h
  · simp only [h, Function.update_self, lookup_erase]
  · simp only [Function.update_of_ne h]
    rw [if_neg (fun hk => h (congrArg slot hk))]

theorem lookup_shard {i : Fin n} (h : (S.shard i).lookup k = some v) : slot k = i ∧ S.get k = some v := by
  obtain rfl := S.placed i k (AList.lookup_isSome.mp (by rw [h]; rfl))
  exact ⟨rfl, h⟩

theorem mem_toList : (k, v) ∈ S.toList ↔ S.get k = some v := by
  simp only [toList, List.mem_flatMap, List.mem_finRange, true_and, List.mem_map, Prod.mk.injEq]
  constructor
  · rintro ⟨i, e, he, rfl, rfl⟩
    exact (lookup_shard (mem_entries.mp he)).2
  · intro h
    exact ⟨slot k, ⟨k, v⟩, mem_entries.mpr h, rfl, rfl⟩

omit [DecidableEq κ] in
theorem sum_empty (f : ν → Nat) : (empty slot ν).sum f = 0 := Finset.sum_eq_zero fun _ _ => rfl

omit [DecidableEq κ] in
/-- Only the shard of the key changes. -/
private theorem sum_update (f : ν → Nat) (m : AList fun _ : κ => ν) :
    ∑ i, total f (Function.update S.shard (slot k) m i) + total f (S.shard (slot k)) = S.sum f + total f m := by
  have hsplit := Finset.add_sum_erase Finset.univ (fun i => total f (S.shard i)) (Finset.mem_univ (slot k))
  have hsplit' := Finset.add_sum_erase Finset.univ (fun i => total f (Function.update S.shard (slot k) m i))
    (Finset.mem_univ (slot k))
  have hrest : ∑ i ∈ Finset.univ.erase (slot k), total f (Function.update S.shard (slot k) m i) =
      ∑ i ∈ Finset.univ.erase (slot k), total f (S.shard i) :=
    Finset.sum_congr rfl fun i hi => by rw [Function.update_of_ne (Finset.ne_of_mem_erase hi)]
  simp only [Function.update_self] at hsplit'
  unfold sum
  omega

theorem sum_set (f : ν → Nat) : (S.set k v).sum f + (S.get k).elim 0 f = S.sum f + f v := by
  have h := sum_update (S := S) (k := k) f ((S.shard (slot k)).insert k v)
  have h' := total_insert (m := S.shard (slot k)) (k := k) (v := v) f
  have hset : (S.set k v).sum f =
      ∑ i, total f (Function.update S.shard (slot k) ((S.shard (slot k)).insert k v) i) := rfl
  unfold get
  omega

theorem sum_eq_zero {f : ν → Nat} : S.sum f = 0 ↔ ∀ k v, S.get k = some v → f v = 0 := by
  simp only [sum, Finset.sum_eq_zero_iff, Finset.mem_univ, true_imp_iff, total,
    List.sum_eq_zero_iff_forall_eq_nat, List.mem_map, forall_exists_index, and_imp, forall_apply_eq_imp_iff₂]
  constructor
  · intro h k v hv
    exact h (slot k) ⟨k, v⟩ (mem_entries.mpr hv)
  · rintro h i ⟨k, v⟩ he
    exact h k v (lookup_shard (mem_entries.mp he)).2

end Shards

end BeehiveIm.Lib
