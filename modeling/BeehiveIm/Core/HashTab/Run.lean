/-
Runs of `hash_tab_insert` and `hash_tab_delete` from `hash_tab_creat`, against the list of the
elements inserted and not deleted since.
-/
import BeehiveIm.Core.HashTab.Slots
import BeehiveIm.Core.RbTree.Run
import BeehiveIm.Lib.Run

namespace BeehiveIm.Core

open BeehiveIm.Lib

/-- A call; `mem` is whether the allocator has memory for an insertion. -/
inductive KeyOp (κ β : Type) where
  | insert (e : κ × β) (mem : Bool)
  | delete (k : κ)

namespace KeyOp

variable {κ β : Type} [DecidableEq κ]

def step (K : HashKey κ) (H : HashTab (κ × β)) : KeyOp κ β → Option (HashTab (κ × β))
  | insert e mem => (K.insert Prod.fst H e mem).map (·.1)
  | delete k => (K.delete Prod.fst H k).map (·.1)

def run (K : HashKey κ) (len : Nat) (ops : List (KeyOp κ β)) : Option (HashTab (κ × β)) :=
  ops.foldlM (step K) (HashTab.hashTabCreat (κ × β) len)

/-- The elements inserted and not deleted since; a second insertion under a key changes nothing. -/
def liveStep (live : List (κ × β)) : KeyOp κ β → List (κ × β)
  | insert e mem => if mem ∧ lookup Prod.fst live e.1 = none then e :: live else live
  | delete k => without Prod.fst live k

/-- The keys a call may have: the hash is not negative, or a multiple of the length, and the
comparisons order a key inserted and the keys its slot stores. -/
def Admits (K : HashKey κ) (len : Nat) (live : List (κ × β)) : KeyOp κ β → Prop
  | insert e _ => HashOk len (K.hash e.1) ∧ CmpOn K.cmp (slotKeys K Prod.fst len live e.1)
  | delete k => HashOk len (K.hash k)

/-- Calls under ids below half of the range are admitted. -/
theorem idKey_admits {len : Nat} {live : List (BitVec 64 × β)} {e : BitVec 64 × β} {mem : Bool}
    (he : 0 ≤ e.1.toInt) (hl : ∀ x ∈ live, 0 ≤ x.1.toInt) : Admits idKey len live (.insert e mem) := by
  refine ⟨.inl he, cmpOn_idKey.mono ?_⟩
  rintro k (rfl | ⟨x, hx, -, rfl⟩)
  exacts [he, hl x hx]

theorem step_holds {K : HashKey κ} {len : Nat} {H : HashTab (κ × β)} {live : List (κ × β)} (op : KeyOp κ β)
    (h : Holds K Prod.fst H live ∧ H.len = len) (hop : Admits K len live op) :
    ∃ H', step K H op = some H' ∧ Holds K Prod.fst H' (liveStep live op) ∧ H'.len = len := by
  obtain ⟨h, rfl⟩ := h
  cases op with
  | insert e mem =>
    obtain ⟨hk, hc⟩ := hop
    simp only [step, liveStep]
    cases hl : lookup Prod.fst live e.1 with
    | some e' => exact ⟨H, by simp [h.insert_exist hk hl], by simpa using h, rfl⟩
    | none =>
      cases mem with
      | false => exact ⟨H, by simp [h.insert_err hk hl hc], by simpa using h, rfl⟩
      | true =>
        obtain ⟨H', hins, h', hlen⟩ := h.insert_ok hk hl hc
        exact ⟨H', by simp [hins], by simpa using h', hlen⟩
  | delete k =>
    simp only [step, liveStep]
    cases hl : lookup Prod.fst live k with
    | some e =>
      obtain ⟨H', hdel, h', hlen⟩ := h.delete_some hl
      exact ⟨H', by simp [hdel], h', hlen⟩
    | none =>
      have hall : without Prod.fst live k = live :=
        List.filter_eq_self.2 fun x hx => by simpa using lookup_eq_none.1 hl x hx
      exact ⟨H, by simp [h.delete_none hop hl], by rw [hall]; exact h, rfl⟩

/-- In a run whose calls are all admitted, no call leaves the array, `total` counts the elements and
every query whose key has a slot answers the element inserted and not deleted under it. -/
theorem hashTab_run_correct (K : HashKey κ) (len : Nat) (h₀ : 0 < len) (hlen : len < 2 ^ 31)
    (ops : List (KeyOp κ β)) (hops : Guarded liveStep (Admits K len) [] ops) :
    ∃ H, run K len ops = some H ∧ H.total = (ops.foldl liveStep []).length ∧
      ∀ k, HashOk len (K.hash k) → K.slot len k < len ∧ travSlotIdx len (K.hash k) = K.slot len k ∧
        K.query Prod.fst H k = some (lookup Prod.fst (ops.foldl liveStep []) k) := by
  obtain ⟨H, hrun, h, hl⟩ := simulate (R := fun H live => Holds K Prod.fst H live ∧ H.len = len)
    (fun _ _ op h hop => step_holds op h hop) ops _ _ ⟨hashTabCreat_holds h₀ hlen, rfl⟩ hops
  refine ⟨H, hrun, h.total, fun k hk => ⟨hk.hashIdx_lt h₀ hlen, travSlotIdx_eq hk h₀ hlen, ?_⟩⟩
  exact h.query (hl ▸ hk)

/-- Three ids of one slot, one of them inserted twice and one deleted. -/
theorem hashTab_run_correct_ids : ∃ H,
    run idKey 5 [.insert (3, 'a') true, .insert (8, 'b') true, .insert (13, 'c') true, .insert (8, 'd') true,
      .delete 3] = some H ∧ H.total = 2 ∧
    ∀ k, HashOk 5 (idKey.hash k) → idKey.slot 5 k < 5 ∧ travSlotIdx 5 (idKey.hash k) = idKey.slot 5 k ∧
      idKey.query Prod.fst H k = some (lookup Prod.fst [(13, 'c'), (8, 'b')] k) :=
  hashTab_run_correct idKey 5 (by decide) (by decide) [.insert (3, 'a') true, .insert (8, 'b') true,
    .insert (13, 'c') true, .insert (8, 'd') true, .delete 3]
    ⟨idKey_admits (by decide) (by decide), idKey_admits (by decide) (by decide),
      idKey_admits (by decide) (by decide), idKey_admits (by decide) (by decide), .inl (by decide), trivial⟩

/-- The largest id has remainder -1: index 4294967295 of an array of 5. -/
theorem hashTab_largest_id_faults : ¬∀ (len : Nat) (ops : List (KeyOp (BitVec 64) Unit)), 0 < len → len < 2 ^ 31 →
    ∃ H, run idKey len ops = some H ∧ H.total = (ops.foldl liveStep []).length ∧
      ∀ k, idKey.slot len k < len ∧ travSlotIdx len (idKey.hash k) = idKey.slot len k ∧
        idKey.query Prod.fst H k = some (lookup Prod.fst (ops.foldl liveStep []) k) := by
  intro h
  obtain ⟨H, hrun, -⟩ := h 5 [.insert (BitVec.allOnes 64, ()) true] (by decide) (by decide)
  rw [run, List.foldlM_cons, step, idKey.insert_outside (by decide)] at hrun
  cases hrun

end KeyOp

open RbTree

/-! ## Comparisons that are never negative

Hash tables whose comparisons are never negative: as long as no slot stores more than two keys, the
operations do what they should.
-/

variable {κ α : Type} (K : HashKey κ) (key : α → κ)

/-- A difference of unsigned numbers, taken as a signed one of more bits. -/
def HashKey.OneSided (K : HashKey κ) : Prop := ∀ a b, 0 ≤ K.cmp a b

/-- Different keys on a spine. -/
def KeySpine (t : PTree Color α) : Prop := Spine t ∧ (t.toList.map key).Nodup

/-- The elements of `live` in a table whose slots are spines. -/
abbrev Few (H : HashTab α) (live : List α) : Prop := Slotted K key (KeySpine key) H live

variable {K key} {H : HashTab α} {live : List α} {k : κ} {e : α} {t : PTree Color α}

theorem atMostOne_probe {l : List α} (h : (l.map key).Nodup) (k : κ) : AtMostOne (K.probe key k) l := by
  refine (List.pairwise_map.1 h).imp fun {a b} hne ha hb => hne ?_
  rw [← (K.cmp_eq_zero _ _).1 ha, ← (K.cmp_eq_zero _ _).1 hb]

section OneSided

variable [DecidableEq κ] (hK : K.OneSided)

include hK

omit [DecidableEq κ] in
theorem oneSided_probe (k : κ) (l : List α) : Lib.OneSided (K.probe key k) l := fun _ _ => hK _ _

theorem Few.query (h : Few K key H live) (hk : HashOk H.len (K.hash k)) : K.query key H k = some (lookup key live k) :=
  Slotted.query h hk fun hwf ht => rbtQuery_spine hwf ht.1 (oneSided_probe hK k _)

/-- A new key in a slot that stores one at most. -/
theorem Few.insert (h : Few K key H live) (hk : HashOk H.len (K.hash (key e))) (hl : lookup key live (key e) = none)
    (hfew : (inSlot K key H.len (K.slot H.len (key e)) live).length ≤ 1) :
    ∃ H', K.insert key H e true = some (H', .ok) ∧ Few K key H' (e :: live) ∧ H'.len = H.len := by
  refine Slotted.insert h hk hl fun {T t} hwf ht hp hf => ?_
  have hne := findBy_eq_none.1 hf
  obtain ⟨T', hins, t', hwf', hlist, hs⟩ := rbtInsert_spine (d := e) hwf (by rw [hp.length_eq]; exact hfew)
    fun x hx => lt_of_le_of_ne (hK _ _) (hne x hx).symm
  refine ⟨T', hins, t', hwf', hlist ▸ List.perm_append_singleton .., hs, ?_⟩
  rw [hlist, List.map_append, List.map_singleton, List.nodup_append]
  refine ⟨ht.2, List.nodup_singleton _, fun a ha b hb hab => ?_⟩
  obtain ⟨x, hx, rfl⟩ := List.mem_map.1 ha
  obtain rfl := List.mem_singleton.1 hb
  exact hne x hx ((K.cmp_eq_zero _ _).2 hab.symm)

theorem Few.delete (h : Few K key H live) (hl : lookup key live k = some e) :
    ∃ H', K.delete key H k = some (H', some e) ∧ Few K key H' (without key live k) ∧ H'.len = H.len := by
  refine Slotted.delete h hl fun {T t} hwf ht hf => ?_
  obtain ⟨T', hdel, t', hwf', hlist, hs⟩ :=
    rbtDelete_spine hwf ht.1 (oneSided_probe hK k _) (atMostOne_probe ht.2 k) hf
  refine ⟨T', hdel, t', hwf', hlist, hs, ?_⟩
  rw [hlist]
  exact ht.2.sublist (List.filter_sublist.map key)

theorem Few.write (h : Few K key H live) (hk : HashOk H.len (K.hash k)) {g : α → α} (hg : ∀ x, key (g x) = key x) :
    ∃ H', K.write key H k g = some H' ∧ Few K key H' (writeAt key k g live) ∧ H'.len = H.len := by
  refine Slotted.write h hk hg fun {T t} hwf ht => ?_
  obtain ⟨T', hT', t', hwf', hlist, hs⟩ :=
    rbtWrite_spine hwf ht.1 (oneSided_probe hK k _) (atMostOne_probe ht.2 k) g
  refine ⟨T', hT', t', hwf', hlist, hs, ?_⟩
  have hkeys : t'.toList.map key = t.toList.map key := by
    rw [hlist, writeBy, List.map_map]
    exact List.map_congr_left fun x _ => by simp only [Function.comp_apply]; split <;> simp [hg]
  rw [hkeys]
  exact ht.2

end OneSided

end BeehiveIm.Core
