/-
The hash table against the list of the elements it stores. Elements sit under keys; the key of an
element may be part of it or be kept elsewhere, `key` reads it.
-/
import BeehiveIm.Core.HashTab
import BeehiveIm.Core.RbTree.Run
import BeehiveIm.Core.RbTree.Trav
import Mathlib.Algebra.BigOperators.Group.List.Basic
import Mathlib.Data.List.Perm.Subperm

namespace BeehiveIm.Core

open BeehiveIm.Lib RbTree

/-! ## The slot of a key -/

/-- The hashes whose C remainder is not negative. -/
def HashOk (len : Nat) (hash : Int) : Prop := 0 ≤ hash ∨ (len : Int) ∣ hash

instance (len : Nat) (hash : Int) : Decidable (HashOk len hash) := inferInstanceAs (Decidable (_ ∨ _))

variable {len : Nat} {hash : Int}

theorem HashOk.tmod_nonneg (h : HashOk len hash) : 0 ≤ hash.tmod len := by
  rcases h with h | h
  · exact Int.tmod_nonneg _ h
  · rw [Int.tmod_eq_zero_of_dvd h]

theorem HashOk.hashIdx_eq (h : HashOk len hash) (h₀ : 0 < len) (hlen : len < 2 ^ 31) :
    (hashIdx len hash : Int) = hash.tmod len := by
  have hnn := h.tmod_nonneg
  have hlt : hash.tmod len < len := Int.tmod_lt_of_pos _ (by omega)
  unfold hashIdx
  omega

theorem HashOk.hashIdx_lt (h : HashOk len hash) (h₀ : 0 < len) (hlen : len < 2 ^ 31) : hashIdx len hash < len := by
  have hlt : hash.tmod len < len := Int.tmod_lt_of_pos _ (by omega)
  have := h.hashIdx_eq h₀ hlen
  omega

/-- The hashes whose index is in the array are exactly these. -/
theorem hashIdx_lt_iff (h₀ : 0 < len) (hlen : len < 2 ^ 31) : hashIdx len hash < len ↔ HashOk len hash := by
  refine ⟨fun h => ?_, fun h => h.hashIdx_lt h₀ hlen⟩
  by_contra hno
  simp only [HashOk, not_or, not_le] at hno
  have hle : 0 ≤ (-hash).tmod len := Int.tmod_nonneg _ (by omega)
  rw [Int.neg_tmod] at hle
  have hne : hash.tmod len ≠ 0 := fun h0 => hno.2 (Int.dvd_of_tmod_eq_zero h0)
  have hgt : -(len : Int) < hash.tmod len := Int.lt_tmod_of_pos _ (by omega)
  unfold hashIdx at h
  omega

/-- `hash_tab_trav_slot` visits the slot the other operations use. -/
theorem travSlotIdx_eq (h : HashOk len hash) (h₀ : 0 < len) (hlen : len < 2 ^ 31) :
    travSlotIdx len hash = hashIdx len hash := (h.hashIdx_eq h₀ hlen).symm

/-! ## The table and its elements -/

section Holds

variable {κ α : Type} (K : HashKey κ) (key : α → κ)

/-- The slot of a key. -/
def HashKey.slot (len : Nat) (k : κ) : Nat := hashIdx len (K.hash k)

/-- The keys of a slot together with a key still to come. -/
def slotKeys (len : Nat) (live : List α) (k : κ) : Set κ :=
  insert k {k' | ∃ e ∈ live, K.slot len (key e) = K.slot len k ∧ key e = k'}

/-- The elements under a key of slot `i`. -/
def inSlot (len i : Nat) (live : List α) : List α := live.filter fun e => K.slot len (key e) = i

/-- The elements of `live`, each under its key, in the tree of its slot, and `P` holds of the
trees. -/
structure Slotted (P : PTree Color α → Prop) (H : HashTab α) (live : List α) : Prop where
  pos : 0 < H.len
  lt : H.len < 2 ^ 31
  ok : ∀ e ∈ live, HashOk H.len (K.hash (key e))
  nodup : (live.map key).Nodup
  total : H.total = live.length
  slot : ∀ i < H.len, ∃ t, Wf (H.tree i) t ∧ t.toList.Perm (inSlot K key H.len i live) ∧ P t

/-- Keys that the comparisons order, and in their order. -/
def KeyOrder (t : PTree Color α) : Prop :=
  Sorted (fun a b => K.cmp (key a) (key b)) t.toList ∧ CmpOn (fun a b => K.cmp (key a) (key b)) {e | e ∈ t.toList}

/-- The elements of `live` in a table whose comparisons order the keys of each slot. -/
abbrev Holds (H : HashTab α) (live : List α) : Prop := Slotted K key (KeyOrder K key) H live

/-- A key that has a slot in the table, and that the comparisons order together with the keys
there. -/
def Fits (H : HashTab α) (k : κ) : Prop :=
  HashOk H.len (K.hash k) ∧ CmpOn K.cmp (slotKeys K key H.len (H.hashTabTrav.getD []) k)

/-- The element under a key. -/
def lookup [DecidableEq κ] (live : List α) (k : κ) : Option α := live.find? fun e => key e = k

/-- The elements under other keys. -/
def without [DecidableEq κ] (live : List α) (k : κ) : List α := live.filter fun e => key e ≠ k

variable {K key} {P : PTree Color α → Prop} {H : HashTab α} {live : List α} {k : κ} {e : α} {mem : Bool}

section Eq

/-! In the array, an operation is the one of the slot's tree. -/

theorem HashKey.query_eq (hi : K.slot H.len k < H.len) :
    K.query key H k = (H.tree (K.slot H.len k)).rbtQuery (K.probe key k) := if_pos hi

theorem HashKey.insert_eq (hi : K.slot H.len (key e) < H.len) {T : RbTree α} {ret : RbtRet}
    (hT : (H.tree (K.slot H.len (key e))).rbtInsert (K.probe key (key e)) e mem = some (T, ret)) :
    K.insert key H e mem = some ({ H with
      tree := Function.update H.tree (K.slot H.len (key e)) T
      total := if ret = .ok then H.total + 1 else H.total }, ret) := by
  refine (if_pos hi).trans ?_
  rw [show (H.tree (hashIdx H.len (K.hash (key e)))).rbtInsert _ e mem = _ from hT]
  rfl

theorem HashKey.delete_eq (hi : K.slot H.len k < H.len) {T : RbTree α} {data : Option α}
    (hT : (H.tree (K.slot H.len k)).rbtDelete (K.probe key k) = some (T, data)) :
    K.delete key H k = some ({ H with
      tree := Function.update H.tree (K.slot H.len k) T
      total := if data.isSome then H.total - 1 else H.total }, data) := by
  refine (if_pos hi).trans ?_
  rw [show (H.tree (hashIdx H.len (K.hash k))).rbtDelete _ = _ from hT]
  rfl

theorem HashKey.write_eq (hi : K.slot H.len k < H.len) {g : α → α} {T : RbTree α}
    (hT : (H.tree (K.slot H.len k)).rbtWrite (K.probe key k) g = some T) :
    K.write key H k g = some { H with tree := Function.update H.tree (K.slot H.len k) T } := by
  refine (if_pos hi).trans ?_
  rw [show (H.tree (hashIdx H.len (K.hash k))).rbtWrite _ g = _ from hT]
  rfl

/-- Outside the array, it is a fault. -/
theorem HashKey.insert_outside (hi : ¬K.slot H.len (key e) < H.len) : K.insert key H e mem = none := if_neg hi

end Eq

/-- `hash_tab_creat` makes the empty table. -/
theorem hashTabCreat_slotted {len : Nat} (h₀ : 0 < len) (hlen : len < 2 ^ 31) (hP : P .nil) :
    Slotted K key P (HashTab.hashTabCreat α len) [] where
  pos := h₀
  lt := hlen
  ok := by simp
  nodup := by simp
  total := rfl
  slot := fun i _ => ⟨.nil, rbtCreat_wf, .refl _, hP⟩

theorem hashTabCreat_holds {len : Nat} (h₀ : 0 < len) (hlen : len < 2 ^ 31) :
    Holds K key (HashTab.hashTabCreat α len) [] :=
  hashTabCreat_slotted h₀ hlen ⟨List.Pairwise.nil, by simp, by simp⟩

/-- An order on the keys of a slot orders its elements. -/
theorem cmpOn_slot {t : PTree Color α}
    (hp : t.toList.Perm (inSlot K key H.len (K.slot H.len (key e)) live))
    (hc : CmpOn K.cmp (slotKeys K key H.len live (key e))) :
    CmpOn (fun a b => K.cmp (key a) (key b)) (insert e {x | x ∈ t.toList}) := by
  refine hc.comap fun x hx => ?_
  rcases hx with rfl | hx
  · exact .inl rfl
  · have := hp.mem_iff.1 hx
    simp only [inSlot, List.mem_filter, decide_eq_true_eq] at this
    exact .inr ⟨x, this.1, this.2, rfl⟩

theorem flatMap_cons_at {F : Nat → List α} {j : Nat} : ∀ {is : List Nat}, is.Nodup → j ∈ is →
    (is.flatMap fun i => if j = i then e :: F i else F i).Perm (e :: is.flatMap F)
  | [], _, hj => by cases hj
  | i :: is, hn, hj => by
    obtain ⟨hi, hn⟩ := List.nodup_cons.1 hn
    by_cases hji : j = i
    · subst hji
      have hrest : (is.flatMap fun i => if j = i then e :: F i else F i) = is.flatMap F := by
        refine List.flatMap_congr fun x hx => if_neg ?_
        rintro rfl
        exact hi hx
      simp [hrest]
    · simp only [List.flatMap_cons, hji, if_false]
      refine (List.Perm.append_left _ (flatMap_cons_at hn ?_)).trans List.perm_middle
      exact (List.mem_cons.1 hj).resolve_left hji

/-- The slots together are the table. -/
theorem flatMap_slots {n : Nat} : ∀ {live : List α}, (∀ e ∈ live, K.slot len (key e) < n) →
    ((List.range n).flatMap fun i => inSlot K key len i live).Perm live
  | [], _ => by simp [inSlot]
  | e :: live, h => by
    have hsplit : ∀ i, inSlot K key len i (e :: live) =
        if K.slot len (key e) = i then e :: inSlot K key len i live else inSlot K key len i live := by
      intro i
      simp only [inSlot, List.filter_cons, decide_eq_true_eq]
    simp only [hsplit]
    refine (flatMap_cons_at List.nodup_range (List.mem_range.2 (h e (by simp)))).trans (.cons e ?_)
    exact flatMap_slots fun x hx => h x (by simp [hx])

theorem foldlM_append {ι : Type} {f : ι → Option (List α)} {F : ι → List α} : ∀ (is : List ι) (out : List α),
    (∀ i ∈ is, f i = some (F i)) →
    is.foldlM (fun out i => (f i).map (out ++ ·)) out = some (out ++ is.flatMap F)
  | [], out, _ => by simp
  | i :: is, out, h => by
    rw [List.foldlM_cons, h i (by simp)]
    exact (foldlM_append is (out ++ F i) fun j hj => h j (by simp [hj])).trans (by simp)

/-- `hash_tab_trav` goes through the slots, and through each slot in order. -/
theorem Slotted.trav (h : Slotted K key P H live) : ∃ F : Nat → List α,
    H.hashTabTrav = some ((List.range H.len).flatMap F) ∧ ((List.range H.len).flatMap F).Perm live ∧
      ∀ i < H.len, (F i).Perm (inSlot K key H.len i live) ∧ ∃ t, F i = t.toList ∧ P t := by
  have hF : ∀ i < H.len, ∃ l, (H.tree i).rbtTrav = some l ∧ l.Perm (inSlot K key H.len i live) ∧
      ∃ t, l = t.toList ∧ P t := by
    intro i hi
    obtain ⟨t, hwf, hp, ht⟩ := h.slot i hi
    exact ⟨t.toList, rbtTrav_eq hwf, hp, t, rfl, ht⟩
  choose! F hF hp using hF
  refine ⟨F, ?_, ?_, hp⟩
  · exact (foldlM_append _ [] fun i hi => hF i (List.mem_range.1 hi)).trans (by simp)
  · refine .trans ?_ (flatMap_slots (K := K) fun e he => (h.ok e he).hashIdx_lt h.pos h.lt)
    exact List.Perm.flatMap_left _ fun i hi => (hp i (List.mem_range.1 hi)).1

/-- `hash_tab_trav_slot` goes through the slot of a key. -/
theorem Slotted.travSlot (h : Slotted K key P H live) {hash : Int} (hk : HashOk H.len hash) :
    ∃ l, H.hashTabTravSlot hash = some l ∧ l.Perm (inSlot K key H.len (hashIdx H.len hash) live) := by
  have hlt := hk.hashIdx_lt h.pos h.lt
  obtain ⟨t, hwf, hp, -⟩ := h.slot _ hlt
  refine ⟨t.toList, ?_, hp⟩
  simp only [HashTab.hashTabTravSlot, travSlotIdx_eq hk h.pos h.lt]
  rw [if_pos ⟨Int.natCast_nonneg _, by exact_mod_cast hlt⟩]
  exact rbtTrav_eq hwf

/-- Two ways to read keys that agree on the elements. -/
theorem Holds.congr {key' : α → κ} (h : Holds K key H live) (hk : ∀ e ∈ live, key e = key' e) :
    Holds K key' H live where
  pos := h.pos
  lt := h.lt
  ok := fun e he => hk e he ▸ h.ok e he
  nodup := by rw [← List.map_congr_left hk]; exact h.nodup
  total := h.total
  slot := fun i hi => by
    obtain ⟨t, hwf, hp, hs, hc⟩ := h.slot i hi
    have hmem : ∀ e ∈ t.toList, key e = key' e := fun e he => hk e (List.mem_filter.1 (hp.mem_iff.1 he)).1
    have hslot : inSlot K key' H.len i live = inSlot K key H.len i live :=
      List.filter_congr fun e he => by rw [hk e he]
    refine ⟨t, hwf, hslot ▸ hp, hs.imp_of_mem fun {a b} ha hb hab => ?_, ?_⟩
    · simpa only [← hmem a ha, ← hmem b hb] using hab
    · refine ⟨fun a ha b hb => ?_, fun a ha b hb c hc' => ?_⟩
      · simp only [← hmem a ha, ← hmem b hb]
        exact hc.symm a ha b hb
      · simp only [← hmem a ha, ← hmem b hb, ← hmem c hc']
        exact hc.trans a ha b hb c hc'

theorem Slotted.perm {live' : List α} (h : Slotted K key P H live) (hp : live.Perm live') :
    Slotted K key P H live' where
  pos := h.pos
  lt := h.lt
  ok := fun e he => h.ok e (hp.mem_iff.2 he)
  nodup := (hp.map key).nodup_iff.1 h.nodup
  total := h.total.trans hp.length_eq
  slot := fun i hi => by
    obtain ⟨t, hwf, htp, ht⟩ := h.slot i hi
    exact ⟨t, hwf, htp.trans (hp.filter _), ht⟩

variable [DecidableEq κ]

theorem lookup_eq_none : lookup key live k = none ↔ ∀ e ∈ live, key e ≠ k := by simp [lookup]

theorem lookup_mem (h : lookup key live k = some e) : e ∈ live ∧ key e = k :=
  ⟨List.mem_of_find?_eq_some h, by simpa using List.find?_some h⟩

theorem lookup_eq_some (hn : (live.map key).Nodup) (he : e ∈ live) : lookup key live (key e) = some e := by
  cases hf : lookup key live (key e) with
  | none => exact absurd rfl (lookup_eq_none.1 hf e he)
  | some e' =>
    obtain ⟨he', hk⟩ := lookup_mem hf
    rw [List.inj_on_of_nodup_map hn he' he hk]

theorem mem_without {x : α} : x ∈ without key live k ↔ x ∈ live ∧ key x ≠ k := by simp [without]

theorem perm_without : ∀ {live : List α}, (live.map key).Nodup → e ∈ live →
    live.Perm (e :: without key live (key e))
  | [], _, he => by cases he
  | x :: live, hn, he => by
    obtain ⟨hx, hn⟩ := List.nodup_cons.1 hn
    rcases List.mem_cons.1 he with rfl | he
    · have hrest : without key live (key e) = live := by
        refine List.filter_eq_self.2 fun y hy => ?_
        simp only [ne_eq, decide_eq_true_eq]
        exact fun h0 => hx (List.mem_map.2 ⟨y, hy, h0⟩)
      have hcons : without key (e :: live) (key e) = without key live (key e) := by simp [without]
      rw [hcons, hrest]
    · have hne : key x ≠ key e := fun h0 => hx (List.mem_map.2 ⟨e, he, h0.symm⟩)
      simp only [without, List.filter_cons, ne_eq, hne, not_false_eq_true, decide_true, if_true]
      exact ((perm_without hn he).cons x).trans (.swap e x _)

/-- The probe of `k` finds in the slot of `k` what is stored under `k`. -/
theorem Slotted.findBy {t : PTree Color α} (h : Slotted K key P H live)
    (hp : t.toList.Perm (inSlot K key H.len (K.slot H.len k) live)) :
    Lib.findBy (K.probe key k) t.toList = lookup key live k := by
  have hmem : ∀ {e}, e ∈ t.toList ↔ e ∈ live ∧ K.slot H.len (key e) = K.slot H.len k := by
    intro e; rw [hp.mem_iff]; simp [inSlot]
  cases hf : Lib.findBy (K.probe key k) t.toList with
  | none =>
    refine (lookup_eq_none.2 fun e he hk => ?_).symm
    exact findBy_eq_none.1 hf e (hmem.2 ⟨he, by rw [hk]⟩) ((K.cmp_eq_zero _ _).2 hk.symm)
  | some e =>
    obtain ⟨he, h0⟩ := findBy_mem hf
    obtain rfl : k = key e := (K.cmp_eq_zero _ _).1 h0
    exact (lookup_eq_some h.nodup (hmem.1 he).1).symm

theorem Slotted.query (h : Slotted K key P H live) (hk : HashOk H.len (K.hash k))
    (hT : ∀ {T : RbTree α} {t : PTree Color α}, Wf T t → P t →
      T.rbtQuery (K.probe key k) = some (Lib.findBy (K.probe key k) t.toList)) :
    K.query key H k = some (lookup key live k) := by
  have hi : K.slot H.len k < H.len := hk.hashIdx_lt h.pos h.lt
  obtain ⟨t, hwf, hp, ht⟩ := h.slot _ hi
  rw [K.query_eq hi, hT hwf ht, h.findBy hp]

/-- A new element is stored under its key. -/
theorem Slotted.insert (h : Slotted K key P H live) (hk : HashOk H.len (K.hash (key e)))
    (hl : lookup key live (key e) = none)
    (hT : ∀ {T : RbTree α} {t : PTree Color α}, Wf T t → P t →
      t.toList.Perm (inSlot K key H.len (K.slot H.len (key e)) live) →
      Lib.findBy (K.probe key (key e)) t.toList = none →
      ∃ T', T.rbtInsert (K.probe key (key e)) e true = some (T', .ok) ∧
        ∃ t', Wf T' t' ∧ t'.toList.Perm (e :: t.toList) ∧ P t') :
    ∃ H', K.insert key H e true = some (H', .ok) ∧ Slotted K key P H' (e :: live) ∧ H'.len = H.len := by
  have hi : K.slot H.len (key e) < H.len := hk.hashIdx_lt h.pos h.lt
  obtain ⟨t, hwf, hp, ht⟩ := h.slot _ hi
  obtain ⟨T', hins, t', hwf', hperm, ht'⟩ := hT hwf ht hp ((h.findBy hp).trans hl)
  refine ⟨_, K.insert_eq hi hins, ?_, rfl⟩
  refine ⟨h.pos, h.lt, ?_, ?_, by simp [h.total], fun i hi' => ?_⟩
  · rintro x (_ | ⟨_, hx⟩)
    exacts [hk, h.ok x hx]
  · rw [List.map_cons, List.nodup_cons]
    refine ⟨fun hm => ?_, h.nodup⟩
    obtain ⟨x, hx, hxe⟩ := List.mem_map.1 hm
    exact lookup_eq_none.1 hl x hx hxe
  · by_cases hie : i = K.slot H.len (key e)
    · subst hie
      exact ⟨t', by simpa using hwf', by simpa [inSlot] using hperm.trans (hp.cons e), ht'⟩
    · obtain ⟨u, hu, hup, hu'⟩ := h.slot i hi'
      refine ⟨u, ?_, ?_, hu'⟩
      · simpa only [Function.update_of_ne hie] using hu
      · simpa [inSlot, Ne.symm hie] using hup

/-- A key that stores nothing. -/
theorem Slotted.delete_none (h : Slotted K key P H live) (hk : HashOk H.len (K.hash k))
    (hl : lookup key live k = none) : K.delete key H k = some (H, none) := by
  have hi : K.slot H.len k < H.len := hk.hashIdx_lt h.pos h.lt
  obtain ⟨t, hwf, hp, -⟩ := h.slot _ hi
  rw [K.delete_eq hi (rbtDelete_none hwf ((h.findBy hp).trans hl))]
  simp

/-- The element stored under the key is taken out, and answered. -/
theorem Slotted.delete (h : Slotted K key P H live) (hl : lookup key live k = some e)
    (hT : ∀ {T : RbTree α} {t : PTree Color α}, Wf T t → P t → Lib.findBy (K.probe key k) t.toList = some e →
      ∃ T', T.rbtDelete (K.probe key k) = some (T', some e) ∧
        ∃ t', Wf T' t' ∧ t'.toList = eraseBy (K.probe key k) t.toList ∧ P t') :
    ∃ H', K.delete key H k = some (H', some e) ∧ Slotted K key P H' (without key live k) ∧ H'.len = H.len := by
  obtain ⟨he, rfl⟩ := lookup_mem hl
  have hi : K.slot H.len (key e) < H.len := (h.ok e he).hashIdx_lt h.pos h.lt
  obtain ⟨t, hwf, hp, ht⟩ := h.slot _ hi
  obtain ⟨T', hdel, t', hwf', hlist, ht'⟩ := hT hwf ht ((h.findBy hp).trans hl)
  have herase : t'.toList = without key t.toList (key e) := by
    rw [hlist, eraseBy, without]
    refine List.filter_congr fun x _ => ?_
    have := K.cmp_eq_zero (key e) (key x)
    have hiff : key x = key e ↔ K.probe key (key e) x = 0 := by rw [HashKey.probe, this, eq_comm]
    rw [Bool.eq_iff_iff]
    simp [hiff]
  refine ⟨_, K.delete_eq hi hdel, ?_, rfl⟩
  refine ⟨h.pos, h.lt, fun x hx => h.ok x (List.mem_filter.1 hx).1,
    h.nodup.sublist (List.filter_sublist.map key), ?_, fun i hi' => ?_⟩
  · have := (perm_without h.nodup he).length_eq
    simp only [Option.isSome_some, if_true, h.total, this, List.length_cons, Nat.add_sub_cancel]
  · by_cases hie : i = K.slot H.len (key e)
    · subst hie
      refine ⟨t', by simpa using hwf', ?_, ht'⟩
      rw [herase]
      refine (hp.filter _).trans (.of_eq ?_)
      simp only [inSlot, without, List.filter_filter, Bool.and_comm]
    · obtain ⟨u, hu, hup, hu'⟩ := h.slot i hi'
      refine ⟨u, ?_, hup.trans (.of_eq ?_), hu'⟩
      · simpa only [Function.update_of_ne hie] using hu
      · simp only [inSlot, without, List.filter_filter]
        refine List.filter_congr fun x _ => ?_
        by_cases hx : key x = key e
        · simp [hx, Ne.symm hie]
        · simp [hx]

/-- `g` applied to the element under `k`. -/
def writeAt (key : α → κ) (k : κ) (g : α → α) (live : List α) : List α :=
  live.map fun x => if key x = k then g x else x

theorem map_key_writeAt {g : α → α} (hg : ∀ x, key (g x) = key x) : (writeAt key k g live).map key = live.map key := by
  simp only [writeAt, List.map_map]
  refine List.map_congr_left fun x _ => ?_
  simp only [Function.comp_apply]
  split <;> simp [hg]

/-- Keys do not change, so neither do the slots. -/
theorem inSlot_writeAt {g : α → α} (hg : ∀ x, key (g x) = key x) (len i : Nat) :
    inSlot K key len i (writeAt key k g live) = writeAt key k g (inSlot K key len i live) := by
  simp only [inSlot, writeAt, List.filter_map]
  congr 1
  refine List.filter_congr fun x _ => ?_
  simp only [Function.comp_apply]
  split <;> simp [hg]

theorem mem_writeAt_key {g : α → α} (hg : ∀ x, key (g x) = key x) {x : α} (hx : x ∈ writeAt key k g live) :
    ∃ y ∈ live, key y = key x := by
  have : key x ∈ (writeAt key k g live).map key := List.mem_map_of_mem hx
  rw [map_key_writeAt hg] at this
  exact List.mem_map.1 this

theorem writeAt_eq_self {g : α → α} (h : ∀ x ∈ live, key x ≠ k) : writeAt key k g live = live := by
  refine (List.map_congr_left fun x hx => ?_).trans (List.map_id _)
  rw [if_neg (h x hx)]; rfl

/-- A write to the element under a key. -/
theorem Slotted.write (h : Slotted K key P H live) (hk : HashOk H.len (K.hash k)) {g : α → α}
    (hg : ∀ x, key (g x) = key x)
    (hT : ∀ {T : RbTree α} {t : PTree Color α}, Wf T t → P t → ∃ T', T.rbtWrite (K.probe key k) g = some T' ∧
      ∃ t', Wf T' t' ∧ t'.toList = writeBy (K.probe key k) g t.toList ∧ P t') :
    ∃ H', K.write key H k g = some H' ∧ Slotted K key P H' (writeAt key k g live) ∧ H'.len = H.len := by
  have hi : K.slot H.len k < H.len := hk.hashIdx_lt h.pos h.lt
  obtain ⟨t, hwf, hp, ht⟩ := h.slot _ hi
  obtain ⟨T', hT', t', hwf', hlist, ht'⟩ := hT hwf ht
  have hby : writeBy (K.probe key k) g = writeAt key k g := by
    funext l
    refine List.map_congr_left fun x _ => ?_
    simp only [HashKey.probe, K.cmp_eq_zero, eq_comm]
  rw [hby] at hlist
  refine ⟨_, K.write_eq hi hT', ?_, rfl⟩
  refine ⟨h.pos, h.lt, ?_, by rw [map_key_writeAt hg]; exact h.nodup, ?_, fun i hi' => ?_⟩
  · intro x hx
    obtain ⟨y, hy, hyx⟩ := mem_writeAt_key hg hx
    exact hyx ▸ h.ok y hy
  · simpa [writeAt] using h.total
  · by_cases hie : i = K.slot H.len k
    · subst hie
      refine ⟨t', by simpa using hwf', ?_, ht'⟩
      rw [hlist, inSlot_writeAt hg]
      exact hp.map _
    · obtain ⟨u, hu, hup, hu'⟩ := h.slot i hi'
      refine ⟨u, by simpa only [Function.update_of_ne hie] using hu, ?_, hu'⟩
      rw [inSlot_writeAt hg, writeAt_eq_self]
      · exact hup
      · intro x hx h0
        simp only [inSlot, List.mem_filter, decide_eq_true_eq] at hx
        exact hie (h0 ▸ hx.2.symm)

/-! ### Tables in the order of their keys -/

omit [DecidableEq κ] in
/-- A key of the tree splits it. -/
theorem KeyOrder.splits {t : PTree Color α} (h : KeyOrder K key t) (hf : findBy (K.probe key k) t.toList = some e) :
    Splits (K.probe key k) t.toList := by
  obtain ⟨he, h0⟩ := findBy_mem hf
  obtain rfl : k = key e := (K.cmp_eq_zero _ _).1 h0
  exact h.1.splits (k := e) (h.2.mono fun x hx => (Set.mem_insert_iff.1 hx).elim (fun hxe => hxe ▸ he) id)

theorem Holds.query (h : Holds K key H live) (hk : HashOk H.len (K.hash k)) :
    K.query key H k = some (lookup key live k) := by
  refine Slotted.query h hk fun {T t} hwf ht => ?_
  cases hf : findBy (K.probe key k) t.toList with
  | none => exact rbtQuery_none hwf hf
  | some e => rw [rbtQuery_spec hwf (ht.splits hf), hf]

theorem Holds.insert_exist (h : Holds K key H live) (hk : HashOk H.len (K.hash (key e))) {e' : α}
    (hl : lookup key live (key e) = some e') (mem : Bool) : K.insert key H e mem = some (H, .nodeExist) := by
  have hi : K.slot H.len (key e) < H.len := hk.hashIdx_lt h.pos h.lt
  obtain ⟨t, hwf, hp, ht⟩ := h.slot _ hi
  have hf := (h.findBy hp).trans hl
  rw [K.insert_eq hi (rbtInsert_exist hwf (ht.splits hf) hf)]
  simp

theorem Holds.insert_err (h : Holds K key H live) (hk : HashOk H.len (K.hash (key e)))
    (hl : lookup key live (key e) = none) (hc : CmpOn K.cmp (slotKeys K key H.len live (key e))) :
    K.insert key H e false = some (H, .err) := by
  have hi : K.slot H.len (key e) < H.len := hk.hashIdx_lt h.pos h.lt
  obtain ⟨t, hwf, hp, ht⟩ := h.slot _ hi
  rw [K.insert_eq hi (rbtInsert_err hwf (ht.1.splits (cmpOn_slot hp hc)) ((h.findBy hp).trans hl))]
  simp

theorem Holds.insert_ok (h : Holds K key H live) (hk : HashOk H.len (K.hash (key e)))
    (hl : lookup key live (key e) = none) (hc : CmpOn K.cmp (slotKeys K key H.len live (key e))) :
    ∃ H', K.insert key H e true = some (H', .ok) ∧ Holds K key H' (e :: live) ∧ H'.len = H.len := by
  refine Slotted.insert h hk hl fun {T t} hwf ht hp hf => ?_
  have hce := cmpOn_slot hp hc
  obtain ⟨T', hins, t', hwf', hlist⟩ := rbtInsert_ok (d := e) hwf (ht.1.splits hce) hf
  have hperm : t'.toList.Perm (e :: t.toList) := hlist ▸ insertBy_perm (findBy_eq_none.1 hf)
  refine ⟨T', hins, t', hwf', hperm, ?_, hce.mono fun x hx => by simpa using hperm.mem_iff.1 hx⟩
  rw [hlist]
  exact ht.1.insertBy hce

theorem Holds.delete_some (h : Holds K key H live) (hl : lookup key live k = some e) :
    ∃ H', K.delete key H k = some (H', some e) ∧ Holds K key H' (without key live k) ∧ H'.len = H.len := by
  refine Slotted.delete h hl fun {T t} hwf ht hf => ?_
  obtain ⟨T', hdel, t', hwf', hlist⟩ := rbtDelete_some hwf (ht.splits hf) hf
  refine ⟨T', hdel, t', hwf', hlist, by rw [hlist]; exact ht.1.eraseBy _, ht.2.mono fun x hx => ?_⟩
  have hx : x ∈ t'.toList := hx
  rw [hlist] at hx
  exact (mem_eraseBy.1 hx).1

theorem Holds.delete (h : Holds K key H live) (hk : HashOk H.len (K.hash k)) :
    ∃ H', K.delete key H k = some (H', lookup key live k) ∧ Holds K key H' (without key live k) ∧ H'.len = H.len := by
  cases hl : lookup key live k with
  | none =>
    have hall : without key live k = live := List.filter_eq_self.2 fun x hx => by simpa using lookup_eq_none.1 hl x hx
    exact ⟨H, h.delete_none hk hl, hall.symm ▸ h, rfl⟩
  | some e => exact h.delete_some hl

/-- Whatever the key, only an element stored is found. -/
theorem Holds.query_eq_some (h : Holds K key H live) :
    K.query key H k = some (some e) ↔ lookup key live k = some e := by
  constructor
  · intro hq
    by_cases hk : HashOk H.len (K.hash k)
    · exact Option.some.inj ((h.query hk).symm.trans hq)
    · rw [← hashIdx_lt_iff h.pos h.lt] at hk
      rw [show K.query key H k = none from if_neg hk] at hq
      cases hq
  · intro hl
    obtain ⟨he, rfl⟩ := lookup_mem hl
    rw [h.query (h.ok e he), hl]

omit [DecidableEq κ] in
theorem slotKeys_mono {live' : List α} (hsub : ∀ e ∈ live', e ∈ live) :
    slotKeys K key len live' k ⊆ slotKeys K key len live k := by
  rintro _ (rfl | ⟨e, he, hslot, rfl⟩)
  · exact .inl rfl
  · exact .inr ⟨e, hsub e he, hslot, rfl⟩

omit [DecidableEq κ] in
/-- The elements that a traversal finds are those stored. -/
theorem Holds.fits_iff (h : Holds K key H live) :
    Fits K key H k ↔ HashOk H.len (K.hash k) ∧ CmpOn K.cmp (slotKeys K key H.len live k) := by
  obtain ⟨F, htrav, hperm, -⟩ := Slotted.trav h
  unfold Fits
  rw [htrav, Option.getD_some]
  have hsame : slotKeys K key H.len ((List.range H.len).flatMap F) k = slotKeys K key H.len live k :=
    (slotKeys_mono fun e he => hperm.mem_iff.1 he).antisymm (slotKeys_mono fun e he => hperm.mem_iff.2 he)
  rw [hsame]

theorem Holds.write (h : Holds K key H live) (hk : HashOk H.len (K.hash k)) {g : α → α}
    (hg : ∀ x, key (g x) = key x) :
    ∃ H', K.write key H k g = some H' ∧ Holds K key H' (writeAt key k g live) ∧ H'.len = H.len := by
  refine Slotted.write h hk hg fun {T t} hwf ht => ?_
  obtain ⟨T', hT', hwf'⟩ := rbtWrite_alter hwf (K.probe key k) g
  refine ⟨T', hT', _, hwf', ?_⟩
  cases hf : findBy (K.probe key k) t.toList with
  | none =>
    rw [alterBy_none (meetBy_none (findBy_eq_none.1 hf)), writeBy_eq_self (findBy_eq_none.1 hf)]
    exact ⟨rfl, ht⟩
  | some e =>
    have hlist := toList_alterBy g (ht.splits hf).atMostOne (meetBy_eq (ht.splits hf))
    have hkey : ∀ x, key (if K.probe key k x = 0 then g x else x) = key x := fun x => by split <;> simp [hg]
    refine ⟨hlist, ?_, ?_⟩
    · rw [hlist]
      exact List.pairwise_map.2 (ht.1.imp fun {a b} hab => by simpa only [hkey] using hab)
    · refine ht.2.of_keys fun x hx => ?_
      have hx : x ∈ (alterBy (K.probe key k) g t).toList := hx
      rw [hlist] at hx
      obtain ⟨y, hy, rfl⟩ := List.mem_map.1 hx
      exact ⟨y, hy, (hkey y).symm⟩

/-! ### Lookups after a change -/

variable {k' : κ}

theorem lookup_cons : lookup key (e :: live) k = if key e = k then some e else lookup key live k := by
  by_cases h : key e = k <;> simp [lookup, h]

theorem lookup_writeAt {g : α → α} (hg : ∀ x, key (g x) = key x) : ∀ {live : List α},
    lookup key (writeAt key k g live) k' = if k' = k then (lookup key live k).map g else lookup key live k'
  | [] => by simp [lookup, writeAt]
  | x :: live => by
    have ih := @lookup_writeAt g hg live
    rw [writeAt, List.map_cons]
    rw [writeAt] at ih
    rw [lookup_cons, lookup_cons, lookup_cons, ih]
    by_cases hx : key x = k
    · subst hx
      by_cases hk : k' = key x
      · subst hk; simp [hg]
      · simp [hg, hk, Ne.symm hk]
    · by_cases hk : k' = k
      · subst hk; simp [hx]
      · simp [hx, hk]

theorem lookup_without : ∀ {live : List α},
    lookup key (without key live k) k' = if k' = k then none else lookup key live k'
  | [] => by simp [lookup, without]
  | x :: live => by
    have ih := @lookup_without live
    by_cases hx : key x = k
    · have hcons : without key (x :: live) k = without key live k := by simp [without, hx]
      rw [hcons, ih, lookup_cons, hx]
      by_cases hk : k' = k
      · simp [hk]
      · simp [hk, Ne.symm hk]
    · have hcons : without key (x :: live) k = x :: without key live k := by simp [without, hx]
      rw [hcons, lookup_cons, lookup_cons, ih]
      by_cases hk : k' = k
      · subst hk; simp [hx]
      · simp [hk]

theorem without_writeAt {g : α → α} (hg : ∀ x, key (g x) = key x) :
    without key (writeAt key k g live) k = without key live k := by
  unfold without writeAt
  induction live with
  | nil => rfl
  | cons x live ih =>
    rw [List.map_cons]
    by_cases hx : key x = k
    · have hgx : key (g x) = k := (hg x).trans hx
      rw [if_pos hx, List.filter_cons, List.filter_cons, if_neg (by simpa using hgx), if_neg (by simpa using hx), ih]
    · rw [if_neg hx, List.filter_cons, List.filter_cons, if_pos (by simpa using hx), if_pos (by simpa using hx), ih]

/-- One element changes, under its key. -/
theorem perm_writeAt {g : α → α} (hg : ∀ x, key (g x) = key x) (hn : (live.map key).Nodup) (he : e ∈ live) :
    (writeAt key (key e) g live).Perm (g e :: without key live (key e)) := by
  have hkeys : ((writeAt key (key e) g live).map key).Nodup := by
    rw [map_key_writeAt hg]
    exact hn
  have hmem : g e ∈ writeAt key (key e) g live := List.mem_map.2 ⟨e, he, if_pos rfl⟩
  have hperm := perm_without hkeys hmem
  rwa [hg, without_writeAt hg] at hperm

end Holds

/-! ## Ids -/

/-- Differences order numbers if they are the differences of what the numbers stand for. -/
theorem cmpOn_of_sub {w : Nat} {A : Set (BitVec w)} (hsub : ∀ a ∈ A, ∀ b ∈ A, (a - b).toInt = a.toInt - b.toInt) :
    CmpOn (fun a b : BitVec w => (a - b).toInt) A := by
  refine ⟨fun a ha b hb => ?_, fun a ha b hb c hc hab hbc => ?_⟩
  · rw [hsub a ha b hb, hsub b hb a ha]
    omega
  · rw [hsub a ha b hb] at hab
    rw [hsub b hb c hc] at hbc
    rw [hsub a ha c hc]
    omega

/-- Differences order the ids below half of the range. -/
theorem cmpOn_sub {w : Nat} : CmpOn (fun a b : BitVec w => (a - b).toInt) {k | 0 ≤ k.toInt} := by
  refine cmpOn_of_sub fun a (ha : 0 ≤ a.toInt) b (hb : 0 ≤ b.toInt) => ?_
  have ha' := BitVec.two_mul_toInt_lt (x := a)
  have hb' := BitVec.two_mul_toInt_lt (x := b)
  rw [BitVec.toInt_sub]
  exact Int.bmod_eq_of_le_mul_two (by push_cast; omega) (by push_cast; omega)

theorem cmpOn_idKey : CmpOn idKey.cmp {k | 0 ≤ k.toInt} := cmpOn_sub

theorem cmpOn_sessionKey : CmpOn sessionKey.cmp {k | 0 ≤ k.1.toInt ∧ 0 ≤ k.2.toInt} := cmpOn_sub.lex cmpOn_sub

/-- Ids from 0 on fit a table of such ids. -/
theorem fits_of_nonneg {α : Type} {key : α → BitVec 64} {H : HashTab α} {k : BitVec 64} (hk : 0 ≤ k.toInt)
    (h : ∀ e ∈ H.hashTabTrav.getD [], 0 ≤ (key e).toInt) : Fits idKey key H k := by
  refine ⟨.inl hk, cmpOn_idKey.mono ?_⟩
  rintro _ (rfl | ⟨e, he, -, rfl⟩)
  · exact hk
  · exact h e he

/-! ## What is stored

A hash table whose keys all come from one set of keys that its callbacks can handle. No operation
under such a key leaves the array, and each does to the list of the elements what its name says.
-/

variable {κ α : Type} {K : HashKey κ} {key : α → κ} {A : Set κ} {len : Nat} {H : HashTab α} {live : List α} {k : κ}
    {e : α}

theorem RbTree.rbtQueryLoop_found {T : RbTree α} {ck : α → Int} : ∀ {fuel : Nat} {node p : Ptr},
    rbtQueryLoop ck fuel T node = some (some p) → T.cmp ck p = 0
  | 0, _, _, h => by cases h
  | fuel + 1, node, p, h => by
    unfold rbtQueryLoop at h
    split at h
    · cases h
    dsimp only at h
    split at h
    · cases h
      assumption
    · exact rbtQueryLoop_found h

/-- What a query finds has the key it was asked for, whatever the table. -/
theorem HashKey.query_found {H : HashTab α} (h : K.query key H k = some (some e)) : key e = k := by
  unfold HashKey.query HashTab.hashTabQuery at h
  dsimp only at h
  split at h
  · obtain ⟨r, hloop, hr⟩ := Option.map_eq_some_iff.1 h
    obtain ⟨p, rfl, hdata⟩ := Option.bind_eq_some_iff.1 hr
    have hcmp := RbTree.rbtQueryLoop_found hloop
    unfold RbTree.cmp at hcmp
    rw [hdata] at hcmp
    exact ((K.cmp_eq_zero k (key e)).1 hcmp).symm
  · cases h
/-- Each key hashes to a slot of the table, and the comparisons order the keys. -/
structure KeySet (K : HashKey κ) (len : Nat) (A : Set κ) : Prop where
  hashOk : ∀ k ∈ A, HashOk len (K.hash k)
  cmpOn : CmpOn K.cmp A

/-- The elements of `live` in a table of `len` slots, under keys of `A`. -/
structure Stored (K : HashKey κ) (key : α → κ) (A : Set κ) (len : Nat) (H : HashTab α) (live : List α) : Prop where
  holds : Holds K key H live
  len_eq : H.len = len
  admits : KeySet K len A
  keys : ∀ e ∈ live, key e ∈ A

theorem hashTabCreat_stored (h₀ : 0 < len) (hlen : len < 2 ^ 31) (hA : KeySet K len A) :
    Stored K key A len (HashTab.hashTabCreat α len) [] :=
  ⟨hashTabCreat_holds h₀ hlen, rfl, hA, by simp⟩

namespace Stored

theorem hashOk (h : Stored K key A len H live) (hk : k ∈ A) : HashOk H.len (K.hash k) :=
  h.len_eq ▸ h.admits.hashOk k hk

theorem nodup (h : Stored K key A len H live) : (live.map key).Nodup := h.holds.nodup

theorem cmpOn_slotKeys (h : Stored K key A len H live) (hk : k ∈ A) : CmpOn K.cmp (slotKeys K key H.len live k) := by
  refine h.admits.cmpOn.mono ?_
  rintro k' (rfl | ⟨e, he, -, rfl⟩)
  · exact hk
  · exact h.keys e he

theorem trav (h : Stored K key A len H live) : ∃ l, H.hashTabTrav = some l ∧ l.Perm live := by
  obtain ⟨F, htrav, hperm, -⟩ := Slotted.trav h.holds
  exact ⟨_, htrav, hperm⟩

variable [DecidableEq κ]

theorem query (h : Stored K key A len H live) (hk : k ∈ A) : K.query key H k = some (lookup key live k) :=
  h.holds.query (h.hashOk hk)

/-- Whatever the key, only an element stored is found. -/
theorem query_eq_some (h : Stored K key A len H live) : K.query key H k = some (some e) ↔ lookup key live k = some e :=
  h.holds.query_eq_some

theorem insert_ok (h : Stored K key A len H live) (hk : key e ∈ A) (hl : lookup key live (key e) = none) :
    ∃ H', K.insert key H e true = some (H', .ok) ∧ Stored K key A len H' (e :: live) := by
  obtain ⟨H', hins, hholds, hlen⟩ := h.holds.insert_ok (h.hashOk hk) hl (h.cmpOn_slotKeys hk)
  exact ⟨H', hins, hholds, hlen.trans h.len_eq, h.admits, List.forall_mem_cons.2 ⟨hk, h.keys⟩⟩

theorem insert_err (h : Stored K key A len H live) (hk : key e ∈ A) (hl : lookup key live (key e) = none) :
    K.insert key H e false = some (H, .err) :=
  h.holds.insert_err (h.hashOk hk) hl (h.cmpOn_slotKeys hk)

theorem insert_exist (h : Stored K key A len H live) {e' : α} (hl : lookup key live (key e) = some e') (mem : Bool) :
    K.insert key H e mem = some (H, .nodeExist) := by
  obtain ⟨he', hk⟩ := lookup_mem hl
  exact h.holds.insert_exist (h.hashOk (hk ▸ h.keys e' he')) hl mem

theorem delete (h : Stored K key A len H live) (hk : k ∈ A) :
    ∃ H', K.delete key H k = some (H', lookup key live k) ∧ Stored K key A len H' (without key live k) := by
  obtain ⟨H', hdel, hholds, hlen⟩ := h.holds.delete (h.hashOk hk)
  exact ⟨H', hdel, hholds, hlen.trans h.len_eq, h.admits, fun x hx => h.keys x (mem_without.1 hx).1⟩

theorem write (h : Stored K key A len H live) (hk : k ∈ A) {g : α → α} (hg : ∀ x, key (g x) = key x) :
    ∃ H', K.write key H k g = some H' ∧ Stored K key A len H' (writeAt key k g live) := by
  obtain ⟨H', hw, hholds, hlen⟩ := h.holds.write (h.hashOk hk) hg
  refine ⟨H', hw, hholds, hlen.trans h.len_eq, h.admits, fun x hx => ?_⟩
  obtain ⟨y, hy, hxy⟩ := mem_writeAt_key hg hx
  exact hxy ▸ h.keys y hy

end Stored

/-! ## Sums over the elements -/

section Sum

variable [DecidableEq κ] (w : α → Int)

theorem sum_writeAt {g : α → α} (hn : (live.map key).Nodup) (hl : lookup key live k = some e) :
    ((writeAt key k g live).map w).sum = (live.map w).sum + (w (g e) - w e) := by
  obtain ⟨he, rfl⟩ := lookup_mem hl
  have hp := perm_without hn he
  have hrest : writeAt key (key e) g (without key live (key e)) = without key live (key e) :=
    writeAt_eq_self fun x hx => (mem_without.1 hx).2
  have hw : (writeAt key (key e) g live).Perm (g e :: without key live (key e)) := by
    have := hp.map fun x => if key x = key e then g x else x
    rw [List.map_cons, if_pos rfl] at this
    exact this.trans (List.Perm.of_eq (congrArg _ hrest))
  have h₁ := List.Perm.sum_eq (hw.map w)
  have h₂ := List.Perm.sum_eq (hp.map w)
  rw [List.map_cons, List.sum_cons] at h₁ h₂
  omega

end Sum

/-! ## What holds of the elements -/

variable [DecidableEq κ] {P Q : κ → α → Prop}

theorem forall_writeAt {g : α → α} (hg : ∀ x, key (g x) = key x) (h : ∀ x ∈ live, key x ≠ k → Q (key x) x)
    (hk : ∀ x ∈ live, key x = k → Q k (g x)) : ∀ x ∈ writeAt key k g live, Q (key x) x := by
  intro x hx
  obtain ⟨y, hy, rfl⟩ := List.mem_map.1 hx
  by_cases hyk : key y = k
  · rw [if_pos hyk, hg, hyk]
    exact hk y hy hyk
  · rw [if_neg hyk]
    exact h y hy hyk

end BeehiveIm.Core
