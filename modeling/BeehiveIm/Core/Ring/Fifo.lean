/-
A ring that no other thread disturbs is a queue: it holds a list of pointers of at most `max`,
`ring_mpush` puts some behind it and `ring_mpop` takes some from its front. The indices are taken
modulo 2 ^ 32, of which the size is a divisor.
-/
import BeehiveIm.Core.Ring
import Mathlib.Data.List.Nodup
import Mathlib.Data.Nat.ModEq
import Mathlib.Tactic.Push

namespace BeehiveIm.Core

open BeehiveIm.Lib

/-! ## The size -/

theorem and_shift_ne_zero (v : BitVec 32) {i : Nat} (hi : i < 32) :
    v &&& ((1 : BitVec 32) <<< i) ≠ 0 ↔ v.toNat.testBit i = true := by
  have h : ∀ j, (v &&& ((1 : BitVec 32) <<< i)).getLsbD j = (v.getLsbD j && decide (j = i)) := by
    intro j
    rw [BitVec.getLsbD_and, BitVec.getLsbD_shiftLeft]
    by_cases hj : j = i
    · subst hj; simp [hi]
    · simp only [hj, decide_false, Bool.and_false]
      by_cases hlt : j < i
      · simp [hlt]
      · have : ¬ j - i = 0 := by omega
        simp [this]
  rw [BitVec.testBit_toNat]
  constructor
  · intro hne
    by_contra hb
    apply hne
    apply BitVec.eq_of_getLsbD_eq
    intro j hj
    rw [h]
    by_cases hji : j = i <;> simp_all
  · intro hb h0
    have := h i
    rw [h0] at this
    simp [hb] at this

/-- The loop of `power2` ends with the highest bit below `n`. -/
theorem highest_bit (v : BitVec 32) : ∀ n ≤ 32, ∀ idx,
    idx = (List.range n).foldl (fun idx i => if v &&& ((1 : BitVec 32) <<< i) ≠ 0 then i else idx) 0 →
      (∀ i, idx < i → i < n → v.toNat.testBit i = false) ∧
        (v.toNat.testBit idx = true ∨ ∀ i < n, v.toNat.testBit i = false)
  | 0, _, idx, _ => ⟨fun i _ hi => by omega, .inr fun i hi => by omega⟩
  | n + 1, hn, idx, hidx => by
    rw [List.range_succ, List.foldl_concat] at hidx
    obtain ⟨habove, hbit⟩ := highest_bit v n (by omega) _ rfl
    by_cases hb : v &&& ((1 : BitVec 32) <<< n) ≠ 0
    · rw [if_pos hb] at hidx
      subst hidx
      exact ⟨fun i hi hi' => by omega, .inl ((and_shift_ne_zero v (by omega)).1 hb)⟩
    · rw [if_neg hb] at hidx
      have hn0 : v.toNat.testBit n = false := by
        rw [and_shift_ne_zero v (by omega)] at hb
        simpa using hb
      subst hidx
      constructor
      · intro i hi hi'
        rcases Nat.lt_succ_iff_lt_or_eq.1 hi' with h | rfl
        · exact habove i hi h
        · exact hn0
      · refine hbit.imp id fun hall i hi => ?_
        rcases Nat.lt_succ_iff_lt_or_eq.1 hi with h | rfl
        · exact hall i h
        · exact hn0

theorem isPowerOf2_iff {v : BitVec 32} (hv : v ≠ 0) : isPowerOf2 v = true ↔ ∃ k, v.toNat = 2 ^ k := by
  have hpos : v.toNat ≠ 0 := fun h => hv (BitVec.eq_of_toNat_eq (by simpa using h))
  have hsub : (v - 1).toNat = v.toNat - 1 := by
    rw [BitVec.toNat_sub_of_le (BitVec.le_def.2 (by simp; omega))]
    rfl
  have hand : isPowerOf2 v = true ↔ v.toNat &&& v.toNat - 1 = 0 := by
    rw [isPowerOf2, decide_eq_true_eq, ← BitVec.toNat_inj, BitVec.toNat_and, hsub, Nat.and_comm]
    simp
  rw [hand, Nat.and_sub_one_eq_zero_iff_isPowerOfTwo hpos]
  rfl

/-- `power2` rounds up to a power of two. -/
theorem power2_spec (v : BitVec 32) (hv : v.toNat ≤ 2 ^ 30) :
    (v = 0 ∧ power2 v = 0) ∨ ∃ k ≤ 30, (power2 v).toNat = 2 ^ k ∧ v.toNat ≤ 2 ^ k := by
  by_cases h0 : v = 0
  · exact .inl ⟨h0, by subst h0; rfl⟩
  right
  unfold power2
  by_cases hp : isPowerOf2 v = true
  · obtain ⟨k, hk⟩ := (isPowerOf2_iff h0).1 hp
    rw [if_pos hp]
    refine ⟨k, ?_, hk, hk.le⟩
    by_contra hgt
    have : 2 ^ 31 ≤ 2 ^ k := Nat.pow_le_pow_right (by omega) (by omega)
    omega
  · rw [if_neg hp]
    generalize hidx : (List.range 32).foldl _ 0 = idx
    obtain ⟨habove, hbit⟩ := highest_bit v 32 le_rfl idx hidx.symm
    have hlt : v.toNat < 2 ^ (idx + 1) := by
      apply Nat.lt_pow_two_of_testBit
      intro i hi
      by_cases hi' : i < 32
      · exact habove i (by omega) hi'
      · exact Nat.testBit_lt_two_pow (v.isLt.trans_le (Nat.pow_le_pow_right (by omega) (by omega)))
    have hge : 2 ^ idx ≤ v.toNat := by
      rcases hbit with hb | hall
      · exact Nat.ge_two_pow_of_testBit hb
      · have : v.toNat < 2 ^ 0 := Nat.lt_pow_two_of_testBit _ fun i _ => by
          by_cases hi' : i < 32
          · exact hall i hi'
          · exact Nat.testBit_lt_two_pow (v.isLt.trans_le (Nat.pow_le_pow_right (by omega) (by omega)))
        exact absurd (BitVec.eq_of_toNat_eq (by simp; omega)) h0
    have hne : v.toNat ≠ 2 ^ idx := fun h => hp ((isPowerOf2_iff h0).2 ⟨idx, h⟩)
    have hidx30 : idx + 1 ≤ 30 := by
      by_contra hgt
      have : 2 ^ 30 ≤ 2 ^ idx := Nat.pow_le_pow_right (by omega) (by omega)
      omega
    refine ⟨idx + 1, hidx30, ?_, hlt.le⟩
    have : 2 ^ (idx + 1) ≤ 2 ^ 30 := Nat.pow_le_pow_right (by omega) hidx30
    show ((1 : BitVec 32) <<< (idx + 1)).toNat = _
    rw [BitVec.toNat_shiftLeft, Nat.shiftLeft_eq, Nat.mod_eq_of_lt (by simp; omega)]
    simp

namespace Ring

/-- The size is a power of two of at most 2 ^ 30, or nothing; the mask goes with it. -/
structure Sized (rq : Ring) : Prop where
  mask : rq.mask = rq.max - 1
  max : rq.max = 0 ∨ ∃ k ≤ 30, rq.max.toNat = 2 ^ k

theorem ringCreat_sized {max : BitVec 32} (hmax : max.toNat ≤ 2 ^ 30) : (ringCreat max).Sized := by
  refine ⟨rfl, ?_⟩
  rcases power2_spec max hmax with ⟨-, h⟩ | ⟨k, hk, h, -⟩
  · exact .inl h
  · exact .inr ⟨k, hk, h⟩

/-- A ring has room for all it was asked to hold. -/
theorem le_ringCreat_max {max : BitVec 32} (hmax : max.toNat ≤ 2 ^ 30) :
    max.toNat ≤ (ringCreat max).max.toNat := by
  rcases power2_spec max hmax with ⟨rfl, -⟩ | ⟨k, -, h, hle⟩
  · simp
  · exact hle.trans h.ge

theorem Sized.le {rq : Ring} (h : rq.Sized) : rq.max.toNat ≤ 2 ^ 30 := by
  rcases h.max with h0 | ⟨k, hk, hmax⟩
  · simp [h0]
  · rw [hmax]
    exact Nat.pow_le_pow_right (by omega) hk

/-! ## Cells -/

theorem cell_ofNat {rq : Ring} (h : rq.Sized) (h0 : rq.max ≠ 0) (n : Nat) :
    rq.cell (BitVec.ofNat 32 n) = n % rq.max.toNat := by
  rcases h.max with h0' | ⟨k, hk, hmax⟩
  · exact absurd h0' h0
  have hle : (1 : BitVec 32) ≤ rq.max := BitVec.le_def.2 (by rw [hmax]; exact Nat.one_le_two_pow)
  rw [cell, BitVec.toNat_and, h.mask, BitVec.toNat_sub_of_le hle, hmax]
  show (n % 2 ^ 32) &&& 2 ^ k - 1 = n % 2 ^ k
  rw [Nat.and_two_pow_sub_one_eq_mod, Nat.mod_mod_of_dvd _ (Nat.pow_dvd_pow 2 (by omega))]

/-- Positions less than the size apart have different cells. -/
theorem cell_ne {rq : Ring} (h : rq.Sized) (h0 : rq.max ≠ 0) {p q : Nat} (hne : p ≠ q)
    (hp : p < q + rq.max.toNat) (hq : q < p + rq.max.toNat) :
    rq.cell (BitVec.ofNat 32 p) ≠ rq.cell (BitVec.ofNat 32 q) := by
  rw [cell_ofNat h h0, cell_ofNat h h0]
  intro heq
  rcases Nat.lt_or_ge p q with hlt | hge
  · have := (Nat.modEq_iff_dvd' hlt.le).1 heq
    exact absurd (Nat.le_of_dvd (by omega) this) (by omega)
  · have := (Nat.modEq_iff_dvd' hge).1 heq.symm
    exact absurd (Nat.le_of_dvd (by omega) this) (by omega)

/-- From the position `c` on the cells are `items`. -/
def Cells (rq : Ring) (c : Nat) (items : List Ptr) : Prop :=
  ∀ i (hi : i < items.length), rq.data (rq.cell (BitVec.ofNat 32 (c + i))) = items[i]

/-- Storing changes the cells only. -/
theorem store_eq (addr : List Ptr) : ∀ (rq : Ring) (head : BitVec 32),
    ∃ data, rq.store head addr = { rq with data := data } := by
  induction addr with
  | nil => exact fun rq _ => ⟨rq.data, rfl⟩
  | cons a rest ih =>
    intro rq head
    obtain ⟨data, h⟩ := ih (rq.put head a) (head + 1)
    exact ⟨data, by rw [store, h]; rfl⟩

theorem Sized.put {rq : Ring} (h : rq.Sized) (i : BitVec 32) (a : Ptr) : (rq.put i a).Sized := ⟨h.mask, h.max⟩

theorem Cells.put {rq : Ring} (h : rq.Sized) {c : Nat} {items : List Ptr} (hc : rq.Cells c items) (a : Ptr)
    (hroom : items.length < rq.max.toNat) :
    (rq.put (BitVec.ofNat 32 (c + items.length)) a).Cells c (items ++ [a]) := by
  have h0 : rq.max ≠ 0 := by rintro h0; simp [h0] at hroom
  intro i hi
  show Function.update rq.data _ a (rq.cell (BitVec.ofNat 32 (c + i))) = _
  simp only [List.length_append, List.length_singleton] at hi
  by_cases hlt : i < items.length
  · rw [Function.update_of_ne (cell_ne h h0 (by omega) (by omega) (by omega)), hc i hlt,
      List.getElem_append_left hlt]
  · obtain rfl : i = items.length := by omega
    rw [Function.update_self]
    simp

/-- What is stored behind the items of a window joins them. -/
theorem Cells.store {addr : List Ptr} : ∀ {rq : Ring} {c : Nat} {items : List Ptr}, rq.Sized → rq.Cells c items →
    items.length + addr.length ≤ rq.max.toNat →
      (rq.store (BitVec.ofNat 32 (c + items.length)) addr).Cells c (items ++ addr) := by
  induction addr with
  | nil => intro rq c items _ hc _; rw [List.append_nil]; exact hc
  | cons a rest ih =>
    intro rq c items h hc hroom
    rw [List.length_cons] at hroom
    have hone := hc.put h a (by omega)
    have hrest := ih (h.put _ a) hone (by rw [List.length_append, List.length_singleton]; show _ ≤ rq.max.toNat; omega)
    rw [List.length_append, List.length_singleton, ← Nat.add_assoc, List.append_assoc, List.singleton_append] at hrest
    rw [Ring.store]
    rwa [show BitVec.ofNat 32 (c + items.length) + 1 = BitVec.ofNat 32 (c + items.length + 1) by
      rw [BitVec.ofNat_add (c + items.length) 1]; rfl]

theorem Cells.load {rq : Ring} : ∀ {n c : Nat} {items : List Ptr}, rq.Cells c items → n ≤ items.length →
    rq.load (BitVec.ofNat 32 c) n = items.take n
  | 0, _, _, _, _ => by simp [Ring.load]
  | n + 1, c, items, hc, hn => by
    match items, hn with
    | a :: rest, hn =>
      have hfirst : rq.data (rq.cell (BitVec.ofNat 32 c)) = a := hc 0 (by simp)
      have hrest : rq.Cells (c + 1) rest := fun i hi => by
        have := hc (i + 1) (by simp; omega)
        rwa [show c + (i + 1) = c + 1 + i by omega] at this
      rw [Ring.load, hfirst, List.take_succ_cons,
        show BitVec.ofNat 32 c + 1 = BitVec.ofNat 32 (c + 1) by rw [BitVec.ofNat_add]; rfl,
        Cells.load hrest (by simpa using hn)]

theorem Cells.drop {rq : Ring} {c n : Nat} {items : List Ptr} (hc : rq.Cells c items) (hn : n ≤ items.length) :
    rq.Cells (c + n) (items.drop n) := by
  intro i hi
  rw [List.length_drop] at hi
  rw [List.getElem_drop, Nat.add_assoc]
  exact hc (n + i) (by omega)

/-! ## The queue of a ring -/

/-- A ring with no call in progress holds `items`, the first at the position `c`. -/
structure Holds (rq : Ring) (c : Nat) (items : List Ptr) : Prop where
  sized : rq.Sized
  prod : rq.prod = ⟨BitVec.ofNat 32 (c + items.length), BitVec.ofNat 32 (c + items.length)⟩
  cons : rq.cons = ⟨BitVec.ofNat 32 c, BitVec.ofNat 32 c⟩
  le : items.length ≤ rq.max.toNat
  cells : rq.Cells c items

theorem ringCreat_holds {max : BitVec 32} (hmax : max.toNat ≤ 2 ^ 30) : (ringCreat max).Holds 0 [] where
  sized := ringCreat_sized hmax
  prod := rfl
  cons := rfl
  le := Nat.zero_le _
  cells i hi := by simp at hi

/-- The test of `ring_mpush` compares with the free cells. -/
theorem hasRoom_iff {rq : Ring} (h : rq.Sized) {p c num : Nat} (hcp : c ≤ p) (hp : p ≤ c + rq.max.toNat)
    (hnum : num < 2 ^ 32) :
    rq.hasRoom (BitVec.ofNat 32 p) (BitVec.ofNat 32 c) (BitVec.ofNat 32 num) = true ↔
      p + num ≤ c + rq.max.toNat := by
  have hmax := h.le
  have hspace : (rq.max + BitVec.ofNat 32 c - BitVec.ofNat 32 p).toNat = c + rq.max.toNat - p := by
    rw [BitVec.toNat_sub, BitVec.toNat_add, BitVec.toNat_ofNat, BitVec.toNat_ofNat]
    omega
  rw [hasRoom, decide_eq_true_eq, BitVec.le_def, hspace, BitVec.toNat_ofNat, Nat.mod_eq_of_lt hnum]
  omega

/-- The test of `ring_mpop` compares with the cells in use. -/
theorem hasData_iff {c p num : Nat} (hcp : c ≤ p) (hp : p < c + 2 ^ 32) (hnum : num < 2 ^ 32) :
    hasData (BitVec.ofNat 32 c) (BitVec.ofNat 32 p) (BitVec.ofNat 32 num) = true ↔ c + num ≤ p := by
  have hused : (BitVec.ofNat 32 p - BitVec.ofNat 32 c).toNat = p - c := by
    rw [BitVec.toNat_sub, BitVec.toNat_ofNat, BitVec.toNat_ofNat]
    omega
  rw [hasData, decide_eq_true_eq, BitVec.le_def, hused, BitVec.toNat_ofNat, Nat.mod_eq_of_lt hnum]
  omega

theorem Holds.mpush {rq : Ring} {c : Nat} {items : List Ptr} (h : rq.Holds c items) (addr : List Ptr)
    (haddr : addr.length < 2 ^ 32) :
    ∃ rq' ok, rq.ringMpush addr = some (rq', ok) ∧ (ok = true ↔ items.length + addr.length ≤ rq.max.toNat) ∧
      rq'.max = rq.max ∧ rq'.num = (if ok then rq.num + BitVec.ofNat 32 addr.length else rq.num) ∧
      rq'.Holds c (if ok then items ++ addr else items) := by
  have hroom := hasRoom_iff h.sized (c := c) (p := c + items.length) (by omega) (by have := h.le; omega) haddr
  unfold ringMpush
  rw [h.prod, h.cons]
  simp only
  by_cases hr : rq.hasRoom (BitVec.ofNat 32 (c + items.length)) (BitVec.ofNat 32 c)
      (BitVec.ofNat 32 addr.length) = true
  · have hle : items.length + addr.length ≤ rq.max.toNat := by have := hroom.1 hr; omega
    have hcells := h.cells.store h.sized hle
    obtain ⟨data, hdata⟩ := store_eq addr rq (BitVec.ofNat 32 (c + items.length))
    rw [hdata] at hcells
    rw [if_pos hr, if_pos trivial, hdata]
    refine ⟨_, true, rfl, iff_of_true rfl hle, rfl, rfl, ?_⟩
    rw [if_pos rfl]
    refine ⟨⟨h.sized.mask, h.sized.max⟩, ?_, h.cons, ?_, hcells⟩
    · simp only [List.length_append, ← Nat.add_assoc, BitVec.ofNat_add]
    · rw [List.length_append]
      exact hle
  · rw [if_neg hr]
    refine ⟨rq, false, rfl, iff_of_false (by simp) fun hle => hr (hroom.2 (by omega)), rfl, rfl, ?_⟩
    rwa [if_neg (by simp)]

theorem Holds.mpop {rq : Ring} {c : Nat} {items : List Ptr} (h : rq.Holds c items) {num : Nat}
    (hnum : num < 2 ^ 32) :
    ∃ rq', rq.ringMpop (BitVec.ofNat 32 num) = some (rq', if num ≤ items.length then items.take num else []) ∧
      rq'.max = rq.max ∧
      if num ≤ items.length then rq'.num = rq.num - BitVec.ofNat 32 num ∧ rq'.Holds (c + num) (items.drop num)
      else rq' = rq := by
  have hmax := h.sized.le
  have hle := h.le
  have hdata := hasData_iff (c := c) (p := c + items.length) (by omega) (by omega) hnum
  unfold ringMpop
  rw [h.prod, h.cons]
  simp only
  by_cases hd : hasData (BitVec.ofNat 32 c) (BitVec.ofNat 32 (c + items.length)) (BitVec.ofNat 32 num) = true
  · have hn : num ≤ items.length := by have := hdata.1 hd; omega
    rw [if_pos hd, if_pos trivial, if_pos hn]
    have hload : rq.load (BitVec.ofNat 32 c) (BitVec.ofNat 32 num).toNat = items.take num := by
      rw [BitVec.toNat_ofNat, Nat.mod_eq_of_lt hnum]
      exact h.cells.load hn
    rw [hload]
    refine ⟨_, rfl, rfl, ?_⟩
    rw [if_pos hn]
    refine ⟨rfl, ⟨h.sized.mask, h.sized.max⟩, ?_, ?_, ?_, h.cells.drop hn⟩
    · rw [List.length_drop, show c + num + (items.length - num) = c + items.length by omega]
    · simp only [BitVec.ofNat_add]
    · rw [List.length_drop]
      exact (Nat.sub_le _ _).trans hle
  · have hn : ¬ num ≤ items.length := fun hn => hd (hdata.2 (by omega))
    rw [if_neg hd, if_neg hn]
    exact ⟨rq, rfl, rfl, by rw [if_neg hn]⟩

end Ring

/-! ## Pools

A queue holds two lists of blocks: the free ones of its pool, and the ones pushed. `queue_creat`
makes all of them free, and both rings have room for every block.
-/

namespace Ring

/-- A ring that holds `items` from some position on, of which `num` counts. -/
def Keeps (rq : Ring) (items : List Ptr) : Prop := ∃ c, rq.Holds c items ∧ rq.num = BitVec.ofNat 32 items.length

variable {rq : Ring} {items : List Ptr}

theorem Keeps.push (h : rq.Keeps items) (p : Ptr) (hroom : items.length < rq.max.toNat) :
    ∃ rq', rq.ringPush p = some (rq', true) ∧ rq'.max = rq.max ∧ rq'.Keeps (items ++ [p]) := by
  obtain ⟨c, hc, hnum⟩ := h
  obtain ⟨rq', ok, hpush, hok, hmax, hnum', h'⟩ := hc.mpush [p] (by simp)
  obtain rfl : ok = true := hok.2 (by rw [List.length_singleton]; omega)
  refine ⟨rq', hpush, hmax, c, by simpa using h', ?_⟩
  simp only [if_true] at hnum'
  rw [hnum', hnum, List.length_append, BitVec.ofNat_add]

theorem Keeps.mpop (h : rq.Keeps items) {num : Nat} (hnum : num ≤ items.length) :
    ∃ rq', rq.ringMpop (BitVec.ofNat 32 num) = some (rq', items.take num) ∧ rq'.max = rq.max ∧
      rq'.Keeps (items.drop num) := by
  obtain ⟨c, hc, hn⟩ := h
  have hlt : num < 2 ^ 32 := by have := hc.le; have := rq.max.isLt; omega
  obtain ⟨rq', hpop, hmax, h'⟩ := hc.mpop hlt
  rw [if_pos hnum] at hpop h'
  refine ⟨rq', hpop, hmax, c + num, h'.2, ?_⟩
  rw [h'.1, hn, List.length_drop, BitVec.ofNat_sub_ofNat_of_le _ _ hlt hnum]

/-- One pointer, if there is one. -/
theorem Keeps.mpop_one (h : rq.Keeps items) :
    ∃ rq', rq.ringMpop 1 = some (rq', items.take 1) ∧ rq'.max = rq.max ∧ rq'.Keeps items.tail := by
  cases items with
  | nil =>
    obtain ⟨c, hc, hn⟩ := h
    obtain ⟨rq', hpop, hmax, rfl⟩ := hc.mpop (show 1 < 2 ^ 32 by decide)
    exact ⟨rq', hpop, rfl, c, hc, hn⟩
  | cons p rest =>
    obtain ⟨rq', hpop, hmax, h'⟩ := h.mpop (show 1 ≤ (p :: rest).length by simp)
    exact ⟨rq', hpop, hmax, h'⟩

/-- `ring_pop` takes the first pointer, or answers `NULL`. -/
theorem Keeps.pop (h : rq.Keeps items) :
    ∃ rq', rq.ringPop = some (rq', items.headD 0) ∧ rq'.max = rq.max ∧ rq'.Keeps items.tail := by
  obtain ⟨rq', hpop, hmax, h'⟩ := h.mpop_one
  refine ⟨rq', ?_, hmax, h'⟩
  rw [ringPop, hpop]
  cases items <;> rfl

theorem ringCreat_keeps {max : BitVec 32} (hmax : max.toNat ≤ 2 ^ 30) : (ringCreat max).Keeps [] :=
  ⟨0, ringCreat_holds hmax, rfl⟩

end Ring

namespace Queue

/-- The free blocks, and the blocks pushed; each ring has room for `max` blocks of `size` bytes. -/
structure Keeps (q : Queue) (max size : Nat) (free queued : List Ptr) : Prop where
  free : q.slot.ring.Keeps free
  queued : q.ring.Keeps queued
  slotSize : q.slot.size = size
  slotRoom : max ≤ q.slot.ring.max.toNat
  room : max ≤ q.ring.max.toNat

variable {q : Queue} {max size : Nat} {free queued : List Ptr}

theorem foldlM_pushBlock : ∀ (ptrs : List Ptr) {rq : Ring} {items : List Ptr}, rq.Keeps items →
    items.length + ptrs.length ≤ rq.max.toNat →
      ∃ rq', ptrs.foldlM Slot.pushBlock rq = some rq' ∧ rq'.max = rq.max ∧ rq'.Keeps (items ++ ptrs)
  | [], rq, items, h, _ => ⟨rq, rfl, rfl, by simpa using h⟩
  | p :: ptrs, rq, items, h, hle => by
    rw [List.length_cons] at hle
    obtain ⟨rq₁, h₁, hmax₁, hk₁⟩ := h.push p (by omega)
    obtain ⟨rq', h', hmax', hk'⟩ := foldlM_pushBlock ptrs hk₁
      (by rw [List.length_append, List.length_singleton, hmax₁]; omega)
    refine ⟨rq', ?_, hmax'.trans hmax₁, by simpa using hk'⟩
    rw [List.foldlM_cons, Slot.pushBlock, h₁]
    exact h'

theorem queueCreat_keeps (base : Ptr) {max : BitVec 32} (hmax : max.toNat ≤ 2 ^ 30) (h0 : max ≠ 0) (hsize : size ≠ 0) :
    ∃ q, queueCreat base max size = some q ∧ q.Keeps max.toNat size (Slot.blocks base max.toNat size) [] := by
  have hle := Ring.le_ringCreat_max hmax
  obtain ⟨rq, hfold, hrqmax, hk⟩ := foldlM_pushBlock (Slot.blocks base max.toNat size) (Ring.ringCreat_keeps hmax)
    (by simpa [Slot.blocks] using hle)
  refine ⟨⟨⟨max, size, rq⟩, Ring.ringCreat max⟩, ?_, ⟨by simpa using hk, Ring.ringCreat_keeps hmax, rfl,
    by rw [hrqmax]; exact hle, hle⟩⟩
  rw [queueCreat, if_neg (not_or.2 ⟨h0, hsize⟩), Slot.slotCreat, hfold]
  rfl

/-- A block, when there is a free one. -/
theorem Keeps.malloc (h : q.Keeps max size free queued) :
    ∃ q', q.queueMalloc size = some (q', free.headD 0) ∧ q'.Keeps max size free.tail queued := by
  obtain ⟨rq', hpop, hmax, hk⟩ := h.free.pop
  refine ⟨{ q with slot := { q.slot with ring := rq' } }, ?_, hk, h.queued, h.slotSize, by rw [hmax]; exact h.slotRoom,
    h.room⟩
  rw [queueMalloc, Slot.slotAlloc, if_neg (by rw [h.slotSize]; omega), hpop]
  rfl

theorem Keeps.push (h : q.Keeps max size free queued) (p : Ptr) (hroom : queued.length < max) :
    ∃ q', q.queuePush p = some (q', true) ∧ q'.Keeps max size free (queued ++ [p]) := by
  obtain ⟨rq', hpush, hmax, hk⟩ := h.queued.push p (hroom.trans_le h.room)
  exact ⟨{ q with ring := rq' }, by rw [queuePush, hpush]; rfl, h.free, hk, h.slotSize, h.slotRoom,
    by rw [hmax]; exact h.room⟩

theorem Keeps.mpop (h : q.Keeps max size free queued) {num : Nat} (hnum : num ≤ queued.length) :
    ∃ q', q.queueMpop (BitVec.ofNat 32 num) = some (q', queued.take num) ∧
      q'.Keeps max size free (queued.drop num) := by
  obtain ⟨rq', hpop, hmax, hk⟩ := h.queued.mpop hnum
  exact ⟨{ q with ring := rq' }, by rw [queueMpop, hpop]; rfl, h.free, hk, h.slotSize, h.slotRoom,
    by rw [hmax]; exact h.room⟩

/-- `queue_used` is the number of blocks pushed. -/
theorem Keeps.used (h : q.Keeps max size free queued) : q.queueUsed.toNat = queued.length := by
  obtain ⟨c, hc, hnum⟩ := h.queued
  have := hc.le
  have := hc.sized.le
  rw [queueUsed, hnum, BitVec.toNat_ofNat, Nat.mod_eq_of_lt (by omega)]

end Queue

end BeehiveIm.Core
