/-
What goes out through the buffer is the items one after the other. The buffer holds the items whose
callback has not been called, the first of them without the part of it that has gone out.

The bytes that a buffer has still to write go by the addresses of their items: an item added puts
all of its bytes behind them, and those that a `writev` writes are gone from their front.
-/
import BeehiveIm.Core.Iovec

namespace BeehiveIm.Core

open BeehiveIm.Lib

variable {mem : Nat → Byte}

@[simp] theorem length_bytes (addr len : Nat) : (bytes mem addr len).length = len := by simp [bytes]

theorem drop_bytes (addr len k : Nat) : (bytes mem addr len).drop k = bytes mem (addr + k) (len - k) := by
  simp [bytes, ← List.map_drop, List.drop_range']

/-- An item, and the part of it that is still to go out. -/
abbrev Entry := WiovOrig × Iovec

def WiovOrig.whole (item : WiovOrig) : Entry := (item, ⟨item.addr, item.len⟩)

/-- The first entry without `k` more of its bytes. -/
def cut (k : Nat) : List Entry → List Entry
  | [] => []
  | (item, v) :: es => (item, ⟨v.iovBase + k, v.iovLen - k⟩) :: es

/-- How many bytes the entries have. -/
def size (es : List Entry) : Nat := (es.map fun e => e.2.iovLen).sum

@[simp] theorem size_cons (e : Entry) (es : List Entry) : size (e :: es) = e.2.iovLen + size es := List.sum_cons

@[simp] theorem length_cut (k : Nat) (es : List Entry) : (cut k es).length = es.length := by
  cases es <;> rfl

namespace Wiov

variable {W : Wiov} {es : List Entry} {n : Nat}

/-- The buffer holds these entries. -/
structure Holds (W : Wiov) (es : List Entry) : Prop where
  cnt : W.iovIdx + es.length = W.iovCnt
  cnt_le : W.iovCnt ≤ W.iovMax
  get : ∀ i e, es[i]? = some e → (W.orig (W.iovIdx + i), W.iov (W.iovIdx + i)) = e

theorem wiovInit_holds (max : Nat) : (wiovInit max).Holds [] := ⟨rfl, Nat.zero_le _, fun _ _ h => by simp at h⟩

theorem Holds.items (h : W.Holds es) : W.items = es.map Prod.snd := by
  have hnum : W.iovCnt - W.iovIdx = es.length := by have := h.cnt; omega
  rw [Wiov.items, hnum]
  refine List.ext_getElem (by simp) fun i h₁ h₂ => ?_
  rw [List.length_map] at h₂
  have hi := h.get i es[i] (List.getElem?_eq_getElem h₂)
  simp [← hi]

theorem Holds.add (h : W.Holds es) (item : WiovOrig) (hfull : W.wiovIsfull = false) :
    ∃ W', W.wiovItemAdd item = some W' ∧ W'.Holds (es ++ [item.whole]) := by
  have hlt : W.iovCnt < W.iovMax := by
    have hne : W.iovMax ≠ W.iovCnt := by simpa [wiovIsfull] using hfull
    have := h.cnt_le
    omega
  refine ⟨_, if_pos hlt, ?_, hlt, fun i e he => ?_⟩
  · simp only [List.length_append, List.length_singleton, ← Nat.add_assoc, h.cnt]
  · simp only
    rcases Nat.lt_or_ge i es.length with hi | hi
    · rw [List.getElem?_append_left hi] at he
      have hne : W.iovIdx + i ≠ W.iovCnt := by have := h.cnt; omega
      rw [Function.update_of_ne hne, Function.update_of_ne hne]
      exact h.get i e he
    · rw [List.getElem?_append_right hi, List.getElem?_singleton] at he
      split at he
      · rename_i hzero
        have heq : W.iovIdx + i = W.iovCnt := by have := h.cnt; omega
        rw [heq, Function.update_self, Function.update_self]
        exact Option.some.inj he
      · cases he

/-- The first entry is taken out. -/
theorem Holds.tail {e : Entry} (h : W.Holds (e :: es)) :
    ({ W.wiovItemReset W.iovIdx with iovIdx := W.iovIdx + 1 } : Wiov).Holds es where
  cnt := by have := h.cnt; simp only [List.length_cons] at this; simp only [wiovItemReset]; omega
  cnt_le := h.cnt_le
  get i e' he := by
    have hne : W.iovIdx + 1 + i ≠ W.iovIdx := by omega
    simp only [wiovItemReset, Function.update_of_ne hne]
    rw [Nat.add_assoc, Nat.add_comm 1 i]
    exact h.get (i + 1) e' he

/-- Part of the first entry has gone out. -/
theorem Holds.cut {e : Entry} (h : W.Holds (e :: es)) (k l : Nat) (hl : l = e.2.iovLen - k) :
    ({ W with iov := Function.update W.iov W.iovIdx ⟨e.2.iovBase + k, l⟩ } : Wiov).Holds (Core.cut k (e :: es)) where
  cnt := by rw [length_cut]; exact h.cnt
  cnt_le := h.cnt_le
  get i e' he := by
    cases i with
    | zero =>
      have hget := h.get 0 e rfl
      simp only [Nat.add_zero] at hget ⊢
      obtain rfl : (e.1, ⟨e.2.iovBase + k, e.2.iovLen - k⟩) = e' := Option.some.inj he
      rw [Function.update_self, hl, ← hget]
    | succ i =>
      have hne : W.iovIdx + (i + 1) ≠ W.iovIdx := by omega
      simp only [Function.update_of_ne hne]
      exact h.get (i + 1) e' he

/-- The items that have gone out are called back; what is left of `n` bytes is cut off the next. -/
theorem adjustLoop_spec (h : W.Holds es) {len : Nat} (hlen : len ≤ n) (hfit : len + size es < 2 ^ 64) :
    ∃ W' done rest, adjustLoop n es.length len W = (W', done.map fun e => .succ e.1) ∧ es = done ++ rest ∧
      W'.Holds (Core.cut (n - (len + size done)) rest) ∧ W'.iovCnt = W.iovCnt ∧ len + size done ≤ n ∧
      ∀ e ∈ rest.head?, n < len + size done + e.2.iovLen := by
  induction es generalizing W len with
  | nil => exact ⟨W, [], [], rfl, rfl, h, rfl, hlen, by simp⟩
  | cons e es ih =>
    rw [size_cons] at hfit
    have hget := h.get 0 e rfl
    have hv : W.iov W.iovIdx = e.2 := congrArg Prod.snd hget
    have ho : W.orig W.iovIdx = e.1 := congrArg Prod.fst hget
    have hmod : (len + e.2.iovLen) % 2 ^ 64 = len + e.2.iovLen := Nat.mod_eq_of_lt (by omega)
    simp only [List.length_cons, adjustLoop, hv, ho, hmod]
    by_cases hout : len + e.2.iovLen ≤ n
    · rw [if_pos hout]
      obtain ⟨W', done, rest, hloop, hes, hholds, hcnt, hle, hnext⟩ := ih h.tail hout (by omega)
      refine ⟨W', e :: done, rest, by rw [hloop]; rfl, by rw [hes]; rfl, ?_, hcnt, ?_, ?_⟩
      · rwa [size_cons, ← Nat.add_assoc]
      · rwa [size_cons, ← Nat.add_assoc]
      · rwa [size_cons, ← Nat.add_assoc]
    · rw [if_neg hout]
      refine ⟨_, [], e :: es, rfl, rfl, ?_, rfl, hlen, ?_⟩
      · exact h.cut (n - len) _ (by omega)
      · intro e' he'
        obtain rfl : e = e' := Option.some.inj he'
        exact Nat.lt_of_not_le hout

theorem wiovItemAdjust_spec (h : W.Holds es) (hfit : size es < 2 ^ 64) :
    ∃ W' done rest, W.wiovItemAdjust n = (W', done.map fun e => .succ e.1) ∧ es = done ++ rest ∧
      W'.Holds (Core.cut (n - size done) rest) ∧ size done ≤ n ∧ ∀ e ∈ rest.head?, n < size done + e.2.iovLen := by
  obtain ⟨W', done, rest, hloop, hes, hholds, hcnt, hle, hnext⟩ := adjustLoop_spec h (Nat.zero_le n) (by omega)
  simp only [Nat.zero_add] at hholds hle hnext
  have hnum : W.iovCnt - W.iovIdx = es.length := by have := h.cnt; omega
  unfold wiovItemAdjust
  rw [hnum, hloop]
  simp only
  split
  · -- everything has gone out
    rename_i hall
    have hrest : rest = [] := by
      have := hholds.cnt
      rw [length_cut, hall] at this
      exact List.length_eq_zero_iff.1 (by omega)
    subst hrest
    exact ⟨_, done, [], rfl, hes, ⟨rfl, Nat.zero_le _, fun _ _ he => by simp [Core.cut] at he⟩, hle, hnext⟩
  · exact ⟨W', done, rest, rfl, hes, hholds, hle, hnext⟩

theorem cleanLoop_called (num : Nat) : ∀ (idx : Nat) (W : Wiov) (es : List Entry), es.length = num →
    (∀ i e, es[i]? = some e → (W.orig (idx + i), W.iov (idx + i)) = e) →
    (cleanLoop num idx W).2 = es.map fun e => .fail e.1 := by
  induction num with
  | zero =>
    intro idx W es hnum _
    rw [List.length_eq_zero_iff.1 hnum]
    rfl
  | succ num ih =>
    intro idx W es hnum hget
    cases es with
    | nil => cases hnum
    | cons e es =>
      have ho : W.orig idx = e.1 := congrArg Prod.fst (hget 0 e rfl)
      rw [cleanLoop, List.map_cons, ho, ih (idx + 1) _ es (Nat.succ.inj hnum)]
      intro i e' he'
      have hne : idx + 1 + i ≠ idx := by omega
      simp only [wiovItemReset, Function.update_of_ne hne]
      rw [Nat.add_assoc, Nat.add_comm 1 i]
      exact hget (i + 1) e' he'

theorem Holds.clean (h : W.Holds es) : W.wiovClean.2 = es.map fun e => .fail e.1 := by
  have hnum : W.iovCnt - W.iovIdx = es.length := by have := h.cnt; omega
  unfold wiovClean
  rw [hnum]
  exact cleanLoop_called es.length W.iovIdx W es rfl h.get

end Wiov

/-! ## The items and what has gone out -/

/-- The bytes of the items. -/
def wire (mem : Nat → Byte) (items : List WiovOrig) : List Byte :=
  items.flatMap fun item => bytes mem item.addr item.len

@[simp] theorem wire_append (items items' : List WiovOrig) :
    wire mem (items ++ items') = wire mem items ++ wire mem items' :=
  List.flatMap_append

theorem wire_cons (item : WiovOrig) (items : List WiovOrig) :
    wire mem (item :: items) = bytes mem item.addr item.len ++ wire mem items := rfl

theorem size_whole (items : List WiovOrig) : size (items.map WiovOrig.whole) = (wire mem items).length := by
  induction items with
  | nil => rfl
  | cons item items ih => rw [List.map_cons, size_cons, ih, wire_cons, List.length_append, length_bytes]; rfl

theorem wire_whole (items : List WiovOrig) :
    ((items.map WiovOrig.whole).map Prod.snd).flatMap (Iovec.bytes mem) = wire mem items := by
  rw [List.map_map, List.flatMap_map]
  rfl

/-- `off` bytes of the first item have gone out, and not all of them unless it has none. -/
def Begun (left : List WiovOrig) (off : Nat) : Prop := off = 0 ∨ ∃ item ∈ left.head?, off < item.len

theorem Begun.le {item : WiovOrig} {items : List WiovOrig} {off : Nat} (h : Begun (item :: items) off) :
    off ≤ item.len := by
  rcases h with rfl | ⟨_, hitem, hlt⟩
  · exact Nat.zero_le _
  · obtain rfl := Option.some.inj hitem
    exact hlt.le

theorem Begun.nil {off : Nat} (h : Begun [] off) : off = 0 := by
  rcases h with rfl | ⟨_, hitem, -⟩
  · rfl
  · cases hitem

theorem wire_cut {left : List WiovOrig} {off : Nat} (h : Begun left off) :
    ((cut off (left.map WiovOrig.whole)).map Prod.snd).flatMap (Iovec.bytes mem) = (wire mem left).drop off := by
  cases left with
  | nil => simp [wire, cut]
  | cons item items =>
    rw [wire_cons, List.drop_append_of_le_length (by rw [length_bytes]; exact h.le), drop_bytes, ← wire_whole]
    rfl

theorem size_cut {left : List WiovOrig} {off : Nat} (h : Begun left off) :
    size (cut off (left.map WiovOrig.whole)) + off = (wire mem left).length := by
  cases left with
  | nil => rw [h.nil]; rfl
  | cons item items =>
    have hle := h.le
    rw [List.map_cons, WiovOrig.whole, cut, size_cons, @size_whole mem, wire_cons, List.length_append, length_bytes]
    simp only
    omega

theorem cut_cut (es : List Entry) (j k : Nat) : cut k (cut j es) = cut (j + k) es := by
  cases es with
  | nil => rfl
  | cons e es => simp [cut, Nat.add_assoc, Nat.sub_sub]

namespace Sender

variable {s s' : Sender} {items done left : List WiovOrig} {off : Nat}

/-- The items that have gone out, and those that have not. -/
structure Sends (mem : Nat → Byte) (s : Sender) (done left : List WiovOrig) (off : Nat) : Prop where
  holds : s.wiov.Holds (cut off (left.map WiovOrig.whole))
  called : s.called = done.map .succ
  sent : s.sent = wire mem done ++ (wire mem left).take off
  begun : Begun left off

theorem init_sends (max : Nat) : (init max).Sends mem [] [] 0 := ⟨Wiov.wiovInit_holds max, rfl, rfl, .inl rfl⟩

theorem Sends.add (h : s.Sends mem done left off) {item : WiovOrig} (hstep : s.step mem (.add item) = some s') :
    s'.Sends mem done (left ++ [item]) off := by
  rw [step] at hstep
  split at hstep
  · cases hstep
  rename_i hfull
  obtain ⟨W', hadd, hholds⟩ := h.holds.add item (by simpa using hfull)
  rw [hadd] at hstep
  cases hstep
  cases left with
  | nil =>
    obtain rfl := h.begun.nil
    exact ⟨hholds, h.called, by rw [h.sent]; rfl, .inl rfl⟩
  | cons first left =>
    refine ⟨by simpa [cut] using hholds, h.called, ?_, h.begun⟩
    rw [h.sent, wire_append, List.take_append_of_le_length]
    rw [wire_cons, List.length_append, length_bytes]
    exact h.begun.le.trans (Nat.le_add_right _ _)

theorem Sends.write (h : s.Sends mem done left off) {n : Nat} (hstep : s.step mem (.write n) = some s') :
    ∃ more left' off', left = more ++ left' ∧ s'.Sends mem (done ++ more) left' off' := by
  rw [step, h.holds.items, wire_cut h.begun] at hstep
  split at hstep
  swap
  · cases hstep
  rename_i hn
  cases hstep
  rw [List.length_drop] at hn
  have hsize := @size_cut mem _ _ h.begun
  have hfit : size (cut off (left.map WiovOrig.whole)) < 2 ^ 64 := by
    have hmax : SSIZE_MAX < 2 ^ 64 := by decide
    omega
  obtain ⟨W', out, rest, hadjust, hes, hholds, hle, hnext⟩ := Wiov.wiovItemAdjust_spec (n := n) h.holds hfit
  have hsent : s.sent ++ ((wire mem left).drop off).take n = wire mem done ++ (wire mem left).take (off + n) := by
    rw [h.sent, List.append_assoc, List.take_add]
  rw [hadjust, hsent]
  cases out with
  | nil =>
    -- the first item has not gone out
    obtain rfl : rest = _ := hes.symm
    rw [cut_cut] at hholds
    refine ⟨[], left, off + n, rfl, ⟨hholds, ?_, by rw [List.append_nil], ?_⟩⟩
    · simp [h.called]
    · cases left with
      | nil =>
        have hzero := h.begun.nil
        simp [wire] at hn
        exact .inl (by omega)
      | cons item left =>
        have := hnext _ rfl
        simp only [size, List.map_nil, List.sum_nil] at this
        exact .inr ⟨item, rfl, by omega⟩
  | cons e out =>
    cases left with
    | nil => cases hes
    | cons item left =>
      obtain ⟨he, hrest⟩ := List.cons.inj hes
      have hitem : e.1 = item := by rw [← he]
      have hv : e.2.iovLen = item.len - off := by rw [← he]
      obtain ⟨more, left', rfl, rfl, rfl⟩ :=
        List.map_eq_append_iff.1 (show left.map WiovOrig.whole = out ++ rest from hrest)
      have hle' := h.begun.le
      have hout : size (e :: more.map WiovOrig.whole) + off = (wire mem (item :: more)).length := by
        rw [size_cons, @size_whole mem, wire_cons, List.length_append, length_bytes]
        omega
      refine ⟨item :: more, left', n - size (e :: more.map WiovOrig.whole), rfl, hholds, ?_, ?_, ?_⟩
      · simp [h.called, hitem, WiovOrig.whole]
      · rw [wire_append, ← List.cons_append, wire_append, List.append_assoc, List.take_append,
          List.take_of_length_le (by omega)]
        rw [show off + n - (wire mem (item :: more)).length = n - size (e :: more.map WiovOrig.whole) by omega]
      · cases left' with
        | nil =>
          have hall : (wire mem (item :: (more ++ []))).length = (wire mem (item :: more)).length := by
            rw [List.append_nil]
          exact .inl (by omega)
        | cons next left' =>
          have := hnext _ rfl
          exact .inr ⟨next, rfl, by simp only [WiovOrig.whole] at this ⊢; omega⟩

/-! ## Runs -/

/-- The items added. -/
def added : List WiovOp → List WiovOrig := List.filterMap fun
  | .add item => some item
  | .write _ => none

theorem run_sends (ops : List WiovOp) : ∀ {s s' : Sender} {done left : List WiovOrig} {off : Nat},
    s.Sends mem done left off → ops.foldlM (step mem) s = some s' →
    ∃ done' left' off', s'.Sends mem done' left' off' ∧ done' ++ left' = done ++ left ++ added ops := by
  induction ops with
  | nil =>
    intro s s' done left off h hrun
    cases hrun
    exact ⟨done, left, off, h, (List.append_nil _).symm⟩
  | cons op ops ih =>
    intro s s' done left off h hrun
    rw [List.foldlM_cons, Option.bind_eq_bind, Option.bind_eq_some_iff] at hrun
    obtain ⟨s₁, hstep, hrun⟩ := hrun
    cases op with
    | add item =>
      obtain ⟨done', left', off', h', hall⟩ := ih (h.add hstep) hrun
      exact ⟨done', left', off', h', by simp [hall, added]⟩
    | write n =>
      obtain ⟨more, left₁, off₁, rfl, h₁⟩ := h.write hstep
      obtain ⟨done', left', off', h', hall⟩ := ih h₁ hrun
      exact ⟨done', left', off', h', by simp [hall, added]⟩

/-- What goes out is the items one after the other. Before the clean-up the items that have gone out
have had their success callback, and no other item a callback; it calls the failure callback of the
others, the first of which has not gone out as a whole, if it has any bytes. -/
def Delivers (mem : Nat → Byte) (items : List WiovOrig) (s : Sender) : Prop :=
  ∃ done left part, done ++ left = items ∧ s.sent = wire mem done ++ part ∧ part <+: wire mem left ∧
    (∀ item ∈ left.head?, part.length < item.len ∨ item.len = 0 ∧ part = []) ∧
    s.called = done.map .succ ∧ s.clean.sent = s.sent ∧ s.clean.called = done.map .succ ++ left.map .fail

theorem items_delivered (max : Nat) (ops : List WiovOp) (s : Sender)
    (hrun : ops.foldlM (step mem) (init max) = some s) : s.Delivers mem (added ops) := by
  obtain ⟨done, left, off, h, hall⟩ := run_sends ops (init_sends max) hrun
  refine ⟨done, left, (wire mem left).take off, hall, h.sent, List.take_prefix _ _, ?_, h.called, rfl, ?_⟩
  · intro item hitem
    obtain ⟨left, rfl⟩ : ∃ rest, left = item :: rest := by
      cases left with
      | nil => cases hitem
      | cons first rest => exact ⟨rest, by rw [Option.some.inj hitem]⟩
    rw [List.length_take]
    rcases h.begun with rfl | ⟨_, hitem', hlt⟩
    · rcases Nat.eq_zero_or_pos item.len with hzero | hpos
      · exact .inr ⟨hzero, rfl⟩
      · exact .inl (by omega)
    · obtain rfl := Option.some.inj hitem'
      exact .inl (by omega)
  · simp only [clean, h.called, h.holds.clean]
    cases left with
    | nil => rfl
    | cons item left => simp [cut, WiovOrig.whole]

/-- The second item is cut in its middle. -/
theorem items_delivered_two : ∃ s, ([.add ⟨10, 3, 0, 1, 2⟩, .add ⟨20, 2, 0, 1, 2⟩, .write 4] : List WiovOp).foldlM
      (step fun a => BitVec.ofNat 8 a) (init 2) = some s ∧
    s.Delivers (fun a => BitVec.ofNat 8 a) [⟨10, 3, 0, 1, 2⟩, ⟨20, 2, 0, 1, 2⟩] :=
  ⟨_, rfl, items_delivered 2 [.add ⟨10, 3, 0, 1, 2⟩, .add ⟨20, 2, 0, 1, 2⟩, .write 4] _ rfl⟩

end Sender

/-! ## What is still to write -/

/-- The bytes of an entry. -/
def Entry.bytes (e : Entry) : List (Nat × Nat) :=
  (List.range' (e.2.iovBase - e.1.addr) e.2.iovLen).map fun off => (e.1.addr, off)

/-- All the bytes of an item, from `addr` on. -/
def wholeBytes (addr len : Nat) : List (Nat × Nat) := (List.range len).map fun off => (addr, off)

/-- The entry is the end of its item. -/
structure Entry.Part (e : Entry) : Prop where
  base : e.1.addr ≤ e.2.iovBase
  len : e.2.iovBase + e.2.iovLen = e.1.addr + e.1.len

variable {e : Entry} {es : List Entry} {item : WiovOrig} {n k : Nat}

@[simp] theorem Entry.length_bytes (e : Entry) : e.bytes.length = e.2.iovLen := by simp [Entry.bytes]

theorem length_flatMap_bytes (es : List Entry) : (es.flatMap Entry.bytes).length = size es := by
  simp [List.length_flatMap, size]

theorem size_le {b : Nat} (hes : ∀ e ∈ es, e.2.iovLen ≤ b) : size es ≤ es.length * b := by
  induction es with
  | nil => exact Nat.zero_le _
  | cons e es ih =>
    have hle := hes e List.mem_cons_self
    have hrest := ih fun e he => hes e (List.mem_cons_of_mem _ he)
    rw [size_cons, List.length_cons, Nat.succ_mul]
    omega

theorem Entry.mem_bytes {b : Nat × Nat} (hb : b ∈ e.bytes) : b.1 = e.1.addr := by
  obtain ⟨_, -, rfl⟩ := List.mem_map.1 hb
  rfl

theorem whole_part (item : WiovOrig) : Entry.Part item.whole := ⟨le_refl _, rfl⟩

theorem bytes_whole (item : WiovOrig) : Entry.bytes item.whole = wholeBytes item.addr item.len := by
  simp [Entry.bytes, WiovOrig.whole, wholeBytes, List.range_eq_range']

theorem cut_part (hes : ∀ e ∈ es, e.Part) (hk : ∀ e ∈ es.head?, k ≤ e.2.iovLen) : ∀ e ∈ cut k es, e.Part := by
  cases es with
  | nil => exact hes
  | cons e es =>
    have hle := hk e rfl
    obtain ⟨hbase, hlen⟩ := hes e List.mem_cons_self
    intro e' he'
    rcases List.mem_cons.1 he' with rfl | he'
    · constructor
      · simp only
        omega
      · simp only
        omega
    · exact hes e' (List.mem_cons_of_mem _ he')

theorem bytes_cut (hes : ∀ e ∈ es, e.Part) (hk : ∀ e ∈ es.head?, k ≤ e.2.iovLen) :
    (cut k es).flatMap Entry.bytes = (es.flatMap Entry.bytes).drop k := by
  cases es with
  | nil => simp [cut]
  | cons e es =>
    have hle := hk e rfl
    have hbase := (hes e List.mem_cons_self).base
    have hstart : e.2.iovBase + k - e.1.addr = e.2.iovBase - e.1.addr + k := by omega
    rw [List.flatMap_cons, List.drop_append_of_le_length (by rw [Entry.length_bytes]; exact hle), cut,
      List.flatMap_cons, Entry.bytes, Entry.bytes, hstart, ← List.map_drop, List.drop_range', Nat.mul_one]

namespace Wiov

variable {W W' : Wiov}

theorem Holds.pending (h : W.Holds es) : W.pending = es.flatMap Entry.bytes := by
  have hnum : W.iovCnt - W.iovIdx = es.length := by have := h.cnt; omega
  have hes : es = (List.range' W.iovIdx es.length).map fun i => (W.orig i, W.iov i) := by
    refine List.ext_getElem (by simp) fun i h₁ h₂ => ?_
    have hi := h.get i es[i] (List.getElem?_eq_getElem h₁)
    simp [← hi]
  rw [Wiov.pending, hnum]
  conv_rhs => rw [hes, List.flatMap_map]
  rfl

theorem wiovClean_holds (W : Wiov) : W.wiovClean.1.Holds [] := ⟨rfl, Nat.zero_le _, fun _ _ he => by simp at he⟩

theorem pending_clean : W.wiovClean.1.pending = [] := rfl

theorem iovMax_cleanLoop (num : Nat) : ∀ (idx : Nat) (W : Wiov), (cleanLoop num idx W).1.iovMax = W.iovMax := by
  induction num with
  | zero => exact fun _ _ => rfl
  | succ num ih => exact fun idx W => ih (idx + 1) (W.wiovItemReset idx)

theorem iovMax_clean (W : Wiov) : W.wiovClean.1.iovMax = W.iovMax := iovMax_cleanLoop _ _ W

theorem iovMax_adjustLoop (n num : Nat) : ∀ (len : Nat) (W : Wiov), (adjustLoop n num len W).1.iovMax = W.iovMax := by
  induction num with
  | zero => exact fun _ _ => rfl
  | succ num ih =>
    intro len W
    rw [adjustLoop]
    split
    · exact ih _ _
    · rfl

theorem iovMax_adjust (W : Wiov) (n : Nat) : (W.wiovItemAdjust n).1.iovMax = W.iovMax := by
  rw [wiovItemAdjust]
  split
  · exact iovMax_adjustLoop n _ 0 W
  · exact iovMax_adjustLoop n _ 0 W

theorem iovMax_add (h : W.wiovItemAdd item = some W') : W'.iovMax = W.iovMax := by
  rw [wiovItemAdd] at h
  split at h
  · cases h
    rfl
  · cases h

/-- What an addition does, if there is place for it. -/
theorem Holds.of_add (h : W.Holds es) (hadd : W.wiovItemAdd item = some W') : W'.Holds (es ++ [item.whole]) := by
  have hfull : W.wiovIsfull = false := by
    rw [wiovItemAdd] at hadd
    split at hadd
    · rename_i hlt
      simpa [wiovIsfull] using hlt.ne'
    · cases hadd
  obtain ⟨W'', hadd', hholds⟩ := h.add item hfull
  cases hadd.symm.trans hadd'
  exact hholds

theorem Holds.pending_add (h : W.Holds es) (hadd : W.wiovItemAdd item = some W') :
    W'.pending = W.pending ++ wholeBytes item.addr item.len := by
  rw [(h.of_add hadd).pending, h.pending, List.flatMap_append, ← bytes_whole]
  simp

/-- The bytes that are written are gone from the front. -/
theorem Holds.adjust (h : W.Holds es) (hfit : size es < 2 ^ 64) (hes : ∀ e ∈ es, e.Part) :
    ∃ done rest k, W.wiovItemAdjust n = ((W.wiovItemAdjust n).1, done.map fun e => .succ e.1) ∧ es = done ++ rest ∧
      (W.wiovItemAdjust n).1.Holds (Core.cut k rest) ∧ (∀ e ∈ Core.cut k rest, e.Part) ∧
      (W.wiovItemAdjust n).1.pending = W.pending.drop n := by
  obtain ⟨W', done, rest, hadj, rfl, hholds, hle, hnext⟩ := wiovItemAdjust_spec (n := n) h hfit
  have hk : ∀ e ∈ rest.head?, n - size done ≤ e.2.iovLen := fun e he => by
    have := hnext e he
    omega
  have hrest : ∀ e ∈ rest, e.Part := fun e he => hes e (List.mem_append_right _ he)
  rw [hadj]
  refine ⟨done, rest, n - size done, rfl, rfl, hholds, cut_part hrest hk, ?_⟩
  rw [hholds.pending, bytes_cut hrest hk, h.pending, List.flatMap_append, List.drop_append, length_flatMap_bytes]
  have hdone : (done.flatMap Entry.bytes).length ≤ n := by rw [length_flatMap_bytes]; exact hle
  rw [List.drop_eq_nil_of_le hdone, List.nil_append]

end Wiov

end BeehiveIm.Core
