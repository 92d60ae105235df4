/-
What goes out of an outbox is the messages that were put there, whole and one after the other, the
last of them in part. A message is released when it has gone out as a whole; until then it lies in
the list as it was made, or in the buffer as it goes out.
-/
import BeehiveIm.Rtmq.Outbox

namespace BeehiveIm.Rtmq

open BeehiveIm.Lib BeehiveIm.Core

/-! ## The buffer -/

section Buffer

variable {W W' : Wiov} {left : List WiovOrig} {item : WiovOrig} {es : List Entry} {off n : Nat}

/-- How many bytes the items have. -/
def total (items : List WiovOrig) : Nat := (items.map WiovOrig.len).sum

theorem length_wire_total {mem : Nat → Byte} (items : List WiovOrig) :
    (Core.wire mem items).length = total items := by
  simp [Core.wire, total, List.length_flatMap]

theorem holds_addrs (h : W.Holds es) : wiovAddrs W = es.map fun e => e.1.addr := by
  have hnum : W.iovCnt - W.iovIdx = es.length := by have := h.cnt; omega
  rw [wiovAddrs, hnum]
  apply List.ext_getElem
  · simp
  · intro i h₁ h₂
    rw [List.length_map] at h₂
    have hget := congrArg Prod.fst (h.get i es[i] (List.getElem?_eq_getElem h₂))
    simp only at hget
    simp [hget]

theorem cut_addrs (k : Nat) (es : List Entry) : ((cut k es).map fun e => e.1.addr) = es.map fun e => e.1.addr := by
  cases es <;> rfl

theorem begun_addrs (h : W.Holds (cut off (left.map WiovOrig.whole))) : wiovAddrs W = left.map WiovOrig.addr := by
  rw [holds_addrs h, cut_addrs, List.map_map]
  rfl

/-- What is still to be written is the bytes of the items, without those that have gone out. -/
theorem begun_pending (h : W.Holds (cut off (left.map WiovOrig.whole))) (hb : Begun left off) :
    W.pending = (left.flatMap fun item => wholeBytes item.addr item.len).drop off := by
  have hpart : ∀ e ∈ left.map WiovOrig.whole, e.Part := by
    intro e he
    obtain ⟨item, -, rfl⟩ := List.mem_map.1 he
    exact whole_part item
  have hk : ∀ e ∈ (left.map WiovOrig.whole).head?, off ≤ e.2.iovLen := by
    intro e he
    cases left with
    | nil => cases he
    | cons item left =>
      obtain rfl := Option.some.inj he
      exact hb.le
  rw [h.pending, bytes_cut hpart hk, List.flatMap_map]
  simp only [bytes_whole]

theorem length_wholeBytes (items : List WiovOrig) :
    (items.flatMap fun item => wholeBytes item.addr item.len).length = total items := by
  simp [total, List.length_flatMap, wholeBytes]

/-- What `writev` leaves: the items that have gone out are called back. -/
theorem begun_adjust (h : W.Holds (cut off (left.map WiovOrig.whole))) (hb : Begun left off)
    (hn : n ≤ W.pending.length) (hmax : total left ≤ SSIZE_MAX) :
    ∃ more left' off', left = more ++ left' ∧ (W.wiovItemAdjust n).1.Holds (cut off' (left'.map WiovOrig.whole)) ∧
      Begun left' off' ∧ (W.wiovItemAdjust n).2 = more.map .succ ∧ off + n = total more + off' := by
  let mem : Nat → Byte := fun _ => 0
  let s : Sender := ⟨W, (Core.wire mem left).take off, []⟩
  have hs : s.Sends mem [] left off := ⟨h, rfl, rfl, hb⟩
  have hsize := @size_cut mem left off hb
  rw [length_wire_total] at hsize
  have hout : (W.items.flatMap (Iovec.bytes mem)).length = total left - off := by
    rw [h.items, wire_cut hb, List.length_drop, length_wire_total]
  rw [begun_pending h hb, List.length_drop, length_wholeBytes] at hn
  have hstep : s.step mem (.write n) = some ⟨(W.wiovItemAdjust n).1,
      (Core.wire mem left).take off ++ (W.items.flatMap (Iovec.bytes mem)).take n, (W.wiovItemAdjust n).2⟩ := by
    have hok : n ≤ (W.items.flatMap (Iovec.bytes mem)).length ∧
        (W.items.flatMap (Iovec.bytes mem)).length ≤ SSIZE_MAX := by
      omega
    exact if_pos hok
  obtain ⟨more, left', off', hleft, hs'⟩ := hs.write hstep
  refine ⟨more, left', off', hleft, hs'.holds, hs'.begun, ?_, ?_⟩
  · simpa using hs'.called
  · have hlen := congrArg List.length hs'.sent
    have hle : off' ≤ total left' := by
      have := @size_cut mem left' off' hs'.begun
      rw [length_wire_total] at this
      omega
    simp only [List.nil_append, List.length_append, List.length_take, length_wire_total, hout] at hlen
    omega

end Buffer

/-! ## An outbox -/

namespace Outbox

variable {len : BitVec 32 → Nat} {frame frame' : Nat → List Byte} {mem mem' : Heap} {o : Outbox}
variable {done : List Nat} {left : List WiovOrig} {off n : Nat}

/-- The messages as they go out. -/
def frames (frame : Nat → List Byte) (addrs : List Nat) : List Byte := addrs.flatMap frame

/-- The messages that have gone out, and those of which the buffer has a part. -/
structure Sends (len : BitVec 32 → Nat) (frame : Nat → List Byte) (mem : Heap) (o : Outbox) (done : List Nat)
    (left : List WiovOrig) (off : Nat) : Prop where
  holds : o.send.Holds (cut off (left.map WiovOrig.whole))
  max : o.send.iovMax ≤ Wiov.IOV_MAX
  begun : Begun left off
  queued : o.queued = done ++ (left.map WiovOrig.addr ++ o.mesgList)
  wire : o.wire = (frames frame done ++ (frames frame (left.map WiovOrig.addr)).take off).map some
  buff : ∀ item ∈ left, item.len = (frame item.addr).length ∧ (0 < item.len ∧ item.len ≤ 2 ^ 33) ∧
    mem item.addr = some (frame item.addr)
  list : ∀ a ∈ o.mesgList, ∃ m : Mesg, m.Fits len ∧ frame a = m.wire ∧ mem a = some m.host

/-- An outbox that nothing was put into. -/
structure Fresh (o : Outbox) : Prop where
  holds : o.send.Holds []
  max : o.send.iovMax ≤ Wiov.IOV_MAX
  mesgList : o.mesgList = []
  queued : o.queued = []
  wire : o.wire = []

theorem init_fresh (max : Nat) : (init max).Fresh where
  holds := Wiov.wiovInit_holds max
  max := by
    simp only [init, Wiov.wiovInit]
    split <;> omega
  mesgList := rfl
  queued := rfl
  wire := rfl

theorem Fresh.sends (h : o.Fresh) : o.Sends len frame mem [] [] 0 where
  holds := h.holds
  max := h.max
  begun := .inl rfl
  queued := by
    rw [h.queued, h.mesgList]
    rfl
  wire := h.wire
  buff _ h := by cases h
  list a ha := by
    rw [h.mesgList] at ha
    cases ha

theorem Fresh.held (h : o.Fresh) : o.held = [] := by
  rw [Outbox.held, h.mesgList, holds_addrs h.holds]
  rfl

theorem Sends.held (h : o.Sends len frame mem done left off) : o.held = left.map WiovOrig.addr ++ o.mesgList := by
  rw [Outbox.held, begun_addrs h.holds]

theorem Sends.queued_eq (h : o.Sends len frame mem done left off) : o.queued = done ++ o.held := by
  rw [h.held, h.queued]

/-- Other memory, and messages that were never put there, do not matter. -/
theorem Sends.congr (h : o.Sends len frame mem done left off) (hframe : ∀ a ∈ o.queued, frame' a = frame a)
    (hmem : ∀ a ∈ o.held, mem' a = mem a) : o.Sends len frame' mem' done left off := by
  rw [h.queued] at hframe
  rw [h.held] at hmem
  have hdone : frames frame' done = frames frame done :=
    List.flatMap_congr fun a ha => hframe a (List.mem_append_left _ ha)
  have hleft : frames frame' (left.map WiovOrig.addr) = frames frame (left.map WiovOrig.addr) :=
    List.flatMap_congr fun a ha => hframe a (List.mem_append_right _ (List.mem_append_left _ ha))
  refine ⟨h.holds, h.max, h.begun, h.queued, ?_, fun item hi => ?_, fun a ha => ?_⟩
  · rw [h.wire, hdone, hleft]
  · have ha : item.addr ∈ left.map WiovOrig.addr := List.mem_map_of_mem hi
    rw [hframe _ (List.mem_append_right _ (List.mem_append_left _ ha)), hmem _ (List.mem_append_left _ ha)]
    exact h.buff item hi
  · rw [hframe a (List.mem_append_right _ (List.mem_append_right _ ha)), hmem a (List.mem_append_right _ ha)]
    exact h.list a ha

theorem held_push (o : Outbox) (a : Nat) : (o.push a).held = o.held ++ [a] := (List.append_assoc ..).symm

theorem Sends.push (h : o.Sends len frame mem done left off) {a : Nat} {m : Mesg} (hfits : m.Fits len)
    (hframe : frame a = m.wire) (hmem : mem a = some m.host) : (o.push a).Sends len frame mem done left off where
  holds := h.holds
  max := h.max
  begun := h.begun
  queued := by rw [Outbox.push, h.queued, List.append_assoc, List.append_assoc]
  wire := h.wire
  buff := h.buff
  list b hb := by
    rcases List.mem_append.1 hb with hb | hb
    · exact h.list b hb
    · obtain rfl := List.mem_singleton.1 hb
      exact ⟨m, hfits, hframe, hmem⟩

/-- An item more in the buffer, none of which has gone out. -/
theorem begun_append {left : List WiovOrig} {off : Nat} (hb : Begun left off) (item : WiovOrig) :
    Begun (left ++ [item]) off ∧
      cut off (left.map WiovOrig.whole) ++ [item.whole] = cut off ((left ++ [item]).map WiovOrig.whole) := by
  cases left with
  | nil =>
    obtain rfl := hb.nil
    exact ⟨.inl rfl, rfl⟩
  | cons first left => exact ⟨hb, by simp [cut]⟩

theorem frames_append (frame : Nat → List Byte) (addrs addrs' : List Nat) :
    frames frame (addrs ++ addrs') = frames frame addrs ++ frames frame addrs' := List.flatMap_append

theorem length_frames (h : ∀ item ∈ left, item.len = (frame item.addr).length) :
    (frames frame (left.map WiovOrig.addr)).length = total left := by
  rw [frames, List.flatMap_map, List.length_flatMap, total]
  exact congrArg List.sum (List.map_congr_left fun item hi => (h item hi).symm)

theorem begun_le_total {left : List WiovOrig} {off : Nat} (hb : Begun left off) : off ≤ total left := by
  cases left with
  | nil => exact (hb.nil).le
  | cons item left =>
    have hle := hb.le
    rw [total, List.map_cons, List.sum_cons]
    omega

/-- A message that lies in memory as it was made goes into the buffer as it goes out. -/
theorem Sends.load (h : o.Sends len frame mem done left off) (param : Nat) {a : Nat} {mesgList : List Nat} {m : Mesg}
    (hq : o.queued = done ++ (left.map WiovOrig.addr ++ a :: mesgList))
    (hl : ∀ b ∈ mesgList, ∃ m : Mesg, m.Fits len ∧ frame b = m.wire ∧ mem b = some m.host)
    (hfits : m.Fits len) (hframe : frame a = m.wire) (hmem : mem a = some m.host)
    (hn : (left.map WiovOrig.addr ++ a :: mesgList).Nodup) (hfull : o.send.wiovIsfull = false) :
    ∃ W', wiovLoad len param mem o.send a = some (Function.update mem a (some m.wire), W') ∧
      Sends len frame (Function.update mem a (some m.wire)) { o with mesgList := mesgList, send := W' } done
        (left ++ [⟨a, m.wire.length, param, 1, 1⟩]) off := by
  have hsum : headWord m.host 4 = RTMQ_CHKSUM_VAL := Mesg.headWord_host rfl
  have hlen : len (headWord m.host 3) = m.wire.length := by
    rw [Mesg.headWord_host (w := BitVec.ofNat 32 m.data.length) rfl, hfits.len]
  let item : WiovOrig := ⟨a, m.wire.length, param, 1, 1⟩
  obtain ⟨W', hadd, hholds⟩ := h.holds.add item hfull
  obtain ⟨hb, hcut⟩ := begun_append h.begun item
  rw [hcut] at hholds
  refine ⟨W', ?_, ⟨hholds, ?_, hb, ?_, ?_, ?_, ?_⟩⟩
  · rw [wiovLoad, hmem, Option.bind_some, if_neg (by simp [hsum]), hlen, hadd, Mesg.rtmqHeadHton_host]
    rfl
  · rw [Wiov.iovMax_add hadd]
    exact h.max
  · simp [hq]
  · have hle := begun_le_total h.begun
    have hbuff : ∀ item ∈ left, item.len = (frame item.addr).length := fun item hi => (h.buff item hi).1
    rw [← length_frames hbuff] at hle
    rw [List.map_append (f := WiovOrig.addr), frames_append, List.take_append_of_le_length hle]
    exact h.wire
  · intro item' hi
    rcases List.mem_append.1 hi with hi | hi
    · have haddr : item'.addr ∈ left.map WiovOrig.addr := List.mem_map_of_mem hi
      have hne : item'.addr ≠ a := (List.nodup_append.1 hn).2.2 _ haddr _ List.mem_cons_self
      rw [Function.update_of_ne hne]
      exact h.buff item' hi
    · obtain rfl := List.mem_singleton.1 hi
      rw [hframe, Function.update_self]
      exact ⟨rfl, ⟨m.wire_pos, hfits.le⟩, rfl⟩
  · intro b hmem'
    have hne : b ≠ a := by
      rintro rfl
      exact (List.nodup_cons.1 (List.nodup_append.1 hn).2.1).1 hmem'
    rw [Function.update_of_ne hne]
    exact hl b hmem'

/-- The list goes into the buffer as far as there is place. What it holds stays as it
is, and other memory too. -/
theorem Sends.fill (mesgList : List Nat) : ∀ {mem : Heap} {o : Outbox} {left : List WiovOrig},
    o.Sends len frame mem done left off → o.mesgList = mesgList → o.held.Nodup →
    ∃ mesgList' mem' W' left', wiovFill len mesgList mem o.send = some (mesgList', mem', W') ∧
      Sends len frame mem' { o with mesgList := mesgList', send := W' } done left' off ∧
      Outbox.held { o with mesgList := mesgList', send := W' } = o.held ∧ ∀ a ∉ o.held, mem' a = mem a := by
  induction mesgList with
  | nil =>
    intro mem o left h hl hn
    have hsame : { o with mesgList := [], send := o.send } = o := by rw [← hl]
    refine ⟨[], mem, o.send, left, rfl, ?_, ?_, fun _ _ => rfl⟩
    · rwa [hsame]
    · rw [hsame]
  | cons a mesgList ih =>
    intro mem o left h hl hn
    rw [wiovFill]
    split
    · have hsame : { o with mesgList := a :: mesgList, send := o.send } = o := by rw [← hl]
      refine ⟨a :: mesgList, mem, o.send, left, rfl, ?_, ?_, fun _ _ => rfl⟩
      · rwa [hsame]
      · rw [hsame]
    · rename_i hfull
      have hq := h.queued
      rw [hl] at hq
      have hlist := h.list
      rw [hl] at hlist
      obtain ⟨m, hfits, hframe, hmem⟩ := hlist a List.mem_cons_self
      have hn' := hn
      rw [h.held, hl] at hn'
      obtain ⟨W₁, hload, h₁⟩ := h.load 0 hq (fun b hb => hlist b (List.mem_cons_of_mem _ hb)) hfits hframe hmem
        hn' (by simpa using hfull)
      have hheld : Outbox.held { o with mesgList := mesgList, send := W₁ } = o.held := by
        rw [h₁.held, h.held, hl]
        simp
      obtain ⟨mesgList', mem', W', left', hfill, h', hheld', hother⟩ := ih h₁ rfl (by rwa [hheld])
      refine ⟨mesgList', mem', W', left', ?_, h', hheld'.trans hheld, fun b hb => ?_⟩
      · rw [hload, Option.bind_some]
        exact hfill
      · rw [hheld] at hother
        rw [hother b hb, Function.update_of_ne]
        rintro rfl
        rw [h.held, hl] at hb
        exact hb (List.mem_append_right _ List.mem_cons_self)

theorem Sends.wiovAdd (h : o.Sends len frame mem done left off) (hn : o.held.Nodup) :
    ∃ o' mem' left', o.wiovAdd len mem = some (o', mem') ∧ o'.Sends len frame mem' done left' off ∧ o'.held = o.held ∧
      o'.queued = o.queued ∧ ∀ a ∉ o.held, mem' a = mem a := by
  obtain ⟨mesgList', mem', W', left', hfill, h', hheld, hother⟩ := Sends.fill o.mesgList h rfl hn
  refine ⟨_, mem', left', ?_, h', hheld, rfl, hother⟩
  rw [Outbox.wiovAdd, hfill]
  rfl

theorem Sends.isSome (h : o.Sends len frame mem done left off) : ∀ a ∈ o.held, (mem a).isSome := by
  intro a ha
  rw [h.held] at ha
  rcases List.mem_append.1 ha with ha | ha
  · obtain ⟨item, hi, rfl⟩ := List.mem_map.1 ha
    rw [(h.buff item hi).2.2]
    rfl
  · obtain ⟨m, -, -, hmem⟩ := h.list a ha
    rw [hmem]
    rfl

/-- The bytes in memory of the items in the buffer. -/
theorem map_byteAt (h : ∀ item ∈ left, item.len = (frame item.addr).length ∧ mem item.addr = some (frame item.addr)) :
    (left.flatMap fun item => wholeBytes item.addr item.len).map (byteAt mem) =
      (frames frame (left.map WiovOrig.addr)).map some := by
  induction left with
  | nil => rfl
  | cons item left ih =>
    obtain ⟨hlen, hmem⟩ := h item List.mem_cons_self
    have hitem : (wholeBytes item.addr item.len).map (byteAt mem) = (frame item.addr).map some := by
      apply List.ext_getElem
      · simp [wholeBytes, hlen]
      · intro i h₁ h₂
        rw [List.length_map] at h₂
        simp [wholeBytes, byteAt, hmem, h₂]
    rw [List.flatMap_cons, List.map_append, hitem, ih fun item hi => h item (List.mem_cons_of_mem _ hi), frames, frames,
      List.map_cons, List.flatMap_cons, List.map_append]

theorem total_le (h : ∀ item ∈ left, item.len ≤ n) : total left ≤ left.length * n := by
  induction left with
  | nil => exact Nat.zero_le _
  | cons item left ih =>
    have hle := h item List.mem_cons_self
    have hrest := ih fun item hi => h item (List.mem_cons_of_mem _ hi)
    rw [total] at hrest ⊢
    rw [List.map_cons, List.sum_cons, List.length_cons, Nat.succ_mul]
    omega

/-- A write: the messages that have gone out as a whole are released, and only they. -/
theorem Sends.writev (h : o.Sends len frame mem done left off) (hn : o.held.Nodup) (n : Nat) :
    ∃ o' mem' more left' off', o.writev mem n = some (o', mem', more) ∧
      o'.Sends len frame mem' (done ++ more) left' off' ∧ o.held = more ++ o'.held ∧ o'.queued = o.queued ∧
      ∀ a ∉ more, mem' a = mem a := by
  have hcap : total left ≤ SSIZE_MAX := by
    have hle := total_le fun item hi => (h.buff item hi).2.1.2
    have hcnt := h.holds.cnt
    have hcnt_le := h.holds.cnt_le
    have hmax := h.max
    rw [length_cut, List.length_map] at hcnt
    rw [Wiov.IOV_MAX] at hmax
    have hlen : left.length * 2 ^ 33 ≤ 1024 * 2 ^ 33 := Nat.mul_le_mul_right _ (by omega)
    refine (hle.trans hlen).trans ?_
    decide
  let k := min n o.send.pending.length
  obtain ⟨more, left', off', rfl, hholds, hb, hcalled, hoff⟩ :=
    begun_adjust (n := k) h.holds h.begun (Nat.min_le_right _ _) hcap
  have haddrs : ((o.send.wiovItemAdjust k).2.map calledAddr) = more.map WiovOrig.addr := by
    rw [hcalled, List.map_map]
    rfl
  have hheld := h.held
  rw [List.map_append, List.append_assoc] at hheld
  have hmore : (more.map WiovOrig.addr).Nodup := by
    rw [hheld] at hn
    exact (List.nodup_append.1 hn).1
  have hrest : ∀ a ∈ left'.map WiovOrig.addr ++ o.mesgList, a ∉ more.map WiovOrig.addr := by
    intro a ha hm
    rw [hheld] at hn
    exact (List.nodup_append.1 hn).2.2 a hm a ha rfl
  have hrelease := releaseAll_spec (more.map WiovOrig.addr) hmore fun a ha =>
    h.isSome a (by rw [hheld]; exact List.mem_append_left _ ha)
  have hbuff := fun item hi => (h.buff item hi).1
  have hlenm : (frames frame (more.map WiovOrig.addr)).length = total more :=
    length_frames fun item hi => hbuff item (List.mem_append_left _ hi)
  have hout : (o.send.pending.take k).map (byteAt mem) =
      (((frames frame ((more ++ left').map WiovOrig.addr)).drop off).take k).map some := by
    rw [begun_pending h.holds h.begun, List.map_take, List.map_drop,
      map_byteAt fun item hi => ⟨hbuff item hi, (h.buff item hi).2.2⟩, ← List.map_drop, ← List.map_take]
  have hwritev : o.writev mem n = some ({ o with
      send := (o.send.wiovItemAdjust k).1
      wire := o.wire ++ (o.send.pending.take k).map (byteAt mem) },
      fun a => if a ∈ more.map WiovOrig.addr then none else mem a, more.map WiovOrig.addr) := by
    rw [Outbox.writev, haddrs, hrelease]
    rfl
  refine ⟨_, _, _, left', off', hwritev, ⟨hholds, ?_, hb, ?_, ?_, ?_, ?_⟩, ?_, rfl, ?_⟩
  · rw [Wiov.iovMax_adjust]
    exact h.max
  · simp [h.queued]
  · -- what went out before, and now: the messages that have gone out as a whole, and part of the next
    simp only
    have htake : (frames frame ((more ++ left').map WiovOrig.addr)).take (total more + off') =
        frames frame (more.map WiovOrig.addr) ++ (frames frame (left'.map WiovOrig.addr)).take off' := by
      rw [List.map_append, frames_append, List.take_append, hlenm, List.take_of_length_le (by omega),
        Nat.add_sub_cancel_left]
    rw [hout, h.wire, ← List.map_append, List.append_assoc, ← List.take_add, hoff, htake, frames_append,
      List.append_assoc]
  · intro item hi
    have hnot : item.addr ∉ more.map WiovOrig.addr := hrest _ (List.mem_append_left _ (List.mem_map_of_mem hi))
    rw [if_neg hnot]
    exact h.buff item (List.mem_append_right _ hi)
  · intro a ha
    rw [if_neg (hrest a (List.mem_append_right _ ha))]
    exact h.list a ha
  · rw [hheld, Outbox.held, begun_addrs hholds]
  · intro a ha
    rw [if_neg ha]

/-- What has gone out is the messages that are done and part of the next, not all of it. -/
theorem Sends.part (h : o.Sends len frame mem done left off) : ∃ part, o.queued = done ++ o.held ∧
    o.wire = (frames frame done ++ part).map some ∧ part <+: frames frame o.held ∧
    ∀ a ∈ o.held.head?, part = [] ∨ part.length < (frame a).length := by
  refine ⟨(frames frame (left.map WiovOrig.addr)).take off, h.queued_eq, h.wire, ?_, ?_⟩
  · rw [h.held, frames_append]
    exact (List.take_prefix _ _).trans (List.prefix_append _ _)
  · intro a ha
    rw [h.held] at ha
    cases left with
    | nil =>
      left
      exact List.take_nil
    | cons item left =>
      obtain rfl := Option.some.inj ha
      obtain ⟨hlen, hpos, -⟩ := h.buff item List.mem_cons_self
      rcases h.begun with rfl | ⟨_, hitem, hlt⟩
      · left
        rfl
      · obtain rfl := Option.some.inj hitem
        right
        rw [List.length_take, ← hlen]
        omega

end Outbox

end BeehiveIm.Rtmq
