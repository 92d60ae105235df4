/-
What a connection of RTMQ has to send (`rtmq_rsvr.c`, `rtmq_proxy_tsvr.c`): the list of its
messages, and the buffer of gathered writes they go into, where their headers are turned to network
order. A message lies in memory at an address that no other has had, and is released there; memory
that is released is not read again.
-/
import BeehiveIm.Core.Iovec.Sent
import BeehiveIm.Rtmq.Framing.Stream

namespace BeehiveIm.Rtmq

open BeehiveIm.Lib BeehiveIm.Core Recv

/-- What a message is made of: the fields of `rtmq_header_t` that are free, and the data. -/
structure Mesg where
  type : BitVec 32
  nid : BitVec 32
  flag : BitVec 32
  data : List Byte
  deriving DecidableEq

namespace Mesg

def header (m : Mesg) : List (BitVec 32) := [m.type, m.nid, m.flag, BitVec.ofNat 32 m.data.length, RTMQ_CHKSUM_VAL]

/-- The message as it is made, its header in host order. -/
def host (m : Mesg) : List Byte := (m.header.flatMap fun w => (beBytes w).reverse) ++ m.data

/-- The message as it goes out. -/
def wire (m : Mesg) : List Byte := m.header.flatMap beBytes ++ m.data

end Mesg

/-- What lies at an address, `none` where nothing is allocated. -/
abbrev Heap := Nat → Option (List Byte)

/-- The word `i` of a header. -/
def headWord (bytes : List Byte) (i : Nat) : BitVec 32 := leWord ((bytes.drop (4 * i)).take 4)

/-- `RTMQ_HEAD_HTON(head, head)` -/
def rtmqHeadHton (bytes : List Byte) : List Byte := swapAt 4 (swapAt 3 (swapAt 2 (swapAt 1 (swapAt 0 bytes))))

/-- The memory at an address is given back; there has to be some. -/
def release (mem : Heap) (addr : Nat) : Option Heap := (mem addr).map fun _ => Function.update mem addr none

/-- One after the other. -/
def releaseAll (mem : Heap) (addrs : List Nat) : Option Heap := addrs.foldlM release mem

/-- The byte of an item, where it has not been released. -/
def byteAt (mem : Heap) (b : Nat × Nat) : Option Byte := (mem b.1).bind fun bytes => bytes[b.2]?

/-- The address that a callback is called with. -/
def calledAddr : Called → Nat
  | .succ item => item.addr
  | .fail item => item.addr

/-- `wiov_isempty` -/
def wiovIsempty (W : Wiov) : Bool := W.iovCnt = 0

/-- The addresses of the items in the buffer. -/
def wiovAddrs (W : Wiov) : List Nat := (List.range' W.iovIdx (W.iovCnt - W.iovIdx)).map fun i => (W.orig i).addr

/-- A message goes into the buffer; its check word is asserted. Both callbacks of the item release
it. -/
def wiovLoad (len : BitVec 32 → Nat) (param : Nat) (mem : Heap) (W : Wiov) (addr : Nat) : Option (Heap × Wiov) :=
  (mem addr).bind fun bytes =>
    if headWord bytes 4 ≠ RTMQ_CHKSUM_VAL then none
    else
      (W.wiovItemAdd ⟨addr, len (headWord bytes 3), param, 1, 1⟩).map fun W =>
        (Function.update mem addr (some (rtmqHeadHton bytes)), W)

/-- The messages of a list go into the buffer while it has a place. -/
def wiovFill (len : BitVec 32 → Nat) : List Nat → Heap → Wiov → Option (List Nat × Heap × Wiov)
  | [], mem, W => some ([], mem, W)
  | addr :: mesgList, mem, W =>
    if W.wiovIsfull then some (addr :: mesgList, mem, W)
    else (wiovLoad len 0 mem W addr).bind fun (mem, W) => wiovFill len mesgList mem W

/-- A list of messages and the buffer behind it. `queued` are the messages that were ever
put there, in order, and `wire` is what has gone out; a byte of a message that had been
released would be `none`. -/
structure Outbox where
  mesgList : List Nat
  send : Wiov
  queued : List Nat
  wire : List (Option Byte)

namespace Outbox

def init (max : Nat) : Outbox := ⟨[], .wiovInit max, [], []⟩

/-- The messages not yet released. -/
def held (o : Outbox) : List Nat := wiovAddrs o.send ++ o.mesgList

def push (o : Outbox) (addr : Nat) : Outbox :=
  { o with mesgList := o.mesgList ++ [addr], queued := o.queued ++ [addr] }

/-- The loop over `mesg_list` of `rtmq_rsvr_wiov_add` and `rtmq_proxy_tsvr_wiov_add`. -/
def wiovAdd (len : BitVec 32 → Nat) (o : Outbox) (mem : Heap) : Option (Outbox × Heap) :=
  (wiovFill len o.mesgList mem o.send).map fun (mesgList, mem, send) =>
    ({ o with mesgList := mesgList, send := send }, mem)

/-- A `writev` that writes `n` bytes, or all there are, and `wiov_item_adjust`;
answers what it releases. -/
def writev (o : Outbox) (mem : Heap) (n : Nat) : Option (Outbox × Heap × List Nat) :=
  let n := min n o.send.pending.length
  let r := o.send.wiovItemAdjust n
  let addrs := r.2.map calledAddr
  (releaseAll mem addrs).map fun mem' =>
    ({ o with send := r.1, wire := o.wire ++ (o.send.pending.take n).map (byteAt mem) }, mem', addrs)

end Outbox

/-! ## Memory -/

section

variable {mem : Heap} {addr : Nat} {addrs : List Nat}

theorem releaseAll_spec (addrs : List Nat) : ∀ {mem : Heap}, addrs.Nodup → (∀ a ∈ addrs, (mem a).isSome) →
    releaseAll mem addrs = some fun a => if a ∈ addrs then none else mem a := by
  induction addrs with
  | nil => exact fun _ _ => by simp [releaseAll]
  | cons addr addrs ih =>
    intro mem hn hsome
    obtain ⟨haddr, hn⟩ := List.nodup_cons.1 hn
    obtain ⟨bytes, hbytes⟩ := Option.isSome_iff_exists.1 (hsome addr List.mem_cons_self)
    have hrelease : release mem addr = some (Function.update mem addr none) := by simp [release, hbytes]
    have hrest : ∀ a ∈ addrs, (Function.update mem addr none a).isSome := by
      intro a ha
      have hne : a ≠ addr := by
        rintro rfl
        exact haddr ha
      rw [Function.update_of_ne hne]
      exact hsome a (List.mem_cons_of_mem _ ha)
    have hih := ih hn hrest
    rw [releaseAll] at hih
    rw [releaseAll, List.foldlM_cons, hrelease]
    refine hih.trans (congrArg some (funext fun a => ?_))
    by_cases ha : a = addr
    · subst ha
      simp
    · simp [ha]

end

/-! ## A message -/

namespace Mesg

variable {m : Mesg}

theorem length_wire (m : Mesg) : m.wire.length = HEADER_LEN + m.data.length := by
  simp [wire, header, HEADER_LEN]
  omega

theorem wire_pos (m : Mesg) : 0 < m.wire.length := by
  rw [m.length_wire, HEADER_LEN]
  omega

theorem swapAt_reverse {i : Nat} {a : List Byte} (w : BitVec 32) (c : List Byte) (h : a.length = 4 * i) :
    swapAt i (a ++ ((beBytes w).reverse ++ c)) = a ++ beBytes w ++ c := by
  rw [swapAt, List.take_left' h, List.drop_left' h, List.take_left' (by simp), ← List.drop_drop, List.drop_left' h,
    List.drop_left' (by simp), List.reverse_reverse, List.append_assoc]

/-- The words before the `i`-th are turned. -/
theorem swapAt_header (i : Nat) (ws vs : List (BitVec 32)) (w : BitVec 32) (data : List Byte) (h : ws.length = i) :
    swapAt i (ws.flatMap beBytes ++ (((w :: vs).flatMap fun w => (beBytes w).reverse) ++ data)) =
      (ws ++ [w]).flatMap beBytes ++ ((vs.flatMap fun w => (beBytes w).reverse) ++ data) := by
  have hlen : (ws.flatMap beBytes).length = 4 * i := by
    rw [List.length_flatMap, ← h]
    simp [Nat.mul_comm]
  rw [List.flatMap_cons, List.append_assoc, swapAt_reverse w _ hlen, List.flatMap_append]
  simp

theorem rtmqHeadHton_host (m : Mesg) : rtmqHeadHton m.host = m.wire := by
  have hhost : m.host = [].flatMap beBytes ++ ((m.header.flatMap fun w => (beBytes w).reverse) ++ m.data) := rfl
  rw [rtmqHeadHton, hhost, header, swapAt_header 0 [] _ _ _ rfl, swapAt_header 1 _ _ _ _ rfl,
    swapAt_header 2 _ _ _ _ rfl, swapAt_header 3 _ _ _ _ rfl, swapAt_header 4 _ _ _ _ rfl]
  rfl

theorem headWord_host {i : Nat} {w : BitVec 32} (h : m.header[i]? = some w) : headWord m.host i = w := by
  have hcut (ws : List (BitVec 32)) (c : List Byte) : ∀ i w, ws[i]? = some w →
      (((ws.flatMap fun w => (beBytes w).reverse) ++ c).drop (4 * i)).take 4 = (beBytes w).reverse := by
    induction ws with
    | nil => exact fun i w h => by simp at h
    | cons v ws ih =>
      intro i w h
      cases i with
      | zero =>
        obtain rfl : v = w := by simpa using h
        simp
      | succ i =>
        have hlen : ((beBytes v).reverse : List Byte).length = 4 := by simp
        rw [List.flatMap_cons, List.append_assoc, Nat.mul_succ, Nat.add_comm, ← List.drop_drop, List.drop_left' hlen]
        exact ih i w (by simpa using h)
  rw [headWord, host, hcut m.header m.data i w h, leWord_reverse, beWord_beBytes]

/-- The header gives the whole length of the message, and the buffer has no more bytes than a
`writev` can be given. -/
structure Fits (len : BitVec 32 → Nat) (m : Mesg) : Prop where
  len : len (BitVec.ofNat 32 m.data.length) = m.wire.length
  le : m.wire.length ≤ 2 ^ 33

end Mesg

/-- `size_t len = sizeof(rtmq_header_t) + head->length` in `rtmq_proxy_tsvr_wiov_add`. -/
def proxyLen (length : BitVec 32) : Nat := HEADER_LEN + length.toNat

/-- A message of less than 4 GiB. -/
theorem fits_proxyLen {m : Mesg} (h : m.data.length < 2 ^ 32) : m.Fits proxyLen := by
  constructor
  · rw [proxyLen, BitVec.toNat_ofNat, Nat.mod_eq_of_lt h, m.length_wire]
  · rw [m.length_wire, HEADER_LEN]
    omega

end BeehiveIm.Rtmq
