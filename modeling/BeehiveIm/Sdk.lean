/-
The client library (`sdk.c`, `sdk_comm.c`, `sdk_ssvr.c`, `sdk_mesg.c`, `sdk_worker.c`): a message on
its way from `sdk_async_send` to its acknowledgement, and one received on its way to its callback.
Threads of the application send, one server thread writes, reads and goes through the timeouts, and
one worker calls back; a step is what a thread does under the lock of the send table, or between two
locks. A message to be sent is known by its number, which is also the address of its item and that
of its data; no address is given out twice.
-/
import BeehiveIm.Core.Iovec
import BeehiveIm.Core.RbTree

namespace BeehiveIm.Sdk

open BeehiveIm.Core

/-- A sequence number -/
abbrev Seq := BitVec 64

/-- `sdk_send_stat_e` -/
inductive SendStat where
  | unknown
  | inSendq
  | sending
  | sendSucc
  | sendFail
  | sendTimeout
  | ackSucc
  | ackTimeout
  deriving DecidableEq, Repr

/-- `sdk_send_item_t`; a callback may be NULL. -/
structure SendItem where
  seq : Seq
  stat : SendStat
  cmd : Nat
  len : Nat
  ttl : Int
  data : Nat
  cb : Option Nat
  param : Nat

/-- What is used of `mesg_header_t`; the byte order is left out, each side undoes the other's. -/
structure MesgHead where
  type : Nat
  length : Nat
  seq : Seq

/-- `sizeof(mesg_header_t)` -/
def mesgHeaderSize : Nat := 52

def CMD_ONLINE : Nat := 0x0101
def CMD_ONLINE_ACK : Nat := 0x0102
def CMD_PING : Nat := 0x0105
def CMD_PONG : Nat := 0x0106
def CMD_SYNC : Nat := 0x010D

/-- An element of the send table: an item, and its number, which does not change while it is
there. -/
structure Node where
  seq : Seq
  item : Nat
  deriving DecidableEq, Repr

/-- `sdk_send_mgr_cmp_cb` of an item that has the number. -/
def sdkSendMgrCmpCb (seq : Seq) (node : Node) : Int := (seq - node.seq).toInt

/-- The arguments of `sdk_async_send`. -/
structure Request where
  cmd : Nat
  size : Nat
  timeout : Int
  cb : Option Nat
  param : Nat
  deriving DecidableEq

/-- Where a thread is in `sdk_async_send`. -/
inductive Call where
  /-- the network was there -/
  | checked (m : Nat) (req : Request)
  /-- the item has its number -/
  | ready (m : Nat)
  deriving DecidableEq

/-- The message that a call is about. -/
def Call.mesg : Call → Nat
  | .checked m _ => m
  | .ready m => m

/-- Where the server thread is. -/
inductive Ssvr where
  | idle
  /-- in the second loop of `sdk_ssvr_wiov_add` -/
  | fill
  | popped (addr : Nat)
  /-- between the two locks of `sdk_send_data_is_timeout_and_hdl` -/
  | timedOut (addr : Nat)
  | write
  /-- in the callbacks of the write vector; after them the network may be marked as gone -/
  | notify (calls : List Called) (off : Bool)
  /-- between the two locks of `sdk_send_fail_hdl` -/
  | failed (addr : Nat) (calls : List Called) (off : Bool)
  /-- after the lock of `sdk_ack_succ_hdl` -/
  | acked (item : Nat)
  /-- `sdk_mesg_send_online_req` is done, `sdk_ssvr_conn_after_hdl` is not -/
  | connected
  deriving DecidableEq

/-- `sdk_cntx_t` and `sdk_ssvr_t`, with the memory and what has been done to it. -/
structure World where
  clock : Int
  online : Bool
  /-- `fd` is a socket -/
  fd : Bool
  /-- the bytes of the receive buffer between `optr` and `iptr` -/
  unread : Nat
  /-- what was written to the connection, each byte by the address of its message and its place
  there -/
  wire : List (Nat × Nat)
  kpaliveTimes : Nat
  seq : Seq
  tab : RbTree Node
  sendq : List Nat
  mesgList : List Nat
  send : Wiov
  item : Nat → SendItem
  head : Nat → MesgHead
  /-- the first number not yet given out -/
  next : Nat
  calls : Nat → Option Call
  pc : Ssvr
  /-- the messages received, by their place among those for the workers, with their types -/
  recvq : List (Nat × Nat)
  received : Nat
  /-- the messages that their callback was called for -/
  handed : List Nat
  /-- the callbacks that were called, each with its message and what it was told -/
  called : List (Nat × SendStat)
  freedItem : List Nat
  freedData : List Nat
  /-- the messages that `sdk_async_send` accepted -/
  accepted : List Nat
  /-- an assertion of the source has failed -/
  failed : Bool

namespace World

def init (sendqLen : Nat) (clock : Int) : World where
  clock := clock
  online := false
  fd := false
  unread := 0
  wire := []
  kpaliveTimes := 0
  seq := 0
  tab := RbTree.rbtCreat Node
  sendq := []
  mesgList := []
  send := .wiovInit (2 * sendqLen)
  item _ := ⟨0, .unknown, 0, 0, 0, 0, none, 0⟩
  head _ := ⟨0, 0, 0⟩
  next := 0
  calls _ := none
  pc := .idle
  recvq := []
  received := 0
  handed := []
  called := []
  freedItem := []
  freedData := []
  accepted := []
  failed := false

def fault (w : World) : World := { w with failed := true }

def freeItem (w : World) (m : Nat) : World := { w with freedItem := m :: w.freedItem }
def freeData (w : World) (addr : Nat) : World := { w with freedData := addr :: w.freedData }

def setStat (w : World) (m : Nat) (stat : SendStat) : World :=
  { w with item := Function.update w.item m { w.item m with stat := stat } }

/-- A callback that is called without a look at it; through NULL the process crashes (`none`). -/
def call (w : World) (cb : Option Nat) (m : Nat) (stat : SendStat) : Option World :=
  cb.map fun _ => { w with called := w.called ++ [(m, stat)] }

/-- `if (item->cb) { item->cb(…); }` -/
def tell (w : World) (m : Nat) (stat : SendStat) : World :=
  if (w.item m).cb.isSome then { w with called := w.called ++ [(m, stat)] } else w

/-! ## The send table -/

/-- `rbt_query` under a number -/
def query (w : World) (seq : Seq) : Option (Option Node) := w.tab.rbtQuery (sdkSendMgrCmpCb seq)

/-- `sdk_send_mgr_delete` -/
def sdkSendMgrDelete (w : World) (seq : Seq) : World :=
  match w.tab.rbtDelete (sdkSendMgrCmpCb seq) with
  | none => w.fault
  | some (T, none) => { w with tab := T }
  | some (T, some node) => ({ w with tab := T }.freeData (w.item node.item).data).freeItem node.item

/-- The item out of the table, told its status and freed, as in every case of
`sdk_send_item_clean_timeout_hdl` but one. -/
def cleanItem (w : World) (m : Nat) (stat : SendStat) : World :=
  match w.tab.rbtDelete (sdkSendMgrCmpCb (w.item m).seq) with
  | none => w.fault
  | some (T, _) => ((({ w with tab := T }.setStat m stat).tell m stat).freeData (w.item m).data).freeItem m

/-- `sdk_send_item_clean_timeout_hdl` -/
def sdkSendItemCleanTimeoutHdl (w : World) (m : Nat) : World :=
  match (w.item m).stat with
  | .inSendq => { w with sendq := w.sendq.erase (w.item m).data }.cleanItem m .sendTimeout
  | .sending => w -- its data is in the write vector
  | .sendSucc => w.cleanItem m .ackTimeout
  | stat => w.cleanItem m stat

/-- `sdk_send_mgr_trav`; `mem` is whether there is memory to note an item down. -/
def sdkSendMgrTrav (w : World) (mem : Nat → Bool) : World :=
  match w.tab.rbtTrav with
  | none => w.fault
  | some nodes =>
    let late := nodes.filter fun node =>
      (w.item node.item).ttl ≤ w.clock ∧ (w.item node.item).stat ≠ .sending ∧ mem node.item
    late.foldl (fun w node => w.sdkSendItemCleanTimeoutHdl node.item) w

/-- `sdk_send_succ_hdl` -/
def sdkSendSuccHdl (w : World) (addr : Nat) : World :=
  match w.query (w.head addr).seq with
  | some (some node) => (w.setStat node.item .sendSucc).tell node.item .sendSucc
  | _ => w.fault

/-- `sdk_send_fail_hdl` up to its second lock -/
def sdkSendFailHdl (w : World) (addr : Nat) : World :=
  match w.query (w.head addr).seq with
  | some (some node) => (w.setStat node.item .sendFail).tell node.item .sendFail
  | _ => w.fault

/-! ## `sdk_async_send` -/

/-- The look at the network. -/
def sdkAsyncSend (w : World) (t : Nat) (req : Request) : Option World :=
  let w' := { w with next := w.next + 1 }
  if w.online then some { w' with calls := Function.update w.calls t (some (.checked w.next req)) }
  else w'.call req.cb w.next .sendFail

/-- The data, its number and the item; `addr` and `item` are whether there is memory. -/
def sdkGenSeq (w : World) (t m : Nat) (req : Request) (addr item : Bool) : Option World :=
  let w' := { w with calls := Function.update w.calls t none }
  if addr then
    let seq := w.seq + 1
    let w' := { w' with
      seq := seq
      head := Function.update w.head m ⟨req.cmd, req.size % 2 ^ 32, seq⟩ }
    if item then
      some { w' with
        item := Function.update w.item m ⟨seq, .inSendq, req.cmd, req.size, w.clock + req.timeout, m, req.cb, req.param⟩
        calls := Function.update w.calls t (some (.ready m)) }
    else (w'.call req.cb m .sendFail).map fun (w' : World) => w'.freeData m
  else w'.call req.cb m .sendFail

/-- The item into the table and its data into the queue; `node` and `link` are whether there is
memory. The queue does not tell when it has none. -/
def sdkSendMgrInsert (w : World) (t m : Nat) (node link : Bool) : Option World :=
  let w' := { w with calls := Function.update w.calls t none }
  match w.tab.rbtInsert (sdkSendMgrCmpCb (w.item m).seq) ⟨(w.item m).seq, m⟩ node with
  | none => some w'.fault
  | some (T, .ok) =>
    some { w' with
      tab := T
      sendq := if link then (w.item m).data :: w.sendq else w.sendq
      accepted := m :: w.accepted }
  | some (T, _) =>
    (call { w' with tab := T } (w.item m).cb m .sendFail).map fun w' => (w'.freeData (w.item m).data).freeItem m

/-! ## The messages of the server thread -/

/-- A message of its own, at the end of its list. -/
def pushMesg (w : World) (type length : Nat) (addr link : Bool) : World :=
  if addr then
    let w' := { w with
      seq := w.seq + 1
      head := Function.update w.head w.next ⟨type, length % 2 ^ 32, w.seq + 1⟩
      next := w.next + 1 }
    if link then { w' with mesgList := w.mesgList ++ [w.next] } else w'.freeData w.next
  else w

/-- `wiov_clean`, and then its callbacks -/
def wiovClean (w : World) (off : Bool) : World :=
  { w with send := w.send.wiovClean.1, pc := .notify w.send.wiovClean.2 off }

/-- `sdk_mesg_send_ping_req` -/
def sdkMesgSendPingReq (w : World) (addr link : Bool) : World :=
  if w.fd = false ∨ 3 < w.kpaliveTimes then { w with fd := false }.wiovClean false
  else
    let w' := w.pushMesg CMD_PING 0 addr link
    if addr ∧ link then { w' with kpaliveTimes := w.kpaliveTimes + 1 } else w'

/-- A failure of `sdk_ssvr_recv_proc` -/
def close (w : World) : World := { w with fd := false, online := false, unread := 0 }

/-- `sdk_ssvr_reconn`: whether the addresses came, a connection, and memory for the
ONLINE of that length. -/
def sdkSsvrReconn (w : World) (info conn addr link : Bool) (length : Nat) : World :=
  let w := { w with kpaliveTimes := 0 }
  if info then
    let w := { w with freedData := w.mesgList.reverse ++ w.freedData, mesgList := [] }
    if conn then
      let w' := { w with fd := true, wire := [] }.pushMesg CMD_ONLINE length addr link
      { w' with online := if addr ∧ link then false else w.online, pc := .connected }
    else { w with online := false }
  else { w with online := false }

end World

/-- What `mesg_online_ack__unpack` gives. -/
structure OnlineAck where
  seq : Seq
  code : Nat

/-- A message received; `ack` is its body, if it is one of an ONLINE-ACK. -/
structure Mesg where
  type : Nat
  length : Nat
  seq : Seq
  ack : Option OnlineAck

/-- `mesg_len`, computed in 32 bits -/
def Mesg.mesgLen (mesg : Mesg) : Nat := (mesgHeaderSize + mesg.length) % 2 ^ 32

/-- What the application has registered: the request that a type acknowledges (`sdk_cmd_add`), and
whether a type has a callback (`sdk_register`), 0 for those that have none of their own. -/
structure Cntx where
  cmd : Nat → Option Nat
  reg : Nat → Bool

namespace World

/-- `sdk_mesg_online_ack_handler`; a failure ends the connection. The SYNC has the given length. -/
def sdkMesgOnlineAckHandler (w : World) (ack : Option OnlineAck) (addr link : Bool) (length : Nat) : World :=
  match ack with
  | none => w.close
  | some ack =>
    let w := { w with seq := ack.seq }
    if ack.code = 0 then { w with online := true }.pushMesg CMD_SYNC length addr link
    else w.close

/-- `sdk_exp_mesg_proc`: a copy of the message into the queue of the workers. -/
def sdkExpMesgProc (w : World) (type : Nat) (data link : Bool) : World :=
  let w' := { w with received := w.received + 1 }
  -- `sdk_queue_rpush` is `list_lpush`
  if data ∧ link then { w' with recvq := (w.received, type) :: w.recvq } else w'

/-- `sdk_sys_mesg_proc`; other types go to the workers. -/
def sdkSysMesgProc (w : World) (mesg : Mesg) (addr link : Bool) (length : Nat) : World :=
  if mesg.type = CMD_PONG then { w with kpaliveTimes := 0 }
  else if mesg.type = CMD_PING then { w with kpaliveTimes := 0 }.sdkMesgSendPingReq addr link
  else if mesg.type = CMD_ONLINE_ACK then w.sdkMesgOnlineAckHandler mesg.ack addr link length
  else w.sdkExpMesgProc mesg.type addr link

/-- A round of `sdk_worker_cmd_proc_req_hdl` -/
def sdkWorkerCmdProcReqHdl (ctx : Cntx) (w : World) : World :=
  match w.recvq with
  | [] => w
  | (k, type) :: recvq =>
    let w := { w with recvq := recvq }
    if ctx.reg type ∨ ctx.reg 0 then { w with handed := w.handed ++ [k] } else w

/-- `sdk_ack_succ_hdl` up to its unlock: the item it has found, which it has taken out of the table
only if it is one of the request that the type acknowledges. -/
def sdkAckSuccHdl (ctx : Cntx) (w : World) (mesg : Mesg) : Option World :=
  match ctx.cmd mesg.type with
  | none => none
  | some cmd =>
    match w.query mesg.seq with
    | some (some node) =>
      if (w.item node.item).cmd = cmd then
        match w.tab.rbtDelete (sdkSendMgrCmpCb mesg.seq) with
        | none => some w.fault
        | some (T, _) => some { w with tab := T, pc := .acked node.item }
      else some { w with pc := .acked node.item }
    | some none => none
    | none => some w.fault

/-- `sdk_ssvr_data_proc` for one message; `addr` and `link` are whether there is memory for what it
puts into a list, a message of the given length if it sends one. -/
def sdkSsvrDataProc (ctx : Cntx) (w : World) (mesg : Mesg) (addr link : Bool) (length : Nat) : World :=
  let w := { w with unread := w.unread - mesg.mesgLen }
  match w.sdkAckSuccHdl ctx mesg with
  | some w' => w'
  | none => w.sdkSysMesgProc mesg addr link length

/-! ## The write vector -/

def MEM_DEALLOC : Nat := 0
def SDK_SEND_SUCC_HDL : Nat := 1
def SDK_SEND_FAIL_HDL : Nat := 2

/-- The first loop of `sdk_ssvr_wiov_add`: what is left of the list, and the vector. -/
def addMesgs (head : Nat → MesgHead) : List Nat → Wiov → List Nat × Wiov
  | [], send => ([], send)
  | addr :: list, send =>
    if send.wiovIsfull then (addr :: list, send)
    else
      match send.wiovItemAdd ⟨addr, mesgHeaderSize + (head addr).length, 0, MEM_DEALLOC, MEM_DEALLOC⟩ with
      | none => (addr :: list, send)
      | some send => addMesgs head list send

/-- `sdk_ssvr_send_data` up to the second loop of `sdk_ssvr_wiov_add` -/
def sdkSsvrSendData (w : World) : World :=
  if w.send.wiovIsfull then { w with pc := .write }
  else
    let r := addMesgs w.head w.mesgList w.send
    { w with mesgList := r.1, send := r.2, pc := .fill }

/-- One round of the second loop, up to the message popped. -/
def sdkQueueLpop (w : World) : World :=
  if w.send.iovMax - w.send.iovCnt = 0 then { w with pc := .write }
  else
    match w.sendq with
    | [] => { w with pc := .write }
    | addr :: sendq => { w with sendq := sendq, pc := .popped addr }

/-- `sdk_send_data_is_timeout_and_hdl` up to its second lock; a message in time goes into the
vector. -/
def sdkSendDataIsTimeoutAndHdl (w : World) (addr : Nat) : World :=
  match w.query (w.head addr).seq with
  | none => w.fault
  | some none => { w with pc := .fill }
  | some (some node) =>
    if (w.item node.item).ttl ≤ w.clock then
      { (w.setStat node.item .sendTimeout).tell node.item .sendTimeout with pc := .timedOut addr }
    else
      let w := w.setStat node.item .sending
      match w.send.wiovItemAdd ⟨addr, mesgHeaderSize + (w.head addr).length, 0, SDK_SEND_SUCC_HDL,
        SDK_SEND_FAIL_HDL⟩ with
      | none => w.fault
      | some send => { w with send := send, pc := .fill }

/-- The `writev` and what `sdk_ssvr_send_data` makes of its answer, `none` for an error, as there is
one without a socket. It writes no more bytes than it is given. -/
def sdkSsvrWritev (w : World) (n : Option Nat) : World :=
  if w.send.iovCnt = 0 then { w with pc := .idle }
  else
    match if w.fd then n else none with
    | none => { w with fd := false }.wiovClean true
    | some n =>
      let n := min n (w.send.items.map Iovec.iovLen).sum
      let r := w.send.wiovItemAdjust n
      { w with send := r.1, wire := w.wire ++ w.send.pending.take n, pc := .notify r.2 false }

/-- A callback of the write vector; `calls` are to come after it. -/
def notify (w : World) (calls : List Called) (off : Bool) : Called → World
  | .succ orig =>
    let w := { w with pc := .notify calls off }
    if orig.succ = MEM_DEALLOC then w.freeData orig.addr else w.sdkSendSuccHdl orig.addr
  | .fail orig =>
    if orig.fail = MEM_DEALLOC then { w with pc := .notify calls off }.freeData orig.addr
    else { w.sdkSendFailHdl orig.addr with pc := .failed orig.addr calls off }

/-- What the server thread does next on its own, if it is in the middle of something. -/
def go (w : World) : Option World :=
  match w.pc with
  | .idle => none
  | .fill => some w.sdkQueueLpop
  | .popped addr => some (w.sdkSendDataIsTimeoutAndHdl addr)
  | .timedOut addr => some { w.sdkSendMgrDelete (w.head addr).seq with pc := .fill }
  | .write => none
  | .notify [] off => some { w with online := if off then false else w.online, pc := .idle }
  | .notify (c :: calls) off => some (w.notify calls off c)
  | .failed addr calls off => some { w.sdkSendMgrDelete (w.head addr).seq with pc := .notify calls off }
  | .acked m =>
    (w.call (w.item m).cb m .ackSucc).map fun w => { (w.freeData (w.item m).data).freeItem m with pc := .idle }
  | .connected => some { w with online := true, pc := .idle }

end World

/-! ## Runs -/

inductive Event where
  | tick (secs : Nat)
  | send (t : Nat) (req : Request)
  | number (t : Nat) (addr item : Bool)
  | insert (t : Nat) (node link : Bool)
  | sendData
  | writev (n : Option Nat)
  | go
  | read (n : Nat)
  | recv (mesg : Mesg) (addr link : Bool) (length : Nat)
  | disconnect
  | networkSwitch
  | trav (mem : Nat → Bool)
  | reconn (info conn addr link : Bool) (length : Nat)
  | keepalive (addr link : Bool)
  | work

namespace World

/-- The server thread waits. -/
def onIdle (w w' : World) : Option World := if w.pc = .idle then some w' else none

/-- `none` is for what cannot happen; when a timer is due is left open. -/
def step (ctx : Cntx) (w : World) : Event → Option World
  | .tick secs => some { w with clock := w.clock + secs }
  | .send t r => if w.calls t = none then w.sdkAsyncSend t r else none
  | .number t addr item =>
    match w.calls t with
    | some (.checked m r) => w.sdkGenSeq t m r addr item
    | _ => none
  | .insert t node link =>
    match w.calls t with
    | some (.ready m) => w.sdkSendMgrInsert t m node link
    | _ => none
  | .sendData => w.onIdle w.sdkSsvrSendData
  | .writev n => if w.pc = .write then some (w.sdkSsvrWritev n) else none
  | .go => w.go
  | .read n => if w.fd then w.onIdle { w with unread := w.unread + n } else none
  | .recv mesg addr link length =>
    if w.fd ∧ mesgHeaderSize ≤ w.unread ∧ mesg.mesgLen ≤ w.unread
      then w.onIdle (w.sdkSsvrDataProc ctx mesg addr link length)
    else none
  | .disconnect => w.onIdle w.close
  | .networkSwitch => w.onIdle ({ w with fd := false }.wiovClean true)
  | .trav mem => w.onIdle (w.sdkSendMgrTrav mem)
  | .reconn info conn addr link length =>
    if w.fd then none else w.onIdle (w.sdkSsvrReconn info conn addr link length)
  | .keepalive addr link => if w.fd then w.onIdle (w.sdkMesgSendPingReq addr link) else none
  | .work => some (w.sdkWorkerCmdProcReqHdl ctx)

end World

end BeehiveIm.Sdk
