/-
How the access layer sends (`acc_comm.c`, `acc_rsvr.c`): `acc_async_send` puts an item into the
queue of the thread that has the connection, the thread distributes the queue to the lists of its
connections and writes the list of one when epoll says so. The answers of `write` are arguments. An
item and its data are two pieces of memory under one number; no number is given out twice.
-/
import BeehiveIm.Access.Recv

namespace BeehiveIm.Access

open BeehiveIm.Lib

/-- `acc_send_item_t`; `id` is its address. -/
structure SendItem where
  id : Nat
  cid : BitVec 64
  data : List Byte
  deriving DecidableEq

/-- `socket_snap_t` of the item that is being sent; `total` is the length. -/
structure SendSnap where
  id : Nat
  addr : List Byte
  off : Nat
  deriving DecidableEq

/-- What `epoll` watches for; always edge-triggered. -/
structure Events where
  epollin : Bool
  epollout : Bool
  deriving DecidableEq

/-- What a `write` does: it takes some of the bytes, no more than there are, or none. -/
inductive Write where
  | takes (n : Nat)
  | eintr
  | eagain
  | failed
  deriving DecidableEq

inductive Written where
  | all
  | again
  | failed
  deriving DecidableEq

/-- `Writen` of `left` bytes: how many go out, the answers left and why it ends. When there are no
more answers the socket blocks. -/
def writen : Nat → List Write → Nat × List Write × Written
  | 0, ws => (0, ws, .all)
  | _ + 1, [] => (0, [], .again)
  | left + 1, .takes n :: ws =>
    let r := writen (left + 1 - n) ws
    (min n (left + 1) + r.1, r.2)
  | left + 1, .eintr :: ws => writen (left + 1) ws
  | _ + 1, .eagain :: ws => (0, ws, .again)
  | _ + 1, .failed :: ws => (0, ws, .failed)
termination_by structural _ ws => ws

/-- What a pass of `acc_send_data` leaves and does; `failed` is whether a `write` has failed. -/
structure Pass where
  send : Option SendSnap
  sendList : List SendItem
  wire : List Byte
  evs : Option Events
  freedItem : List Nat
  freedData : List Nat
  ret : Ret
  failed : Bool

/-- The loop of `acc_send_data` from an item that is being sent on. -/
def sendLoop : List SendItem → SendSnap → List Write → Pass
  | sendList, send, ws =>
    let left := send.addr.length - send.off
    let r := writen left ws
    let out := (send.addr.drop send.off).take r.1
    match r.2.2 with
    | .all =>
      let evs : Events := ⟨true, !sendList.isEmpty⟩
      match sendList with
      | [] => ⟨none, [], out, some evs, [], [send.id], .ok, false⟩
      | item :: sendList =>
        let p := sendLoop sendList ⟨item.id, item.data, 0⟩ r.2.1
        { p with
          wire := out ++ p.wire
          evs := p.evs.orElse fun _ => evs
          freedItem := item.id :: p.freedItem
          freedData := send.id :: p.freedData }
    | .again =>
      if 0 < r.1 then ⟨some { send with off := send.off + r.1 }, sendList, out, none, [], [], .sckAgain, false⟩
      else ⟨none, sendList, out, none, [], [send.id], .err, false⟩
    | .failed => ⟨none, sendList, out, none, [], [send.id], .err, true⟩

/-- A connection: what it has to send, and `wire`, what has gone out. -/
structure SendConn where
  send : Option SendSnap
  sendList : List SendItem
  evs : Events
  wire : List Byte

namespace SendConn

/-- `acc_send_data` -/
def accSendData (c : SendConn) (ws : List Write) : Pass :=
  match c.send, c.sendList with
  | some send, sendList => sendLoop sendList send ws
  | none, [] => ⟨none, [], [], none, [], [], .ok, false⟩
  | none, item :: sendList =>
    let p := sendLoop sendList ⟨item.id, item.data, 0⟩ ws
    { p with freedItem := item.id :: p.freedItem }

/-- The connection after a pass. -/
def after (c : SendConn) (p : Pass) : SendConn where
  send := p.send
  sendList := p.sendList
  evs := p.evs.getD c.evs
  wire := c.wire ++ p.wire

end SendConn

/-- A thread: its queue, its connections by `cid`, the memory freed, the items that `acc_async_send`
accepted and the connections that sending has closed, each with whether a `write` had failed. -/
structure SendRsvr where
  sendq : List SendItem
  conns : BitVec 64 → Option SendConn
  next : Nat
  freedItem : List Nat
  freedData : List Nat
  queued : List SendItem
  closed : List (BitVec 64 × Bool)

inductive SendEvent where
  | open (cid : BitVec 64)
  /-- `place` is whether there is memory, and a place in the queue -/
  | asyncSend (cid : BitVec 64) (data : List Byte) (place : Bool)
  /-- `mem` is whether there is memory to put an item into a list -/
  | dist (mem : Nat → Bool)
  | writable (cid : BitVec 64) (ws : List Write)
  /-- the connection ends for another reason -/
  | close (cid : BitVec 64)

namespace SendRsvr

def init : SendRsvr := ⟨[], fun _ => none, 0, [], [], [], []⟩

/-- `acc_rsvr_add_conn`; a number that nothing was sent to. -/
def accRsvrAddConn (S : SendRsvr) (cid : BitVec 64) : Option SendRsvr :=
  if S.conns cid = none ∧ ∀ item ∈ S.queued, item.cid ≠ cid then
    some { S with conns := Function.update S.conns cid (some ⟨none, [], ⟨true, false⟩, []⟩) }
  else none

/-- `acc_async_send` -/
def accAsyncSend (S : SendRsvr) (cid : BitVec 64) (data : List Byte) (place : Bool) : SendRsvr :=
  let item : SendItem := ⟨S.next, cid, data⟩
  if place then { S with sendq := S.sendq ++ [item], next := S.next + 1, queued := S.queued ++ [item] } else S

/-- An item of the queue is distributed. -/
def distItem (mem : Nat → Bool) (S : SendRsvr) (item : SendItem) : SendRsvr :=
  match S.conns item.cid with
  | some c =>
    -- `acc_push_into_send_list`
    if mem item.id then
      let c := { c with sendList := c.sendList ++ [item], evs := ⟨false, true⟩ }
      { S with conns := Function.update S.conns item.cid (some c) }
    else { S with freedItem := item.id :: S.freedItem, freedData := item.id :: S.freedData }
  | none => { S with freedItem := item.id :: S.freedItem, freedData := item.id :: S.freedData }

/-- `acc_rsvr_dist_send_data` -/
def accRsvrDistSendData (S : SendRsvr) (mem : Nat → Bool) : SendRsvr :=
  S.sendq.foldl (distItem mem) { S with sendq := [] }

/-- `acc_rsvr_del_conn` -/
def accRsvrDelConn (S : SendRsvr) (cid : BitVec 64) (c : SendConn) : SendRsvr :=
  { S with
    conns := Function.update S.conns cid none
    freedItem := c.sendList.map SendItem.id ++ S.freedItem
    freedData := c.sendList.map SendItem.id ++ (c.send.map SendSnap.id).toList ++ S.freedData }

/-- The part of `acc_rsvr_event_hdl` for a connection that can be written to. -/
def accRsvrEventHdl (S : SendRsvr) (cid : BitVec 64) (c : SendConn) (ws : List Write) : SendRsvr :=
  let p := c.accSendData ws
  let S := { S with
    conns := Function.update S.conns cid (some (c.after p))
    freedItem := p.freedItem ++ S.freedItem
    freedData := p.freedData ++ S.freedData }
  if p.ret = .err then { S.accRsvrDelConn cid (c.after p) with closed := (cid, p.failed) :: S.closed } else S

def step (S : SendRsvr) : SendEvent → Option SendRsvr
  | .open cid => S.accRsvrAddConn cid
  | .asyncSend cid data place => some (S.accAsyncSend cid data place)
  | .dist mem => some (S.accRsvrDistSendData mem)
  | .writable cid ws => (S.conns cid).map fun c => S.accRsvrEventHdl cid c ws
  | .close cid => (S.conns cid).map fun c => S.accRsvrDelConn cid c

end SendRsvr

end BeehiveIm.Access
