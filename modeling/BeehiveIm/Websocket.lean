/-
The WebSocket listener (`exec/websocket/controllers`, `lib/lws`): its connections, what their
clients send, and the ONLINE-ACKs and KICKs from upstream. Each message is handled as a whole. Send
queues do not fill up, the counter of the connections does not come round, and a packet too short
for a header, over which a handler panics and recovers, is none.
-/
import BeehiveIm.GoChat

namespace BeehiveIm.Websocket

open BeehiveIm.Lib BeehiveIm.GoChat

def cmdOnline : BitVec 32 := 0x0101
def cmdOffline : BitVec 32 := 0x0103
def cmdPing : BitVec 32 := 0x0105
def cmdPong : BitVec 32 := 0x0106
def cmdUnsub : BitVec 32 := 0x0109
def cmdRoomQuit : BitVec 32 := 0x0407

structure MesgHeader where
  cmd : BitVec 32
  length : BitVec 32
  sid : BitVec 64
  cid : BitVec 64
  nid : BitVec 32
  seq : BitVec 64
  dsid : BitVec 64
  dseq : BitVec 64
  deriving DecidableEq

/-- `IsValid`, with the flag 1 or 0. -/
def MesgHeader.isValid (head : MesgHeader) (flag : Bool) : Bool := head.nid ≠ 0 ∧ (flag → head.sid ≠ 0)

/-- The header and the body. -/
structure Packet where
  head : MesgHeader
  body : List (BitVec 8)
  deriving DecidableEq

/-- What is read of a `MesgOnlineAck`. -/
structure MesgOnlineAck where
  sid : BitVec 64
  seq : BitVec 64
  code : BitVec 32

/-- `proto.Unmarshal` for a `MesgOnlineAck`, the command of a `MesgUnsub`, the room of a
`MesgRoomQuit`, and a `MesgKick`, of which nothing is read. -/
structure Env where
  onlineAck : List (BitVec 8) → Except String MesgOnlineAck
  unsub : List (BitVec 8) → Except String (BitVec 32)
  roomQuit : List (BitVec 8) → Except String Rid
  kick : List (BitVec 8) → Except String Unit

/-- The states of a connection that are ever set. -/
inductive ConnStatus where
  | ready
  | check
  | login
  | logout
  deriving DecidableEq

structure LsndConnExtra where
  sid : BitVec 64
  seq : BitVec 64
  status : ConnStatus
  deriving DecidableEq

/-- What goes upstream, and for which connection. -/
structure Upmesg where
  conn : BitVec 64
  cmd : BitVec 32
  data : Packet
  deriving DecidableEq

/-- `LsndCntx` with its `LwsCntx`: `cid` is the last connection id given out, `extra` has the object
of each connection, also of one that is closed, and the chat table points to an object by its id. -/
structure LsndCntx where
  nid : BitVec 32
  cid : BitVec 64
  extra : BitVec 64 → LsndConnExtra
  opened : Finset (BitVec 64)
  iskick : Finset (BitVec 64)
  chat : ChatTab (BitVec 64)
  kickList : List (BitVec 64)
  frwder : List Upmesg
  sendq : List (BitVec 64 × Packet)

namespace LsndCntx

def init (nid : BitVec 32) : LsndCntx := ⟨nid, 0, fun _ => ⟨0, 0, .ready⟩, ∅, ∅, ChatTab.init _, [], [], []⟩

variable (ctx : LsndCntx)

def setExtra (conn : BitVec 64) (g : LsndConnExtra → LsndConnExtra) : LsndCntx :=
  { ctx with extra := Function.update ctx.extra conn (g (ctx.extra conn)) }

@[simp] theorem extra_setExtra_self (conn : BitVec 64) (g : LsndConnExtra → LsndConnExtra) :
    (ctx.setExtra conn g).extra conn = g (ctx.extra conn) := Function.update_self ..

theorem extra_setExtra_of_ne {ctx : LsndCntx} {c conn : BitVec 64} (g : LsndConnExtra → LsndConnExtra) (h : c ≠ conn) :
    (ctx.setExtra conn g).extra c = ctx.extra c := Function.update_of_ne h ..

def setStatus (conn : BitVec 64) (status : ConnStatus) : LsndCntx :=
  ctx.setExtra conn fun e => { e with status := status }

/-- `SetSeq`; `none` when it answers `false`. -/
def setSeq (conn seq : BitVec 64) : Option LsndCntx :=
  if (ctx.extra conn).seq < seq then some (ctx.setExtra conn fun e => { e with seq := seq }) else none

/-- `frwder.AsyncSend` -/
def forward (conn : BitVec 64) (cmd : BitVec 32) (data : Packet) : LsndCntx :=
  { ctx with frwder := ctx.frwder ++ [⟨conn, cmd, data⟩] }

/-- `lws.AsyncSend` -/
def asyncSend (cid : BitVec 64) (data : Packet) : LsndCntx :=
  if cid ∉ ctx.opened ∨ cid ∈ ctx.iskick then ctx else { ctx with sendq := ctx.sendq ++ [(cid, data)] }

/-- `lws.Kick`: the connection is closed when its queue is. -/
def kick (cid : BitVec 64) : LsndCntx :=
  if cid ∉ ctx.opened ∨ cid ∈ ctx.iskick then ctx else { ctx with iskick := insert cid ctx.iskick }

/-- `kick_add` -/
def kickAdd (cid : BitVec 64) : LsndCntx := { ctx with kickList := ctx.kickList ++ [cid] }

/-! ## `mesg.go` -/

/-- The header as the handlers rewrite it. -/
def rewrite (conn : BitVec 64) (data : Packet) : Packet :=
  { data with head := { data.head with cid := conn, nid := ctx.nid } }

/-- `LsndMesgCommHandler` -/
def lsndMesgCommHandler (conn : BitVec 64) (cmd : BitVec 32) (data : Packet) : LsndCntx × Int :=
  if (ctx.extra conn).status ≠ .login then (ctx.kick conn, -1)
  else (ctx.forward conn cmd (ctx.rewrite conn data), 0)

/-- `LsndMesgOnlineHandler` -/
def lsndMesgOnlineHandler (conn : BitVec 64) (cmd : BitVec 32) (data : Packet) : LsndCntx × Int :=
  if (ctx.extra conn).status ≠ .ready ∧ (ctx.extra conn).status ≠ .check then (ctx, 0)
  else
    match ctx.chat.sessionGetParam data.head.sid conn with
    | some _ => (ctx, 0)
    | none =>
      let ctx := ctx.setExtra conn fun e => { e with sid := data.head.sid }
      let ctx := { ctx with chat := (ctx.chat.sessionSetParam data.head.sid conn (some conn)).1 }
      let ctx := ctx.forward conn cmd (ctx.rewrite conn data)
      (ctx.setStatus conn .check, 0)

/-- `LsndMesgOfflineHandler` -/
def lsndMesgOfflineHandler (conn : BitVec 64) : LsndCntx × Int :=
  if (ctx.extra conn).status ≠ .login then (ctx.kick conn, -1)
  else ((ctx.setStatus conn .logout).kick conn, 0)

/-- `LsndMesgPingHandler` -/
def lsndMesgPingHandler (conn : BitVec 64) (cmd : BitVec 32) (data : Packet) : LsndCntx × Int :=
  if (ctx.extra conn).status ≠ .login then (ctx.kick conn, -1)
  else
    let data := ctx.rewrite conn data
    let ctx := ctx.forward conn cmd data
    (ctx.asyncSend conn ⟨{ data.head with cmd := cmdPong }, []⟩, 0)

/-- `LsndMesgUnsubHandler` -/
def lsndMesgUnsubHandler (env : Env) (conn : BitVec 64) (cmd : BitVec 32) (data : Packet) : LsndCntx × Int :=
  if (ctx.extra conn).status ≠ .login then (ctx.kick conn, -1)
  else
    match env.unsub data.body with
    | .error _ => (ctx, -1)
    | .ok unsub =>
      let ctx := { ctx with chat := (ctx.chat.subDel data.head.sid conn unsub).1 }
      (ctx.forward conn cmd (ctx.rewrite conn data), 0)

/-- `LsndMesgRoomQuitHandler` -/
def lsndMesgRoomQuitHandler (env : Env) (conn : BitVec 64) (cmd : BitVec 32) (data : Packet) : LsndCntx × Int :=
  if (ctx.extra conn).status ≠ .login then (ctx.kick conn, -1)
  else if data.head.sid = 0 then (ctx.kick conn, -1)
  else
    match env.roomQuit data.body with
    | .error _ => (ctx, -1)
    | .ok rid =>
      let ctx := { ctx with chat := (ctx.chat.roomQuit rid (ctx.extra conn).sid conn).1 }
      (ctx.forward conn cmd (ctx.rewrite conn data), 0)

/-- The handlers that are registered. -/
inductive MesgCallBack where
  | comm
  | online
  | offline
  | ping
  | unsub
  | roomQuit
  deriving DecidableEq

/-- `callback.Query`; what has no handler of its own goes to the one of `CMD_UNKNOWN`,
as does much that has. -/
def query (cmd : BitVec 32) : MesgCallBack :=
  if cmd = cmdOnline then .online
  else if cmd = cmdOffline then .offline
  else if cmd = cmdPing then .ping
  else if cmd = cmdUnsub then .unsub
  else if cmd = cmdRoomQuit then .roomQuit
  else .comm

def proc (env : Env) (conn : BitVec 64) (cmd : BitVec 32) (data : Packet) : MesgCallBack → LsndCntx × Int
  | .comm => ctx.lsndMesgCommHandler conn cmd data
  | .online => ctx.lsndMesgOnlineHandler conn cmd data
  | .offline => ctx.lsndMesgOfflineHandler conn
  | .ping => ctx.lsndMesgPingHandler conn cmd data
  | .unsub => ctx.lsndMesgUnsubHandler env conn cmd data
  | .roomQuit => ctx.lsndMesgRoomQuitHandler env conn cmd data

/-! ## `websocket.go` and `lws` -/

/-- `lsnd_conn_recv` -/
def lsndConnRecv (env : Env) (conn : BitVec 64) (data : Packet) : LsndCntx × Int :=
  if !({ data.head with nid := ctx.nid }).isValid true then (ctx, -1)
  else
    match ctx.setSeq conn data.head.seq with
    | none => (ctx, -1)
    | some ctx => ctx.proc env conn data.head.cmd data (query data.head.cmd)

/-- `offline_notify` -/
def offlineNotify (sid cid : BitVec 64) : LsndCntx :=
  ctx.forward cid cmdOffline ⟨⟨cmdOffline, 0, sid, cid, ctx.nid, 0, 0, 0⟩, []⟩

/-- `lsnd_conn_destroy` -/
def lsndConnDestroy (conn : BitVec 64) (order : List (Rid × Gid)) : LsndCntx :=
  let sid := (ctx.extra conn).sid
  let ctx := { ctx with chat := (ctx.chat.sessionDel sid conn order).1 }
  ctx.offlineNotify sid conn

/-- `ConnPoolDel` -/
def connPoolDel (cid : BitVec 64) : LsndCntx :=
  { ctx with opened := ctx.opened.erase cid, iskick := ctx.iskick.erase cid }

/-- `conn_handler` up to its routines, with `lsnd_conn_init` and `ConnPoolAdd` -/
def connHandler : LsndCntx :=
  if ctx.cid = BitVec.allOnes 64 then ctx
  else
    let cid := ctx.cid + 1
    { ctx with cid := cid, extra := Function.update ctx.extra cid ⟨0, 0, .ready⟩, opened := insert cid ctx.opened }

/-- The end of `recv_routine` -/
def close (conn : BitVec 64) (order : List (Rid × Gid)) : LsndCntx := (ctx.lsndConnDestroy conn order).connPoolDel conn

/-- A round of `recv_routine` -/
def recv (env : Env) (conn : BitVec 64) (data : Packet) (order : List (Rid × Gid)) : LsndCntx :=
  match ctx.lsndConnRecv env conn data with
  | (ctx, ret) => if ret ≠ 0 then ctx.close conn order else ctx

/-! ## `upmesg.go` -/

/-- `lsnd_error_online_ack_handler` -/
def lsndErrorOnlineAckHandler (cid : BitVec 64) (data : Packet) : LsndCntx := (ctx.asyncSend cid data).kickAdd cid

/-- `LsndUpMesgOnlineAckHandler` -/
def lsndUpMesgOnlineAckHandler (env : Env) (data : Packet) : LsndCntx :=
  let cid := data.head.cid
  if !data.head.isValid true then ctx
  else
    match env.onlineAck data.body with
    | .error _ => ctx.lsndErrorOnlineAckHandler cid data
    | .ok ack =>
      if ack.code ≠ 0 then ctx.lsndErrorOnlineAckHandler cid data
      else
        match ctx.chat.sessionGetParam ack.sid cid with
        | none => ctx.lsndErrorOnlineAckHandler cid data
        | some conn =>
          match ctx.setSeq conn ack.seq with
          | none => ctx.lsndErrorOnlineAckHandler cid data
          | some ctx =>
            let ctx := ctx.setStatus conn .login
            let oldCid := ctx.chat.getCidBySid ack.sid
            let ctx := if cid ≠ oldCid then ctx.kickAdd oldCid else ctx
            let ctx := { ctx with chat := (ctx.chat.sessionSetCid ack.sid cid).1 }
            ctx.asyncSend cid data

/-- `LsndUpMesgKickHandler` -/
def lsndUpMesgKickHandler (env : Env) (data : Packet) : LsndCntx :=
  if !data.head.isValid false then ctx
  else
    match env.kick data.body with
    | .error _ => ctx
    | .ok _ =>
      let cid := ctx.chat.getCidBySid data.head.sid
      if cid = 0 then ctx
      else
        match ctx.chat.sessionGetParam data.head.sid cid with
        | none => ctx
        | some conn => (ctx.asyncSend conn data).kickAdd conn

/-- A round of `task_timer_kick` -/
def taskTimerKick : LsndCntx :=
  match ctx.kickList with
  | [] => ctx
  | cid :: list => { ctx with kickList := list }.kick cid

/-! ## Runs -/

/-- What happens at the listener. `order` is that of `range ssn.room` where a session is deleted. -/
inductive Event where
  | connect
  | recv (conn : BitVec 64) (data : Packet) (order : List (Rid × Gid))
  | onlineAck (data : Packet)
  | kick (data : Packet)
  | timer
  | close (conn : BitVec 64) (order : List (Rid × Gid))

/-- A connection receives and is closed only while it is open. -/
def step (env : Env) (ctx : LsndCntx) : Event → LsndCntx
  | .connect => ctx.connHandler
  | .recv conn data order => if conn ∈ ctx.opened then ctx.recv env conn data order else ctx
  | .onlineAck data => ctx.lsndUpMesgOnlineAckHandler env data
  | .kick data => ctx.lsndUpMesgKickHandler env data
  | .timer => ctx.taskTimerKick
  | .close conn order => if conn ∈ ctx.opened then ctx.close conn order else ctx

end LsndCntx

end BeehiveIm.Websocket
