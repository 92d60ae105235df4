/-
What the listener in C passes on for its clients (`listend.c`, `lsnd_mesg.c`). An ONLINE is
as in `Listend.Conn`; all other messages are handled here, as far as they go upstream, with
the header they go with. `conn->nid` is `conf->nid` from the start. What a ROOM-QUIT does to
the chat table is left out.
-/
import BeehiveIm.Listend.Conn
import BeehiveIm.Websocket

namespace BeehiveIm.Listend

open BeehiveIm.Lib BeehiveIm.Core
open BeehiveIm.Websocket (MesgHeader Packet)

/-- The handlers that are registered for clients (`lsnd_set_reg`). -/
inductive Proc where
  | mesgDef
  | online
  | offline
  | ping
  | roomJoin
  | roomQuit
  | upmesgDef
  deriving DecidableEq

/-- The commands of `lsnd_mesg_def_handler`: `CMD_UNKNOWN`, `CMD_CHAT`, `CMD_FRIEND_ADD`,
`CMD_FRIEND_DEL`, `CMD_BLACKLIST_ADD`, `CMD_BLACKLIST_DEL`, `CMD_GAG_ADD`, `CMD_GAG_DEL`,
`CMD_MARK_ADD`, `CMD_MARK_DEL` and `CMD_ROOM_CHAT`. -/
def defCmds : List (BitVec 32) := [0, 0x0201, 0x0203, 0x0205, 0x0207, 0x0209, 0x020B, 0x020D, 0x0210, 0x0212, 0x040B]

/-- The acknowledgements that are registered for clients with the handler for
messages from upstream. -/
def ackCmds : List (BitVec 32) := [0x0204, 0x0206, 0x0208, 0x020A, 0x020C, 0x020E, 0x0211, 0x0213]

/-- `avl_query` of `lsnd->reg` -/
def query (type : BitVec 32) : Option Proc :=
  if type ∈ defCmds then some .mesgDef
  else if type = 0x0101 then some .online
  else if type = 0x0103 then some .offline
  else if type = 0x0105 then some .ping
  else if type = 0x0405 then some .roomJoin
  else if type = 0x0407 then some .roomQuit
  else if type ∈ ackCmds then some .upmesgDef
  else none

namespace LsndCntx

/-- The listener after a message, what has gone upstream, and whether the handler answers 0. -/
structure Handled where
  lsnd : LsndCntx
  sent : Option Packet
  ok : Bool

variable (L : LsndCntx) (nid : BitVec 32) (conn : Ptr) (data : Packet) (sent : Bool)

/-- `rtmq_proxy_async_send` of the message with another header; `sent` is whether it could be
sent. -/
def forward (head : MesgHeader) : Handled := ⟨L, if sent then some { data with head := head } else none, sent⟩

/-- `lsnd_mesg_def_handler` -/
def lsndMesgDefHandler : Handled :=
  L.forward data sent { data.head with sid := (L.extra conn).sid, cid := (L.extra conn).cid, nid := nid }

/-- `lsnd_mesg_offline_handler`, which never answers 0. -/
def lsndMesgOfflineHandler : Option Handled :=
  match sessionKey.query L.connKey L.connList (data.head.sid, (L.extra conn).cid) with
  | none => none
  | some none => some ⟨L, none, false⟩
  | some (some extra) =>
    some { (L.setExtra extra fun e => { e with stat := .offline }).forward data sent
      { data.head with cid := (L.extra conn).cid, nid := nid } with ok := false }

/-- `lsnd_mesg_room_join_handler` -/
def lsndMesgRoomJoinHandler : Handled := L.forward data sent { data.head with nid := nid }

/-- `lsnd_mesg_room_quit_handler`; `unpack` is whether `mesg_room_quit__unpack` can read the
body. -/
def lsndMesgRoomQuitHandler (unpack : BitVec 32 → List (BitVec 8) → Bool) : Handled :=
  if unpack data.head.length data.body then L.forward data sent { data.head with cid := (L.extra conn).cid, nid := nid }
  else ⟨L, none, false⟩

/-- The callback of `lsnd_callback_recv_handler`. A PING is answered, and an acknowledgement goes
to the client it names. -/
def proc (unpack : BitVec 32 → List (BitVec 8) → Bool) : Proc → Option Handled
  | .mesgDef => some (L.lsndMesgDefHandler nid conn data sent)
  | .offline => L.lsndMesgOfflineHandler nid conn data sent
  | .roomJoin => some (L.lsndMesgRoomJoinHandler nid data sent)
  | .roomQuit => some (L.lsndMesgRoomQuitHandler nid conn data sent unpack)
  | _ => some ⟨L, none, true⟩

/-- `lsnd_callback_recv_handler` of anything but an ONLINE -/
def lsndCallbackRecv (unpack : BitVec 32 → List (BitVec 8) → Bool) : Option Handled :=
  if (L.extra conn).stat = .kick then some ⟨L, none, true⟩
  else if data.head.seq ≤ (L.extra conn).seq then some ⟨L, none, false⟩
  else
    let L := L.setExtra conn fun e => { e with seq := data.head.seq }
    match query data.head.cmd with
    | some proc => L.proc nid conn data sent unpack proc
    | none =>
      if (L.extra conn).stat ≠ .online then some ⟨L, none, true⟩
      else L.proc nid conn data sent unpack .mesgDef

/-- The connection that a positive ONLINE-ACK puts online. -/
def acked (sid cid : BitVec 64) : Option Ptr :=
  match sessionKey.query L.connKey L.connList (sid, cid) with
  | some (some extra) => if (L.extra extra).stat = .establish ∧ sid ≠ 0 then some extra else none
  | _ => none

end LsndCntx

/-! ## Runs -/

/-- The listener, and, which it does not keep, the session that each connection is logged in as: the
one for which it has been put online by an ONLINE-ACK with the code 0. -/
structure World where
  lsnd : LsndCntx
  login : Ptr → Option (BitVec 64)

/-- What reaches the listener. `mem` is whether the allocator has memory. -/
inductive World.Event where
  | connect (cid : BitVec 64)
  | recv (p : Ptr) (data : Packet) (mem sent : Bool)
  | onlineAck (sid seq cid oldCid : BitVec 64) (code : BitVec 32) (mem : Bool)
  | kick (sid cid : BitVec 64) (mem : Bool)
  | disconnect (p : Ptr)

namespace World

def init : World := ⟨.init, fun _ => none⟩

/-- A handler that does not answer 0 has the connection closed. The code of an
ONLINE-ACK is not looked at. -/
def step (nid : BitVec 32) (unpack : BitVec 32 → List (BitVec 8) → Bool) (w : World) : Event → Option World
  | .connect cid => (w.lsnd.step (.connect cid)).map fun L => ⟨L, Function.update w.login w.lsnd.next none⟩
  | .recv p data mem sent =>
    if query data.head.cmd = some .online then
      (w.lsnd.step (.online p data.head.sid data.head.seq mem sent)).map fun L => { w with lsnd := L }
    else if p ∈ w.lsnd.opened then
      match w.lsnd.lsndCallbackRecv nid p data sent unpack with
      | none => none
      | some ⟨L, _, true⟩ => some { w with lsnd := L }
      | some ⟨L, _, false⟩ => (L.lsndCallbackDestroyHandler p).map fun L => { w with lsnd := L }
    else some w
  | .onlineAck sid seq cid oldCid code mem =>
    (w.lsnd.step (.onlineAck sid seq cid oldCid mem)).map fun L =>
      match w.lsnd.acked sid cid with
      | none => { w with lsnd := L }
      | some extra => ⟨L, Function.update w.login extra (if code = 0 then some sid else none)⟩
  | .kick sid cid mem => (w.lsnd.step (.kick sid cid mem)).map fun L => { w with lsnd := L }
  | .disconnect p => (w.lsnd.step (.disconnect p)).map fun L => { w with lsnd := L }

/-- What an event sends upstream, if it is no ONLINE. -/
def forwarded (nid : BitVec 32) (unpack : BitVec 32 → List (BitVec 8) → Bool) (w : World) : Event → Option Packet
  | .recv p data _ sent =>
    if query data.head.cmd = some .online then none
    else if p ∈ w.lsnd.opened then
      match w.lsnd.lsndCallbackRecv nid p data sent unpack with
      | none => none
      | some r => r.sent
    else none
  | _ => none

end World

end BeehiveIm.Listend
