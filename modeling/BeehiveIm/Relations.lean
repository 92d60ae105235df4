/-
The personal relations as the user server handles them (`exec/usrsvr/controllers/pmesg.go`,
`exec/usrsvr/models/blacklist.go`): friends, the blacklist and the gag list of a user. A packet is
handled as a whole and the clock is read once for it. Redis commands do not fail; MongoDB may. What
`proto.Unmarshal` makes of a body is left open.
-/
import BeehiveIm.Lib.Keys
import BeehiveIm.Room

namespace BeehiveIm.Relations

open BeehiveIm.Lib
open BeehiveIm.Session (MesgHeader parseInt)
open BeehiveIm.Room (isValid)

def errSysSystem : Nat := 10001
def errSvrBodyInvalid : Nat := 20011

def cmdFriendAdd : Nat := 0x0203
def cmdFriendAddAck : Nat := 0x0204
def cmdFriendDel : Nat := 0x0205
def cmdFriendDelAck : Nat := 0x0206
def cmdBlacklistAddAck : Nat := 0x0208
def cmdBlacklistDelAck : Nat := 0x020A
def cmdGagAddAck : Nat := 0x020C

inductive Cmd where
  | friendAdd
  | friendDel
  | blacklistAdd
  | blacklistDel
  | gagAdd
  | gagDel
  deriving DecidableEq

/-- What is read of a `MesgFriendAdd`, `FriendDel`, `BlacklistAdd`, `BlacklistDel`, `GagAdd` or
`GagDel`. -/
structure MesgRelation where
  suid : BitVec 64
  duid : BitVec 64
  deriving DecidableEq

/-- A packet as it comes: what is read of its header, and what stands behind that. -/
structure Packet where
  head : MesgHeader
  seq : BitVec 64
  length : BitVec 32
  data : List (BitVec 8)

inductive Body where
  /-- The data behind the header of a request, copied into a buffer of the given length. -/
  | copy (data : List (BitVec 8)) (length : BitVec 32)
  | ack (code : Nat) (errmsg : String)
  deriving DecidableEq

/-- A packet as it is sent. -/
structure Message where
  cmd : Nat
  head : MesgHeader
  seq : BitVec 64
  body : Body
  deriving DecidableEq

/-- `BlacklistTabRow` -/
structure BlacklistTabRow where
  uid : BitVec 64
  buid : BitVec 64
  ctm : Int

/-- `chat:uid:%d:blacklist:tab`, `chat:uid:%d:gag:zset` and the collection `BlackList`. -/
structure Store where
  blacklist : BitVec 64 → BitVec 64 → Option Int
  gag : BitVec 64 → ZSet (BitVec 64)
  rows : List BlacklistTabRow

def Store.empty : Store := ⟨fun _ _ => none, fun _ => ∅, []⟩

/-- The sessions of the user server, the clock, whether MongoDB answers, and `proto.Unmarshal`. -/
structure Env where
  im : Session.Store
  now : Int
  mongo : Bool
  unmarshal : Cmd → List (BitVec 8) → Except String MesgRelation

/-- What a handler returns, leaves of the relations and sends. It returns nothing when it panics,
which `handle_routine` recovers from by closing the connection to the forwarder. -/
structure Out where
  ret : Option Int
  store : Store
  sent : Multiset Message

/-- `send_data` -/
def sendData (cmd : Nat) (sid cid : BitVec 64) (nid : BitVec 32) (seq : BitVec 64) (body : Body) : Message :=
  ⟨cmd, ⟨sid, cid, nid⟩, seq, body⟩

/-- The ack of a request: `friendAddAck`, `friendAddFailed` and those of the others. -/
def ack (cmd : Nat) (p : Packet) (code : Nat) (errmsg : String) : Message :=
  sendData cmd p.head.sid p.head.cid p.head.nid p.seq (.ack code errmsg)

/-! ## What the bodies parse to -/

inductive Parsed where
  /-- There is no header, so there is nobody to answer. -/
  | nilHead
  | nilReq (code : Nat) (err : String)
  | ok (req : MesgRelation)
  | panic

/-- `proto.Unmarshal`. It resets the message first, through the pointer it is given. -/
def unmarshal (env : Env) (cmd : Cmd) (allocated : Bool) (data : List (BitVec 8)) :
    Option (Except String MesgRelation) :=
  if allocated then some (env.unmarshal cmd data) else none

/-- `friendAddParse` and `friendDelParse` -/
def friendParse (cmd : Cmd) (env : Env) (p : Packet) : Parsed :=
  if !isValid p.head then .nilHead
  else
    match unmarshal env cmd true p.data with
    | none => .panic
    | some (.error err) => .nilReq errSvrBodyInvalid err
    | some (.ok req) =>
      if 0 = req.suid ∨ 0 = req.duid then .nilReq errSvrBodyInvalid "Paramter isn't right!" else .ok req

def friendAddParse : Env → Packet → Parsed := friendParse .friendAdd
def friendDelParse : Env → Packet → Parsed := friendParse .friendDel

/-- The four other parsers. Nothing is ever assigned to `req`, which they name as their result. -/
def relationParse (cmd : Cmd) (env : Env) (p : Packet) : Parsed :=
  if !isValid p.head then .nilHead
  else
    match unmarshal env cmd false p.data with
    | none => .panic
    | some (.error err) => .nilReq errSvrBodyInvalid err
    | some (.ok req) => .ok req

def blacklistAddParse : Env → Packet → Parsed := relationParse .blacklistAdd
def blacklistDelParse : Env → Packet → Parsed := relationParse .blacklistDel
def gagAddParse : Env → Packet → Parsed := relationParse .gagAdd
def gagDelParse : Env → Packet → Parsed := relationParse .gagDel

/-! ## What is done -/

/-- What one session in `uid:%d:to:sid:set` is sent. -/
def deliver (cmd : Nat) (env : Env) (p : Packet) (req : MesgRelation) (sid : BitVec 64) : Option Message :=
  let attr := env.im.getSidAttr (parseInt sid)
  if 0 = attr.nid then none
  else if attr.uid ≠ req.duid then none
  else some (sendData cmd (parseInt sid) attr.cid attr.nid p.seq (.copy p.data p.length))

/-- `friendAddHandler` and `friendDelHandler`; the members of a set come in no order. -/
def friendHandler (cmd : Nat) (env : Env) (p : Packet) (req : MesgRelation) : Multiset Message :=
  (env.im.uidToSid req.duid).val.filterMap (deliver cmd env p req)

def friendAddHandler : Env → Packet → MesgRelation → Multiset Message := friendHandler cmdFriendAdd
def friendDelHandler : Env → Packet → MesgRelation → Multiset Message := friendHandler cmdFriendDel

/-- `RdsBlacklistAdd` -/
def rdsBlacklistAdd (s : Store) (uid blUid : BitVec 64) (ctm : Int) : Store :=
  { s with blacklist := put s.blacklist uid fun tab => put tab blUid fun _ => some ctm }

/-- `DbBlacklistAdd`. What `Insert` returns is dropped. -/
def dbBlacklistAdd (mongo : Bool) (s : Store) (uid blUid : BitVec 64) (ctm : Int) : Store :=
  if mongo then { s with rows := s.rows ++ [⟨uid, blUid, ctm⟩] } else s

/-- `blacklistAddHandler` -/
def blacklistAddHandler (env : Env) (req : MesgRelation) (s : Store) : Store :=
  dbBlacklistAdd env.mongo (rdsBlacklistAdd s req.suid req.duid env.now) req.suid req.duid env.now

/-- `blacklist_del_handler` -/
def blacklistDelHandler (_ : Env) (req : MesgRelation) (s : Store) : Store :=
  { s with blacklist := put s.blacklist req.suid fun tab => put tab req.duid fun _ => none }

/-- `gagAddHandler` -/
def gagAddHandler (env : Env) (req : MesgRelation) (s : Store) : Store :=
  { s with gag := put s.gag req.suid fun z => z.add env.now req.duid }

/-- `gag_del_handler` -/
def gagDelHandler (_ : Env) (req : MesgRelation) (s : Store) : Store :=
  { s with gag := put s.gag req.suid fun z => z.rem req.duid }

/-! ## The requests -/

/-- `UsrSvrFriendAddHandler` and `UsrSvrFriendDelHandler` -/
def usrSvrFriendHandler (ackCmd : Nat) (parse : Env → Packet → Parsed)
    (handler : Env → Packet → MesgRelation → Multiset Message) (env : Env) (p : Packet) (s : Store) : Out :=
  match parse env p with
  | .nilHead => ⟨some (-1), s, 0⟩
  | .nilReq code err => ⟨some (-1), s, {ack ackCmd p code err}⟩
  | .panic => ⟨none, s, 0⟩
  | .ok req => ⟨some 0, s, ack ackCmd p 0 "Ok" ::ₘ handler env p req⟩

def usrSvrFriendAddHandler : Env → Packet → Store → Out :=
  usrSvrFriendHandler cmdFriendAddAck friendAddParse friendAddHandler

def usrSvrFriendDelHandler : Env → Packet → Store → Out :=
  usrSvrFriendHandler cmdFriendDelAck friendDelParse friendDelHandler

/-- The check of the other handlers. -/
def collides (env : Env) (p : Packet) (req : MesgRelation) : Bool :=
  let attr := env.im.getSidAttr p.head.sid
  0 ≠ attr.uid ∧ attr.uid ≠ req.suid

/-- What the other handlers do with a body that has been parsed. -/
def serve (ackCmd : Nat) (handler : Env → MesgRelation → Store → Store) (env : Env) (p : Packet) (req : MesgRelation)
    (s : Store) : Out :=
  if collides env p req then ⟨some (-1), s, {ack ackCmd p errSysSystem "Uid is collision!"}⟩
  else ⟨some 0, handler env req s, {ack ackCmd p 0 "Ok"}⟩

/-- The other four handlers. -/
def usrSvrRelationHandler (ackCmd : Nat) (parse : Env → Packet → Parsed) (handler : Env → MesgRelation → Store → Store)
    (env : Env) (p : Packet) (s : Store) : Out :=
  match parse env p with
  | .nilHead => ⟨some (-1), s, 0⟩
  | .nilReq code err => ⟨some (-1), s, {ack ackCmd p code err}⟩
  | .panic => ⟨none, s, 0⟩
  | .ok req => serve ackCmd handler env p req s

def usrSvrBlacklistAddHandler : Env → Packet → Store → Out :=
  usrSvrRelationHandler cmdBlacklistAddAck blacklistAddParse blacklistAddHandler

def usrSvrBlacklistDelHandler : Env → Packet → Store → Out :=
  usrSvrRelationHandler cmdBlacklistDelAck blacklistDelParse blacklistDelHandler

def usrSvrGagAddHandler : Env → Packet → Store → Out :=
  usrSvrRelationHandler cmdGagAddAck gagAddParse gagAddHandler

/-- It answers with the ack of GAG-ADD. -/
def usrSvrGagDelHandler : Env → Packet → Store → Out :=
  usrSvrRelationHandler cmdGagAddAck gagDelParse gagDelHandler

def handle : Cmd → Env → Packet → Store → Out
  | .friendAdd => usrSvrFriendAddHandler
  | .friendDel => usrSvrFriendDelHandler
  | .blacklistAdd => usrSvrBlacklistAddHandler
  | .blacklistDel => usrSvrBlacklistDelHandler
  | .gagAdd => usrSvrGagAddHandler
  | .gagDel => usrSvrGagDelHandler

end BeehiveIm.Relations
