/-
The user service (`exec/usrsvr/controllers/mesg.go`) and a WebSocket listener, with the messages
between them, which may overtake each other. What the handlers do to the sessions is in
`Session`. What `proto.Unmarshal` makes of a body, `proto.Marshal` of a message and
`online_token_decode` of a token is left open.
-/
import BeehiveIm.Session
import BeehiveIm.Websocket

namespace BeehiveIm.Usrsvr

open BeehiveIm.Session BeehiveIm.Websocket
open BeehiveIm.GoChat (Rid Gid)

def cmdOnlineAck : BitVec 32 := 0x0102
def cmdKick : BitVec 32 := 0x0110

def errSysSystem : BitVec 32 := 10001
def errSvrDataCollision : BitVec 32 := 20009
def errSvrBodyInvalid : BitVec 32 := 20011
def errSvrCheckFail : BitVec 32 := 20012

structure OnlineToken where
  uid : BitVec 64
  ttl : Int
  sid : BitVec 64

/-- A `MesgOnline` comes with its token. -/
structure Env where
  lsnd : Websocket.Env
  online : List (BitVec 8) → Except String (MesgOnline × List (BitVec 8))
  token : List (BitVec 8) → Option OnlineToken
  onlineAck : MesgOnlineAck → List (BitVec 8)
  kick : BitVec 32 → String → List (BitVec 8)

section

variable (env : Env) (s : Store) (now : Int)

/-- The header with what the handlers pass on. -/
def sessionHead (head : Websocket.MesgHeader) : Session.MesgHeader := ⟨head.sid, head.cid, head.nid⟩

/-- `online_req_check` -/
def onlineReqCheck (req : MesgOnline) (token : List (BitVec 8)) : Except String Unit :=
  match env.token token with
  | none => .error "Decode token failed!"
  | some token =>
    if token.ttl < now then .error "Token is timeout!"
    else if token.uid ≠ req.uid ∨ token.sid ≠ req.sid then .error "Token is invalid!!"
    else .ok ()

/-- `online_ack`, and `online_failed` with a code that is not 0. -/
def onlineAck (head : Websocket.MesgHeader) (ack : MesgOnlineAck) : Packet :=
  let body := env.onlineAck ack
  ⟨{ head with cmd := cmdOnlineAck, length := .ofNat 32 body.length }, body⟩

/-- `send_kick` -/
def sendKick (sid cid : BitVec 64) (nid code : BitVec 32) (errmsg : String) : Packet :=
  let body := env.kick code errmsg
  ⟨⟨cmdKick, .ofNat 32 body.length, sid, cid, nid, 0, 0, 0⟩, body⟩

/-- `UsrSvrOnlineHandler`, with `online_parse` and `online_handler`; `seq` is what the sequence
server answers, if it does. A `proto.Marshal` that fails would lose the ack, and does not. -/
def usrSvrOnlineHandler (seq : Option (BitVec 64)) (data : Packet) : Store × List Packet :=
  if !data.head.isValid true then (s, [])
  else
    match env.online data.body with
    | .error _ => (s, [onlineAck env data.head ⟨0, 0, errSvrBodyInvalid⟩])
    | .ok (req, token) =>
      match onlineReqCheck env now req token with
      | .error _ => (s, [onlineAck env data.head ⟨req.sid, 0, errSvrCheckFail⟩])
      | .ok () =>
        let head := sessionHead data.head
        let attr := s.getSidAttr req.sid
        let kicks :=
          if Store.conflict attr head req then
            [sendKick env req.sid attr.cid attr.nid errSvrDataCollision "Session's nid is collision!"]
          else []
        let s := s.imOnlineHandler head req now seq.isSome
        match seq with
        | none => (s, kicks ++ [onlineAck env data.head ⟨req.sid, 0, errSysSystem⟩])
        | some seq => (s, kicks ++ [onlineAck env data.head ⟨req.sid, seq, 0⟩])

/-- `UsrSvrPingHandler`, with `ping_handler` -/
def usrSvrPingHandler (data : Packet) : Store × List Packet :=
  if !data.head.isValid true then (s, [])
  else
    let head := sessionHead data.head
    match s.updateSessionData head.sid head.cid head.nid now with
    | .ok s => (s, [])
    | .error err =>
      (s.clean head.sid head.cid head.nid, [sendKick env head.sid head.cid head.nid errSvrDataCollision err])

/-- `UsrSvrOfflineHandler` -/
def usrSvrOfflineHandler (data : Packet) : Store × List Packet :=
  if !data.head.isValid true then (s, []) else (s.offlineHandler (sessionHead data.head), [])

/-- The user service on a message from a listener. -/
def usrsvr (seq : Option (BitVec 64)) (cmd : BitVec 32) (data : Packet) : Store × List Packet :=
  if cmd = cmdOnline then usrSvrOnlineHandler env s now seq data
  else if cmd = cmdPing then usrSvrPingHandler env s now data
  else if cmd = cmdOffline then usrSvrOfflineHandler s data
  else (s, [])

end

/-! ## Both ends -/

/-- What is on its way up is in `lsnd.frwder`, what is on its way down to this listener in
`down`. -/
structure World where
  im : Store
  lsnd : LsndCntx
  down : List Packet

/-- What happens at the listener and its connections, the arrival of a message in flight at the user
service or at the listener, and of one from another listener at the user service. -/
inductive Event where
  | connect
  | recv (conn : BitVec 64) (data : Packet) (order : List (Rid × Gid))
  | timer
  | close (conn : BitVec 64) (order : List (Rid × Gid))
  | up (i : Nat) (now : Int) (seq : Option (BitVec 64))
  | other (cmd : BitVec 32) (data : Packet) (now : Int) (seq : Option (BitVec 64))
  | down (i : Nat)

namespace World

def init (nid : BitVec 32) : World := ⟨.empty, .init nid, []⟩

/-- The user service handles a message, and what it sends to this listener is on its way. -/
def handle (env : Env) (w : World) (now : Int) (seq : Option (BitVec 64)) (cmd : BitVec 32) (data : Packet) : World :=
  let (im, sent) := usrsvr env w.im now seq cmd data
  { w with im := im, down := w.down ++ sent.filter fun p => p.head.nid = w.lsnd.nid }

/-- The listener handles a message from the user service. -/
def upmesg (env : Env) (w : World) (data : Packet) : World :=
  if data.head.cmd = cmdOnlineAck then { w with lsnd := w.lsnd.lsndUpMesgOnlineAckHandler env.lsnd data }
  else if data.head.cmd = cmdKick then { w with lsnd := w.lsnd.lsndUpMesgKickHandler env.lsnd data }
  else w

def step (env : Env) (w : World) : Event → World
  | .connect => { w with lsnd := w.lsnd.step env.lsnd .connect }
  | .recv conn data order => { w with lsnd := w.lsnd.step env.lsnd (.recv conn data order) }
  | .timer => { w with lsnd := w.lsnd.step env.lsnd .timer }
  | .close conn order => { w with lsnd := w.lsnd.step env.lsnd (.close conn order) }
  | .up i now seq =>
    match w.lsnd.frwder[i]? with
    | none => w
    | some m => { w with lsnd := { w.lsnd with frwder := w.lsnd.frwder.eraseIdx i } }.handle env now seq m.cmd m.data
  | .other cmd data now seq => if data.head.nid = w.lsnd.nid then w else w.handle env now seq cmd data
  | .down i =>
    match w.down[i]? with
    | none => w
    | some data => { w with down := w.down.eraseIdx i }.upmesg env data

end World

end BeehiveIm.Usrsvr
