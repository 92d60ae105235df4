/-
The group requests as the user server (`exec/usrsvr/controllers/gmesg.go`) and the message server
(`exec/msgsvr/controllers/gmesg.go`) handle them. A request is handled as a whole and the clock is
read once for it. The body comes unmarshalled, or as the error of that. A GROUP-CREAT is always
refused: redigo (`redis/reply.go`) makes an error of the integer that `INCR` answers with.
-/
import BeehiveIm.Groups
import BeehiveIm.Lib.Strconv
import BeehiveIm.Room

namespace BeehiveIm.Groups

open BeehiveIm.Lib
open BeehiveIm.Session (MesgHeader)
open BeehiveIm.Room (isValid)

def errSysSystem : Nat := 10001
def errSvrParseParam : Nat := 20005
def errSvrInvalidParam : Nat := 20007
def errSvrAuthFail : Nat := 20008
def errSvrBodyInvalid : Nat := 20011
def errSvrCheckFail : Nat := 20012

def cmdGroupCreatAck : Nat := 0x0302
def cmdGroupDismissAck : Nat := 0x0304
def cmdGroupJoinAck : Nat := 0x0306
def cmdGroupQuitAck : Nat := 0x0308
def cmdGroupInviteAck : Nat := 0x030A
def cmdGroupChat : Nat := 0x030B
def cmdGroupChatAck : Nat := 0x030C
def cmdGroupKickAck : Nat := 0x030E
def cmdGroupGagAddAck : Nat := 0x0311
def cmdGroupGagDelAck : Nat := 0x0313
def cmdGroupBlAddAck : Nat := 0x0315
def cmdGroupBlDelAck : Nat := 0x0317
def cmdGroupMgrAddAck : Nat := 0x0319
def cmdGroupMgrDelAck : Nat := 0x031B
def cmdGroupJoinNtf : Nat := 0x0350
def cmdGroupQuitNtf : Nat := 0x0352
def cmdGroupKickNtf : Nat := 0x0354
def cmdGroupGagAddNtf : Nat := 0x0356
def cmdGroupGagDelNtf : Nat := 0x0358
def cmdGroupBlAddNtf : Nat := 0x0360
def cmdGroupBlDelNtf : Nat := 0x0362
def cmdGroupMgrAddNtf : Nat := 0x0364
def cmdGroupMgrDelNtf : Nat := 0x0366

/-! ## Requests -/

/-- What is read of a `MesgGroupCreat`. -/
structure MesgGroupCreat where
  uid : BitVec 64
  name : String

/-- A `MesgGroupDismiss`, `Join`, `Quit`, `Kick`, `GagAdd`, `GagDel`, `BlAdd`,
`BlDel`, `MgrAdd` or `MgrDel`. -/
structure MesgGroup where
  uid : BitVec 64
  gid : BitVec 64

structure MesgGroupInvite where
  uid : BitVec 64
  gid : BitVec 64
  toUid : BitVec 64

structure MesgGroupChat where
  uid : BitVec 64
  gid : BitVec 64
  level : BitVec 32
  time : BitVec 64
  text : String
  data : List (BitVec 8)

/-- What `proto.Unmarshal` makes of the body, by command. -/
inductive Request where
  | creat (body : Except String MesgGroupCreat)
  | dismiss (body : Except String MesgGroup)
  | join (body : Except String MesgGroup)
  | quit (body : Except String MesgGroup)
  | invite (body : Except String MesgGroupInvite)
  | kick (body : Except String MesgGroup)
  | gag (body : Except String MesgGroup) (gag : Bool)
  | bl (body : Except String MesgGroup) (add : Bool)
  | mgr (body : Except String MesgGroup) (add : Bool)
  | chat (body : Except String MesgGroupChat)

/-! ## What a handler reads and leaves -/

inductive Body where
  /-- `MesgGroupJoinAck` and `MesgGroupChatAck` -/
  | ack (code : Nat) (errmsg : String)
  /-- `MesgGroupJoinNtf` and the other notifications -/
  | ntf (uid gid : BitVec 64)
  | chat (req : MesgGroupChat)

structure Packet where
  cmd : Nat
  head : MesgHeader
  body : Body

/-- The tables of the groups, and `chat:gid:incr`. -/
structure World where
  store : Store
  gidIncr : Int

/-- The sessions of the user server, the clock, and the nodes of each group as the message
server has them in memory. -/
structure Env where
  im : Session.Store
  now : Int
  node : BitVec 64 → List (BitVec 32)

/-- What a handler returns, leaves of the tables, sends, and puts in `group_mesg_chan`. -/
structure Out where
  ret : Int
  world : World
  sent : List Packet
  item : Option MesgGroupChat

/-- `groupSendSimpleAck`, `group_chat_failed` and `group_chat_ack` -/
def groupSendSimpleAck (cmd : Nat) (head : MesgHeader) (code : Nat) (errmsg : String) : Packet :=
  ⟨cmd, head, .ack code errmsg⟩

/-- A request that is refused with an error. -/
def fail (w : World) (cmd : Nat) (head : MesgHeader) (code : Nat) (errmsg : String) : Out :=
  ⟨-1, w, [groupSendSimpleAck cmd head code errmsg], none⟩

/-- `uint32` of `strconv.ParseInt(_, 10, 32)` of a `uint32` in decimal. -/
def parseInt32 (id : BitVec 32) : BitVec 32 := if id.toNat < 2 ^ 31 then id else 0x7fffffff#32

/-- `GroupGetGidToNidSet` -/
def groupGetGidToNidSet (s : Store) (gid : BitVec 64) (now : Int) : List (BitVec 32) :=
  ((s.gidToNid gid).rangeByScore (some now) none).map fun e => parseInt32 e.1

/-- `groupBroadcast` -/
def groupBroadcast (cmd : Nat) (uid gid : BitVec 64) (s : Store) (now : Int) : List Packet :=
  (groupGetGidToNidSet s gid now).map fun nid => ⟨cmd, ⟨0, 0, nid⟩, .ntf uid gid⟩

/-- An operation that goes well, of which nobody else is told. -/
def done (w : World) (cmd : Nat) (head : MesgHeader) (errmsg : String) : Out :=
  ⟨0, w, [groupSendSimpleAck cmd head 0 errmsg], none⟩

/-- The ack, and the notification of the nodes of the group. -/
def announce (w : World) (ackCmd ntfCmd : Nat) (head : MesgHeader) (uid gid : BitVec 64) (now : Int) : Out :=
  ⟨0, w, groupSendSimpleAck ackCmd head 0 "Ok" :: groupBroadcast ntfCmd uid gid w.store now, none⟩

/-- An operation on the tables. -/
def World.call (w : World) (call : Call) : Except String Unit × World :=
  ((call.prog.run exec w.store).1, { w with store := w.store.step call })

/-! ## The user server -/

/-- `groupOperatorUID` -/
def groupOperatorUID (im : Session.Store) (head : MesgHeader) : Except String (BitVec 64) :=
  let attr := im.getSidAttr head.sid
  if attr.uid = 0 then .error "sid not online" else .ok attr.uid

/-- `chatGroupIsManager` -/
def chatGroupIsManager (role : Int) : Bool := role = groupRoleOwner ∨ role = groupRoleManager

/-- `groupRequireManager` -/
def groupRequireManager (s : Store) (gid operatorUID : BitVec 64) : Except String Unit :=
  match (s.role gid).lookup operatorUID with
  | none => .error "permission denied"
  | some role => if chatGroupIsManager role then .ok () else .error "permission denied"

/-- What redigo hands back for a command. -/
inductive Reply where
  | int (n : Int)
  | bulk (s : List Byte)
  | status (s : List Byte)
  | nil
  | error (err : String)

/-- `redis.String` -/
def redisString : Reply → Except String (List Byte)
  | .bulk s | .status s => .ok s
  | .nil => .error "redigo: nil returned"
  | .error err => .error err
  | .int _ => .error "redigo: unexpected type for String, got type int64"

/-- `INCR chat:gid:incr`; a counter at its end is not counted up. -/
def incr (w : World) : Reply × World :=
  if w.gidIncr + 1 ≥ 2 ^ 63 then (.error "ERR increment or decrement would overflow", w)
  else (.int (w.gidIncr + 1), { w with gidIncr := w.gidIncr + 1 })

/-- `strconv.ParseUint(_, 10, 64)` without its error. -/
def parseUint64 (s : List Byte) : BitVec 64 :=
  match strconvParseUint 10 64 s with
  | .ok n => BitVec.ofNat 64 n
  | .error .errSyntax => 0
  | .error .errRange => BitVec.allOnes 64

/-- `allocGid` -/
def allocGid (w : World) : Except String (BitVec 64) × World :=
  let (reply, w) := incr w
  match redisString reply with
  | .error err => (.error err, w)
  | .ok gidStr => (.ok (parseUint64 gidStr), w)

/-- `UsrSvrGroupCreatHandler`; a failed join is only logged. -/
def usrSvrGroupCreatHandler (env : Env) (head : MesgHeader) (body : Except String MesgGroupCreat) (w : World) : Out :=
  if !isValid head then ⟨-1, w, [], none⟩
  else
    match body with
    | .error err => fail w cmdGroupCreatAck head errSvrBodyInvalid err
    | .ok req =>
      if req.uid = 0 ∨ req.name = "" then fail w cmdGroupCreatAck head errSvrInvalidParam "uid or name invalid"
      else
        match allocGid w with
        | (.error err, w) => fail w cmdGroupCreatAck head errSysSystem err
        | (.ok gid, w) =>
          match w.call (.register gid req.uid env.now) with
          | (.error err, w) => fail w cmdGroupCreatAck head errSysSystem err
          | (.ok (), w) =>
            let (_, w) := w.call (.joinOnline gid req.uid head.sid head.nid env.now env.now)
            done w cmdGroupCreatAck head ("Ok:" ++ toString gid.toNat)

/-- `UsrSvrGroupDismissHandler` -/
def usrSvrGroupDismissHandler (_ : Env) (head : MesgHeader) (body : Except String MesgGroup) (w : World) : Out :=
  if !isValid head then ⟨-1, w, [], none⟩
  else
    match body with
    | .error err => fail w cmdGroupDismissAck head errSvrBodyInvalid err
    | .ok req =>
      if (w.store.role req.gid).lookup req.uid ≠ some groupRoleOwner then fail w cmdGroupDismissAck head errSvrAuthFail "owner only"
      else
        match w.call (.dismiss req.gid) with
        | (.error err, w) => fail w cmdGroupDismissAck head errSysSystem err
        | (.ok (), w) => done w cmdGroupDismissAck head "Ok"

/-- `ERR_SVR_CHECK_FAIL`, but for `ErrGroupNotFound`. -/
def joinErrCode (err : String) : Nat := if err = "group not found" then errSvrInvalidParam else errSvrCheckFail

/-- `UsrSvrGroupJoinHandler` -/
def usrSvrGroupJoinHandler (env : Env) (head : MesgHeader) (body : Except String MesgGroup) (w : World) : Out :=
  if !isValid head then ⟨-1, w, [], none⟩
  else
    match body with
    | .error err => fail w cmdGroupJoinAck head errSvrBodyInvalid err
    | .ok req =>
      match w.call (.joinOnline req.gid req.uid head.sid head.nid env.now env.now) with
      | (.error err, w) => fail w cmdGroupJoinAck head (joinErrCode err) err
      | (.ok (), w) => announce w cmdGroupJoinAck cmdGroupJoinNtf head req.uid req.gid env.now

/-- `UsrSvrGroupQuitHandler` -/
def usrSvrGroupQuitHandler (env : Env) (head : MesgHeader) (body : Except String MesgGroup) (w : World) : Out :=
  if !isValid head then ⟨-1, w, [], none⟩
  else
    match body with
    | .error err => fail w cmdGroupQuitAck head errSvrBodyInvalid err
    | .ok req =>
      match w.call (.quit req.gid req.uid head.sid) with
      | (.error err, w) => fail w cmdGroupQuitAck head errSysSystem err
      | (.ok (), w) => announce w cmdGroupQuitAck cmdGroupQuitNtf head req.uid req.gid env.now

/-- `UsrSvrGroupInviteHandler` -/
def usrSvrGroupInviteHandler (env : Env) (head : MesgHeader) (body : Except String MesgGroupInvite) (w : World) : Out :=
  if !isValid head then ⟨-1, w, [], none⟩
  else
    match body with
    | .error err => fail w cmdGroupInviteAck head errSvrBodyInvalid err
    | .ok req =>
      match groupRequireManager w.store req.gid req.uid with
      | .error err => fail w cmdGroupInviteAck head errSvrAuthFail err
      | .ok () =>
        match w.call (.addMember req.gid req.toUid env.now) with
        | (.error err, w) => fail w cmdGroupInviteAck head (joinErrCode err) err
        | (.ok (), w) => announce w cmdGroupInviteAck cmdGroupJoinNtf head req.toUid req.gid env.now

/-- `UsrSvrGroupKickHandler` -/
def usrSvrGroupKickHandler (env : Env) (head : MesgHeader) (body : Except String MesgGroup) (w : World) : Out :=
  if !isValid head then ⟨-1, w, [], none⟩
  else
    match body with
    | .error err => fail w cmdGroupKickAck head errSvrBodyInvalid err
    | .ok req =>
      match groupOperatorUID env.im head with
      | .error err => fail w cmdGroupKickAck head errSvrAuthFail err
      | .ok operator =>
        match groupRequireManager w.store req.gid operator with
        | .error err => fail w cmdGroupKickAck head errSvrAuthFail err
        | .ok () =>
          match w.call (.kick req.gid req.uid) with
          | (.error err, w) => fail w cmdGroupKickAck head errSysSystem err
          | (.ok (), w) => announce w cmdGroupKickAck cmdGroupKickNtf head req.uid req.gid env.now

/-- `ctxGroupGag` and `ctxGroupBL`, by the operation on the target. -/
def ctxGroupSet (ackCmd ntfCmd : Nat) (call : BitVec 64 → BitVec 64 → Call) (env : Env) (head : MesgHeader)
    (body : Except String MesgGroup) (w : World) : Out :=
  if !isValid head then ⟨-1, w, [], none⟩
  else
    match body with
    | .error err => fail w ackCmd head errSvrBodyInvalid err
    | .ok req =>
      match groupOperatorUID env.im head >>= groupRequireManager w.store req.gid with
      | .error _ => fail w ackCmd head errSvrAuthFail "permission denied"
      | .ok () =>
        match w.call (call req.gid req.uid) with
        | (.error err, w) => fail w ackCmd head errSysSystem err
        | (.ok (), w) => announce w ackCmd ntfCmd head req.uid req.gid env.now

/-- `ctxGroupGag` -/
def ctxGroupGag (gag : Bool) : Env → MesgHeader → Except String MesgGroup → World → Out :=
  ctxGroupSet (if gag then cmdGroupGagAddAck else cmdGroupGagDelAck)
    (if gag then cmdGroupGagAddNtf else cmdGroupGagDelNtf)
    fun gid uid => .setGag gid uid gag

/-- `ctxGroupBL` -/
def ctxGroupBL (add : Bool) : Env → MesgHeader → Except String MesgGroup → World → Out :=
  ctxGroupSet (if add then cmdGroupBlAddAck else cmdGroupBlDelAck) (if add then cmdGroupBlAddNtf else cmdGroupBlDelNtf)
    fun gid uid => .setBlacklist gid uid add

/-- `ctxGroupMgr` -/
def ctxGroupMgr (add : Bool) (env : Env) (head : MesgHeader) (body : Except String MesgGroup) (w : World) : Out :=
  let ackCmd := if add then cmdGroupMgrAddAck else cmdGroupMgrDelAck
  if !isValid head then ⟨-1, w, [], none⟩
  else
    match body with
    | .error err => fail w ackCmd head errSvrBodyInvalid err
    | .ok req =>
      match groupOperatorUID env.im head with
      | .error err => fail w ackCmd head errSvrAuthFail err
      | .ok operator =>
        if (w.store.role req.gid).lookup operator ≠ some groupRoleOwner then fail w ackCmd head errSvrAuthFail "owner only"
        else
          match w.call (.setManager req.gid req.uid add) with
          | (.error err, w) => fail w ackCmd head errSvrCheckFail err
          | (.ok (), w) =>
            announce w ackCmd (if add then cmdGroupMgrAddNtf else cmdGroupMgrDelNtf) head req.uid req.gid env.now

/-! ## The message server -/

/-- `MsgSvrGroupChatHandler`, with `group_chat_handler`. -/
def msgSvrGroupChatHandler (env : Env) (head : MesgHeader) (body : Except String MesgGroupChat) (w : World) : Out :=
  if !isValid head then ⟨-1, w, [], none⟩
  else
    match body with
    | .error _ => fail w cmdGroupChatAck head errSvrParseParam "Body is invalid!"
    | .ok req =>
      if ((w.store.role req.gid).lookup req.uid).isNone then fail w cmdGroupChatAck head errSvrCheckFail "not in group"
      else if req.uid ∈ w.store.gag req.gid then fail w cmdGroupChatAck head errSvrAuthFail "user gagged"
      else if req.text = "" then fail w cmdGroupChatAck head errSvrInvalidParam "empty message"
      else
        let chats := (env.node req.gid).map fun nid => ⟨cmdGroupChat, ⟨head.sid, 0, nid⟩, .chat req⟩
        ⟨0, w, chats ++ [groupSendSimpleAck cmdGroupChatAck head 0 "Ok"], some req⟩

def handle (env : Env) (head : MesgHeader) : Request → World → Out
  | .creat body => usrSvrGroupCreatHandler env head body
  | .dismiss body => usrSvrGroupDismissHandler env head body
  | .join body => usrSvrGroupJoinHandler env head body
  | .quit body => usrSvrGroupQuitHandler env head body
  | .invite body => usrSvrGroupInviteHandler env head body
  | .kick body => usrSvrGroupKickHandler env head body
  | .gag body gag => ctxGroupGag gag env head body
  | .bl body add => ctxGroupBL add env head body
  | .mgr body add => ctxGroupMgr add env head body
  | .chat body => msgSvrGroupChatHandler env head body

/-! ## The calls of a request -/

/-- The session's user may manage the group. -/
def manages (env : Env) (head : MesgHeader) (w : World) (gid : BitVec 64) : Bool :=
  (groupOperatorUID env.im head >>= groupRequireManager w.store gid).isOk

/-- The session's user is an owner of the group. -/
def rules (env : Env) (head : MesgHeader) (w : World) (gid : BitVec 64) : Bool :=
  match groupOperatorUID env.im head with
  | .error _ => false
  | .ok operator => (w.store.role gid).lookup operator = some groupRoleOwner

/-- The operation on the tables that a request comes to. -/
def Request.call (env : Env) (head : MesgHeader) (w : World) : Request → Option Call
  | .dismiss (.ok req) =>
    if isValid head ∧ (w.store.role req.gid).lookup req.uid = some groupRoleOwner then some (.dismiss req.gid) else none
  | .join (.ok req) =>
    if isValid head then some (.joinOnline req.gid req.uid head.sid head.nid env.now env.now) else none
  | .quit (.ok req) => if isValid head then some (.quit req.gid req.uid head.sid) else none
  | .invite (.ok req) =>
    if isValid head ∧ (groupRequireManager w.store req.gid req.uid).isOk then
      some (.addMember req.gid req.toUid env.now)
    else none
  | .kick (.ok req) => if isValid head ∧ manages env head w req.gid then some (.kick req.gid req.uid) else none
  | .gag (.ok req) on => if isValid head ∧ manages env head w req.gid then some (.setGag req.gid req.uid on) else none
  | .bl (.ok req) add =>
    if isValid head ∧ manages env head w req.gid then some (.setBlacklist req.gid req.uid add) else none
  | .mgr (.ok req) add =>
    if isValid head ∧ rules env head w req.gid then some (.setManager req.gid req.uid add) else none
  | _ => none

variable {env : Env} {head : MesgHeader} {w : World}

/-- A group never gets an id. -/
theorem allocGid_error (w : World) : ∃ err w', allocGid w = (.error err, w') ∧ w'.store = w.store := by
  unfold allocGid incr
  -- the answer is an error or an integer, and `redisString` takes neither
  by_cases h : w.gidIncr + 1 ≥ 2 ^ 63
  · rw [if_pos h]
    exact ⟨_, _, rfl, rfl⟩
  · rw [if_neg h]
    exact ⟨_, _, rfl, rfl⟩

/-- Whichever way an operation ends, its store is the one that is left. -/
theorem call_store (call : Call) (failed : String → World → Out) (ok : World → Out)
    (hfailed : ∀ err w, (failed err w).world = w) (hok : ∀ w, (ok w).world = w) :
    (match w.call call with
      | (.error err, w) => failed err w
      | (.ok (), w) => ok w).world.store = w.store.step call := by
  split
  · rename_i err w' h
    rw [hfailed]
    exact (congrArg (·.2.store) h).symm
  · rename_i w' h
    rw [hok]
    exact (congrArg (·.2.store) h).symm

/-- A body that cannot be read is refused. -/
theorem refused_store {cmd code : Nat} {err : String} {out : Out}
    (h : out = if !isValid head then ⟨-1, w, [], none⟩ else fail w cmd head code err) : out.world.store = w.store := by
  subst h
  split
  · rfl
  · rfl

theorem ctxGroupSet_store (ackCmd ntfCmd : Nat) (call : BitVec 64 → BitVec 64 → Call) (req : MesgGroup) :
    (ctxGroupSet ackCmd ntfCmd call env head (.ok req) w).world.store =
      (if isValid head ∧ manages env head w req.gid then some (call req.gid req.uid) else none).elim
        w.store w.store.step := by
  unfold ctxGroupSet manages
  dsimp only
  cases isValid head with
  | false => rfl
  | true =>
    generalize groupOperatorUID env.im head >>= groupRequireManager w.store req.gid = r
    cases r with
    | error err => rfl
    | ok _ => exact call_store _ _ _ (fun _ _ => rfl) fun _ => rfl

theorem usrSvrGroupCreatHandler_store (req : MesgGroupCreat) :
    (usrSvrGroupCreatHandler env head (.ok req) w).world.store = w.store := by
  unfold usrSvrGroupCreatHandler
  split
  · rfl
  · dsimp only
    split
    · rfl
    · -- the registration that would follow is never come to
      obtain ⟨err, w', halloc, hw'⟩ := allocGid_error w
      rw [halloc]
      exact hw'

theorem usrSvrGroupInviteHandler_store (req : MesgGroupInvite) :
    (usrSvrGroupInviteHandler env head (.ok req) w).world.store =
      ((Request.invite (.ok req)).call env head w).elim w.store w.store.step := by
  unfold usrSvrGroupInviteHandler Request.call
  dsimp only
  cases isValid head with
  | false => rfl
  | true =>
    generalize groupRequireManager w.store req.gid req.uid = r
    cases r with
    | error err => rfl
    | ok _ => exact call_store _ _ _ (fun _ _ => rfl) fun _ => rfl

theorem usrSvrGroupKickHandler_store (req : MesgGroup) : (usrSvrGroupKickHandler env head (.ok req) w).world.store =
    ((Request.kick (.ok req)).call env head w).elim w.store w.store.step := by
  unfold usrSvrGroupKickHandler Request.call manages
  dsimp only
  cases isValid head with
  | false => rfl
  | true =>
    cases groupOperatorUID env.im head with
    | error err => rfl
    | ok operator =>
      dsimp only [bind, Except.bind]
      by_cases hmgr : groupRequireManager w.store req.gid operator = .ok ()
      · simp only [hmgr, Except.isOk, Except.toBool, Bool.not_true, Bool.false_eq_true, if_false, and_self, if_true]
        rfl
      · obtain ⟨err, herr⟩ : ∃ err, groupRequireManager w.store req.gid operator = .error err := by
          cases h : groupRequireManager w.store req.gid operator with
          | error err => exact ⟨err, rfl⟩
          | ok _ => exact absurd h hmgr
        simp [herr, fail, Except.isOk, Except.toBool]

theorem ctxGroupMgr_store (add : Bool) (req : MesgGroup) : (ctxGroupMgr add env head (.ok req) w).world.store =
    ((Request.mgr (.ok req) add).call env head w).elim w.store w.store.step := by
  unfold ctxGroupMgr Request.call rules
  dsimp only
  cases isValid head with
  | false => rfl
  | true =>
    cases groupOperatorUID env.im head with
    | error err => rfl
    | ok operator =>
      by_cases hrole : (w.store.role req.gid).lookup operator = some groupRoleOwner
      · simp only [hrole, Bool.not_true, Bool.false_eq_true, if_false, ne_eq, not_true, and_self, decide_true, if_true]
        exact call_store _ _ _ (fun _ _ => rfl) fun _ => rfl
      · simp [hrole, fail]

theorem msgSvrGroupChatHandler_store (body : Except String MesgGroupChat) :
    (msgSvrGroupChatHandler env head body w).world.store = w.store := by
  unfold msgSvrGroupChatHandler
  split
  · rfl
  · split
    · rfl
    · split
      · rfl
      · split
        · rfl
        · split
          · rfl
          · rfl

/-- A request leaves the tables as its call does. -/
theorem handle_store (req : Request) :
    (handle env head req w).world.store = (req.call env head w).elim w.store w.store.step := by
  cases req with
  | creat body =>
    cases body with
    | error err => exact refused_store rfl
    | ok req => exact usrSvrGroupCreatHandler_store req
  | dismiss body =>
    cases body with
    | error err => exact refused_store rfl
    | ok req =>
      unfold handle usrSvrGroupDismissHandler Request.call
      dsimp only
      cases isValid head with
      | false => rfl
      | true =>
        by_cases hrole : (w.store.role req.gid).lookup req.uid = some groupRoleOwner
        · simp only [hrole, Bool.not_true, Bool.false_eq_true, if_false, ne_eq, not_true, and_self, if_true]
          exact call_store _ _ _ (fun _ _ => rfl) fun _ => rfl
        · simp [hrole, fail]
  | join body =>
    cases body with
    | error err => exact refused_store rfl
    | ok req =>
      unfold handle usrSvrGroupJoinHandler Request.call
      dsimp only
      cases isValid head with
      | false => rfl
      | true => exact call_store _ _ _ (fun _ _ => rfl) fun _ => rfl
  | quit body =>
    cases body with
    | error err => exact refused_store rfl
    | ok req =>
      unfold handle usrSvrGroupQuitHandler Request.call
      dsimp only
      cases isValid head with
      | false => rfl
      | true => rfl
  | invite body =>
    cases body with
    | error err => exact refused_store rfl
    | ok req => exact usrSvrGroupInviteHandler_store req
  | kick body =>
    cases body with
    | error err => exact refused_store rfl
    | ok req => exact usrSvrGroupKickHandler_store req
  | gag body on =>
    cases body with
    | error err => exact refused_store rfl
    | ok req => exact ctxGroupSet_store _ _ _ req
  | bl body add =>
    cases body with
    | error err => exact refused_store rfl
    | ok req => exact ctxGroupSet_store _ _ _ req
  | mgr body add =>
    cases body with
    | error err => exact refused_store rfl
    | ok req => exact ctxGroupMgr_store add req
  | chat body => exact msgSvrGroupChatHandler_store body

end BeehiveIm.Groups
