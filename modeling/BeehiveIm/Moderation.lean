/-
Moderation over HTTP (`exec/usrsvr/controllers/gconfig.go`,
`exec/chatroom/controllers/config.go`) and the path of the messages, which reads the same keys.
Here these keys have types: a command against a key of another type fails. Everything else is as
in `Groups` and `Room`, whose own gag and blacklist tables stay unused. An operation has Redis to
itself; a pipeline does not tell which of its commands failed.
-/
import BeehiveIm.Groups.Handlers
import BeehiveIm.Lib.Typed
import BeehiveIm.Room.Authority

namespace BeehiveIm.Moderation

open BeehiveIm.Lib
open BeehiveIm.Session (MesgHeader chatSidTtl)
open BeehiveIm.Groups (groupRoleMember groupRedisUIDs MesgGroupChat)
open BeehiveIm.Room (MesgRoom isValid)

/-- `chat:gid:%d:usr:gag:set`, `chat:gid:%d:usr:blacklist:set`, `room:rid:%d:usr:gag:set` and
`room:rid:%d:usr:blacklist:set`. -/
inductive Key where
  | groupGag (gid : BitVec 64)
  | groupBlacklist (gid : BitVec 64)
  | roomGag (rid : BitVec 64)
  | roomBlacklist (rid : BitVec 64)
  deriving DecidableEq

/-- The tables of the groups and the rooms, these keys, and how many commands have failed so far. -/
structure Store where
  groups : Groups.Store
  rooms : Room.Store
  value : Key → Option (Value (BitVec 64))
  failures : Nat

def Store.empty : Store := ⟨.empty, .empty, fun _ => none, 0⟩

/-! ## Commands -/

inductive Cmd where
  | groups (c : Groups.Cmd)
  | rooms (c : Room.Cmd)
  | key (k : Key) (c : Command (BitVec 64))

abbrev Cmd.Reply : Cmd → Type
  | .groups c => c.Reply
  | .rooms c => c.Reply
  | .key .. => Except String Bool

/-- One more when the answer is an error. -/
def failed (r : Except String Bool) : Nat :=
  match r with
  | .ok _ => 0
  | .error _ => 1

def exec : (c : Cmd) → Store → c.Reply × Store
  | .groups c, s => ((Groups.exec c s.groups).1, { s with groups := (Groups.exec c s.groups).2 })
  | .rooms c, s => ((Room.exec c s.rooms).1, { s with rooms := (Room.exec c s.rooms).2 })
  | .key k c, s =>
    let r := c.run (s.value k)
    (r.1, { s with value := put s.value k fun _ => r.2, failures := s.failures + failed r.1 })

abbrev Redis := Prog Cmd.Reply

/-- `Do`, and `Send` in a pipeline. -/
def redo (c : Cmd) : Redis c.Reply := .issue c .ret

/-- What a `Do` is for that only looks at the error. -/
def check (k : Key) (c : Command (BitVec 64)) : Redis (Except String Unit) := do
  match ← redo (.key k c) with
  | .error err => return .error err
  | .ok _ => return .ok ()

def onGroups {α : Type} (p : Groups.Redis α) : Redis α := p.lift .groups fun _ r => r

def onRooms {α : Type} (p : Room.Redis α) : Redis α := p.lift .rooms fun _ r => r

/-! ## Groups (`lib/chat/group_ops.go`, `exec/msgsvr/controllers/gmesg.go`) -/

/-- `GroupJoinOnline` -/
def groupJoinOnline (gid uid sid : BitVec 64) (nid : BitVec 32) (now now' : Int) : Redis (Except String Unit) := do
  if !(← onGroups (Groups.groupExists gid now)) then return .error "group not found"
  match ← redo (.key (.groupBlacklist gid) (.sismember uid)) with
  | .error err => return .error err
  | .ok inBL =>
    if inBL then return .error "user is blacklisted"
    let role ← onGroups (Groups.groupGetRole gid uid)
    if role.isNone then
      redo (.groups (.hsetRole gid uid groupRoleMember))
      redo (.groups (.hsetUidToGid uid gid))
    let ttl := now' + chatSidTtl
    redo (.groups (.zaddUid gid ttl uid))
    redo (.groups (.zaddSid gid ttl sid))
    redo (.groups (.zaddNid gid ttl nid))
    return .ok ()

/-- `GroupAddMember` -/
def groupAddMember (gid uid : BitVec 64) (now : Int) : Redis (Except String Unit) := do
  if !(← onGroups (Groups.groupExists gid now)) then return .error "group not found"
  match ← redo (.key (.groupBlacklist gid) (.sismember uid)) with
  | .error err => return .error err
  | .ok inBL =>
    if inBL then return .error "user is blacklisted"
    let role ← onGroups (Groups.groupGetRole gid uid)
    if role.isSome then return .error "already in group"
    redo (.groups (.hsetRole gid uid groupRoleMember))
    redo (.groups (.hsetUidToGid uid gid))
    return .ok ()

/-- `GroupKick` -/
def groupKick (gid uid : BitVec 64) : Redis (Except String Unit) := do
  redo (.groups (.hdelRole gid uid))
  redo (.groups (.zremUid gid uid))
  redo (.groups (.hdelUidToGid uid gid))
  let _ ← redo (.key (.groupGag gid) (.srem uid))
  return .ok ()

/-- `GroupDismiss` -/
def groupDismiss (gid : BitVec 64) : Redis (Except String Unit) := do
  let uids := groupRedisUIDs (← redo (.groups (.hkeysRole gid)))
  uids.forM fun uid => redo (.groups (.hdelUidToGid uid gid))
  redo (.groups (.delRole gid))
  redo (.groups (.delNid gid))
  redo (.groups (.delUid gid))
  redo (.groups (.delSid gid))
  let _ ← redo (.key (.groupGag gid) .del)
  let _ ← redo (.key (.groupBlacklist gid) .del)
  redo (.groups (.zremGid gid))
  return .ok ()

/-- `GroupIsGagged` -/
def groupIsGagged (gid uid : BitVec 64) : Redis (Except String Bool) := redo (.key (.groupGag gid) (.sismember uid))

/-- `GroupSetGag` -/
def groupSetGag (gid uid : BitVec 64) (gag : Bool) : Redis (Except String Unit) :=
  check (.groupGag gid) (if gag then .sadd uid else .srem uid)

/-- `GroupSetBlacklist` -/
def groupSetBlacklist (gid uid : BitVec 64) (add : Bool) : Redis (Except String Unit) := do
  if add then
    match ← groupKick gid uid with
    | .error err => return .error err
    | .ok () => check (.groupBlacklist gid) (.sadd uid)
  else check (.groupBlacklist gid) (.srem uid)

def call : Groups.Call → Redis (Except String Unit)
  | .register gid ownerUID now => onGroups (Groups.groupRegister gid ownerUID now)
  | .joinOnline gid uid sid nid now now' => groupJoinOnline gid uid sid nid now now'
  | .addMember gid uid now => groupAddMember gid uid now
  | .quit gid uid sid => onGroups (Groups.groupQuit gid uid sid)
  | .kick gid uid => groupKick gid uid
  | .dismiss gid => groupDismiss gid
  | .setManager gid uid manager => onGroups (Groups.groupSetManager gid uid manager)
  | .setGag gid uid gag => groupSetGag gid uid gag
  | .setBlacklist gid uid add => groupSetBlacklist gid uid add

/-- `MsgSvrGroupChatHandler` as far as its checks go. -/
def msgSvrGroupChatHandler (head : MesgHeader) (req : MesgGroupChat) : Redis (Except String Unit) := do
  if !isValid head then return .error "Header is invalid!"
  let role ← onGroups (Groups.groupGetRole req.gid req.uid)
  if role.isNone then return .error "not in group"
  match ← groupIsGagged req.gid req.uid with
  | .error err => return .error err
  | .ok gagged =>
    if gagged then return .error "user gagged"
    if req.text = "" then return .error "empty message"
    return .ok ()

/-! ## Rooms (`exec/chatroom/controllers`) -/

/-- `roomJoinHandler` -/
def roomJoinHandler (head : MesgHeader) (req : MesgRoom) (now : Int) : Redis (Except String (BitVec 32)) := do
  match ← redo (.key (.roomBlacklist req.rid) (.sismember req.uid)) with
  | .error err => return .error err
  | .ok banned =>
    if banned then return .error "User is in blacklist!"
    let gid ← onRooms (Room.allocRoomGid req.rid)
    let ttl := now + chatSidTtl
    redo (.rooms (.zincrbyNum req.rid 1 gid.toNat head.sid))
    redo (.rooms (.zaddUidSid req.rid ttl req.uid head.sid))
    redo (.rooms (.zaddSid req.rid ttl head.sid))
    redo (.rooms (.zaddNid req.rid ttl head.nid))
    redo (.rooms (.zaddRidZset ttl req.rid))
    redo (.rooms (.zaddRid head.sid ttl req.rid))
    return .ok gid

/-- `ChatRoomJoinHandler` -/
def chatRoomJoinHandler (head : MesgHeader) (req : MesgRoom) (now now' : Int) : Redis (Except String (BitVec 32)) := do
  if !isValid head then return .error "Header of room-join failed!"
  match ← onRooms (Room.validateRoomJoin head req now) with
  | .error err => return .error err
  | .ok () => roomJoinHandler head req now'

/-- `ChatRoomKickHandler`, with `roomKickHandler`. -/
def chatRoomKickHandler (head : MesgHeader) (req : MesgRoom) : Redis (Except String Unit) := do
  if !isValid head then return .error "Header of room-kick is invalid!"
  let attr ← redo (.rooms (.hmget head.sid))
  if !(← onRooms (Room.isRoomManager req.rid attr.uid)) then return .error "You're not room owner!"
  let _ ← redo (.key (.roomBlacklist req.rid) (.sadd req.uid))
  return .ok ()

/-- `RoomDismissRedis` -/
def roomDismissRedis (rid : BitVec 64) : Redis Unit := do
  redo (.rooms (.delRole rid))
  redo (.rooms (.delSid rid))
  redo (.rooms (.delUidSid rid))
  redo (.rooms (.delNid rid))
  redo (.rooms (.delNum rid))
  let _ ← redo (.key (.roomGag rid) .del)
  let _ ← redo (.key (.roomBlacklist rid) .del)
  redo (.rooms (.zremRidZset rid))

/-- `DismissRoomByRid` -/
def dismissRoomByRid (rid : BitVec 64) (now : Int) : Redis (Except String Unit) := do
  if !(← redo (.rooms (.closeInfo rid now))) then return .error "sql: no rows in result set"
  roomDismissRedis rid
  return .ok ()

/-- What `roomDismissHandler` checks. -/
def mayDismiss (head : MesgHeader) (req : MesgRoom) : Room.Redis (Except String Unit) := do
  let attr ← Room.redo (.hmgetIm head.sid)
  if attr.uid = 0 then return .error "User not online"
  if attr.uid ≠ req.uid then return .error "Uid mismatch sid"
  match ← Room.redo (.selectInfo req.rid) with
  | none => return .error "Room not exists"
  | some info =>
    if info.owner ≠ req.uid then
      match ← Room.redo (.hgetRole req.rid req.uid) with
      | none => return .error "Permission denied"
      | some role => if role ≠ Room.roomRoleOwner then return .error "Permission denied"
    return .ok ()

/-- `ChatRoomDismissHandler`, with `roomDismissHandler`. -/
def chatRoomDismissHandler (head : MesgHeader) (req : MesgRoom) (now : Int) : Redis (Except String Unit) := do
  if !isValid head then return .error "Header invalid"
  if req.uid = 0 ∨ req.rid = 0 then return .error "Invalid uid or rid"
  match ← onRooms (mayDismiss head req) with
  | .error err => return .error err
  | .ok () => dismissRoomByRid req.rid now

/-! ## Over HTTP -/

/-- `0 == gid` and `0 == uid` are refused; what the pipeline is answered is not looked at. -/
def http (k : BitVec 64 → Key) (id uid : BitVec 64) (c : Command (BitVec 64)) : Redis Unit := do
  if id ≠ 0 ∧ uid ≠ 0 then
    let _ ← redo (.key (k id) c)

/-- `blacklist_add` -/
def blacklistAdd (gid uid : BitVec 64) (now : Int) : Redis Unit := http .groupBlacklist gid uid (.zadd now uid)

/-- `blacklist_del` -/
def blacklistDel (gid uid : BitVec 64) : Redis Unit := http .groupBlacklist gid uid (.zrem uid)

/-- `gag_add` -/
def gagAdd (gid uid : BitVec 64) (now : Int) : Redis Unit := http .groupGag gid uid (.zadd now uid)

/-- `gag_del` -/
def gagDel (gid uid : BitVec 64) : Redis Unit := http .groupGag gid uid (.zrem uid)

def addBlacklist (rid uid : BitVec 64) : Redis Unit := http .roomBlacklist rid uid (.sadd uid)
def delBlacklist (rid uid : BitVec 64) : Redis Unit := http .roomBlacklist rid uid (.srem uid)
def addGag (rid uid : BitVec 64) (now : Int) : Redis Unit := http .roomGag rid uid (.zadd now uid)
def delGag (rid uid : BitVec 64) : Redis Unit := http .roomGag rid uid (.zrem uid)

/-! ## Operations -/

inductive Op where
  | blacklistAdd (gid uid : BitVec 64) (now : Int)
  | blacklistDel (gid uid : BitVec 64)
  | gagAdd (gid uid : BitVec 64) (now : Int)
  | gagDel (gid uid : BitVec 64)
  | addBlacklist (rid uid : BitVec 64)
  | delBlacklist (rid uid : BitVec 64)
  | addGag (rid uid : BitVec 64) (now : Int)
  | delGag (rid uid : BitVec 64)
  | call (c : Groups.Call)
  | groupChat (head : MesgHeader) (req : MesgGroupChat)
  | roomJoin (head : MesgHeader) (req : MesgRoom) (now now' : Int)
  | roomKick (head : MesgHeader) (req : MesgRoom)
  | roomDismiss (head : MesgHeader) (req : MesgRoom) (now : Int)
  | closeRoom (rid : BitVec 64) (now : Int)
  | roomChat (head : MesgHeader) (req : Room.MesgRoomChat) (now : Int)
  /-- What the user server does to its sessions, and the requests that use none of these keys. -/
  | room (e : Room.Event)

/-- Whether an event of the rooms uses none of the keys. -/
def plain : Room.Event → Bool
  | .join .. | .kick .. | .dismiss .. | .closeRoom .. | .setBlacklist .. => false
  | _ => true

namespace Store

/-- What a program leaves. -/
def after {α : Type} (s : Store) (p : Redis α) : Store := (p.run exec s).2

def step (s : Store) : Op → Store
  | .blacklistAdd gid uid now => s.after (Moderation.blacklistAdd gid uid now)
  | .blacklistDel gid uid => s.after (Moderation.blacklistDel gid uid)
  | .gagAdd gid uid now => s.after (Moderation.gagAdd gid uid now)
  | .gagDel gid uid => s.after (Moderation.gagDel gid uid)
  | .addBlacklist rid uid => s.after (Moderation.addBlacklist rid uid)
  | .delBlacklist rid uid => s.after (Moderation.delBlacklist rid uid)
  | .addGag rid uid now => s.after (Moderation.addGag rid uid now)
  | .delGag rid uid => s.after (Moderation.delGag rid uid)
  | .call c => s.after (Moderation.call c)
  | .groupChat head req => s.after (msgSvrGroupChatHandler head req)
  | .roomJoin head req now now' => s.after (chatRoomJoinHandler head req now now')
  | .roomKick head req => s.after (chatRoomKickHandler head req)
  | .roomDismiss head req now => s.after (chatRoomDismissHandler head req now)
  | .closeRoom rid now => s.after (dismissRoomByRid rid now)
  | .roomChat head req now => s.after (onRooms (Room.chatRoomChatHandler head req now))
  | .room e => if plain e then { s with rooms := (s.rooms.step e).getD s.rooms } else s

end Store

end BeehiveIm.Moderation
