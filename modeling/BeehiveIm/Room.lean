/-
The chat rooms (`exec/chatroom`): who is in which room, as the keys of Redis and the table of MySQL
have it. Each handler is a program of commands, in the order in which the source sends them; what is
sent in a pipeline goes out at the end of the function. Commands do not fail, and the acks,
notifications and kicks that the handlers send to clients and listeners are left out, as are the
keys that no handler here reads (the room's attributes and name, its gag set, the mongo tables).
-/
import BeehiveIm.Lib.Keys
import BeehiveIm.Lib.Prog
import BeehiveIm.Session
import Mathlib.Data.List.AList

namespace BeehiveIm.Room

open BeehiveIm.Lib
open BeehiveIm.Session (MesgHeader MesgOnline SidAttr chatSidTtl chatBatNum parseInt)

def chatRoomGroupMaxNum : Nat := 10000
def roomStatOpen : Int := 1
def roomStatClose : Int := 0
def roomRoleOwner : Int := 1
def roomRoleManager : Int := 2
def roomChatTextMaxLen : Nat := 4096

/-- A row of `CHAT_ROOM_INFO_TAB` -/
structure RoomInfo where
  status : Int
  owner : BitVec 64
  updateTime : Int
  deriving DecidableEq

instance : Text Int where
  text
    | .ofNat n => Nat.toDigits 10 n
    | .negSucc n => '-' :: Nat.toDigits 10 (n + 1)

/-- `"${uid}:${sid}"` -/
instance : Text (BitVec 64 × BitVec 64) := ⟨fun m => Text.text m.1 ++ ':' :: Text.text m.2⟩

/-- The sessions as the user server (`im`) and this server (`room`) have them, the rooms of each
session, and by room its sessions, its users with the session of each, the number of members of each
group, its nodes, its roles and blacklist. -/
structure Store where
  im : Session.Store
  room : Session.Store
  sidToRid : BitVec 64 → ZSet (BitVec 64)
  ridToSid : BitVec 64 → ZSet (BitVec 64)
  ridToUidSid : BitVec 64 → ZSet (BitVec 64 × BitVec 64)
  ridGidToNum : BitVec 64 → ZSet Int
  ridToNid : BitVec 64 → ZSet (BitVec 32)
  ridZset : ZSet (BitVec 64)
  role : BitVec 64 → AList fun _ : BitVec 64 => Int
  blacklist : BitVec 64 → Finset (BitVec 64)
  info : BitVec 64 → Option RoomInfo

def Store.empty : Store := ⟨.empty, .empty, fun _ => ∅, fun _ => ∅, fun _ => ∅, fun _ => ∅, fun _ => ∅, ∅, fun _ => ∅,
  fun _ => ∅, fun _ => none⟩

/-! ## Commands -/

inductive Cmd where
  | hmgetIm (sid : BitVec 64)
  | hmget (sid : BitVec 64)
  | hmset (sid cid uid : BitVec 64) (nid : BitVec 32)
  | delAttr (sid : BitVec 64)
  | zaddSidZset (ttl : Int) (sid : BitVec 64)
  | zremSidZset (sid : BitVec 64)
  | zaddUidZset (ttl : Int) (uid : BitVec 64)
  | saddUidToSid (uid sid : BitVec 64)
  | zscoreRid (sid rid : BitVec 64)
  | zrangeRid (sid : BitVec 64)
  | zaddRid (sid : BitVec 64) (ttl : Int) (rid : BitVec 64)
  | delRid (sid : BitVec 64)
  | zscoreSid (rid sid : BitVec 64)
  | zaddSid (rid : BitVec 64) (ttl : Int) (sid : BitVec 64)
  | zremSid (rid sid : BitVec 64)
  | delSid (rid : BitVec 64)
  | zaddUidSid (rid : BitVec 64) (ttl : Int) (uid sid : BitVec 64)
  | zremUidSid (rid uid sid : BitVec 64)
  | delUidSid (rid : BitVec 64)
  | zscoreNum (rid : BitVec 64) (gid : Int)
  | zrangeNum (rid : BitVec 64) (min max : Int) (off num : Nat)
  | zcardNum (rid : BitVec 64)
  /-- `sid` is not part of the command, but the session it is sent for. -/
  | zincrbyNum (rid : BitVec 64) (d gid : Int) (sid : BitVec 64)
  | delNum (rid : BitVec 64)
  | zaddNid (rid : BitVec 64) (ttl : Int) (nid : BitVec 32)
  | delNid (rid : BitVec 64)
  | zaddRidZset (ttl : Int) (rid : BitVec 64)
  | zremRidZset (rid : BitVec 64)
  | hgetRole (rid uid : BitVec 64)
  | hsetnxRole (rid uid : BitVec 64) (role : Int)
  | delRole (rid : BitVec 64)
  | sismemberBlacklist (rid uid : BitVec 64)
  | saddBlacklist (rid uid : BitVec 64)
  | sremBlacklist (rid uid : BitVec 64)
  | delBlacklist (rid : BitVec 64)
  | selectInfo (rid : BitVec 64)
  | insertInfo (rid uid : BitVec 64) (now : Int)
  | closeInfo (rid : BitVec 64) (now : Int)

/-- What a handler makes of the answer. -/
abbrev Cmd.Reply : Cmd → Type
  | .hmgetIm _ | .hmget _ => SidAttr
  | .delAttr _ | .sismemberBlacklist .. | .hsetnxRole .. | .insertInfo .. | .closeInfo .. => Bool
  | .zscoreRid .. | .zscoreSid .. | .zscoreNum .. | .hgetRole .. => Option Int
  | .zrangeRid _ => List (BitVec 64 × Int)
  | .zrangeNum .. => List Int
  | .zcardNum _ => Nat
  | .selectInfo _ => Option RoomInfo
  | _ => Unit

/-- `rid` and `owner` are columns of signed integers, and `rid` is the primary key. -/
def insertable (s : Store) (rid uid : BitVec 64) : Bool := rid.toNat < 2 ^ 63 ∧ uid.toNat < 2 ^ 63 ∧ s.info rid = none

/-- The row after `UPDATE … SET status=?, update_time=UNIX_TIMESTAMP()` -/
def RoomInfo.close (info : RoomInfo) (now : Int) : RoomInfo := { info with status := roomStatClose, updateTime := now }

def exec : (c : Cmd) → Store → c.Reply × Store
  | .hmgetIm sid, s => (s.im.getSidAttr sid, s)
  | .hmget sid, s => (s.room.getSidAttr sid, s)
  | .hmset sid cid uid nid, s =>
    ((), { s with room := { s.room with attr := put s.room.attr sid fun _ => some ⟨cid, uid, nid⟩ } })
  | .delAttr sid, s =>
    ((s.room.attr sid).isSome, { s with room := { s.room with attr := put s.room.attr sid fun _ => none } })
  | .zaddSidZset ttl sid, s => ((), { s with room := { s.room with sidZset := s.room.sidZset.add ttl sid } })
  | .zremSidZset sid, s => ((), { s with room := { s.room with sidZset := s.room.sidZset.rem sid } })
  | .zaddUidZset ttl uid, s => ((), { s with room := { s.room with uidZset := s.room.uidZset.add ttl uid } })
  | .saddUidToSid uid sid, s =>
    ((), { s with room := { s.room with uidToSid := put s.room.uidToSid uid (insert sid) } })
  | .zscoreRid sid rid, s => ((s.sidToRid sid).score rid, s)
  | .zrangeRid sid, s => ((s.sidToRid sid).rangeByScore none none, s)
  | .zaddRid sid ttl rid, s => ((), { s with sidToRid := put s.sidToRid sid fun z => z.add ttl rid })
  | .delRid sid, s => ((), { s with sidToRid := put s.sidToRid sid fun _ => ∅ })
  | .zscoreSid rid sid, s => ((s.ridToSid rid).score sid, s)
  | .zaddSid rid ttl sid, s => ((), { s with ridToSid := put s.ridToSid rid fun z => z.add ttl sid })
  | .zremSid rid sid, s => ((), { s with ridToSid := put s.ridToSid rid fun z => z.rem sid })
  | .delSid rid, s => ((), { s with ridToSid := put s.ridToSid rid fun _ => ∅ })
  | .zaddUidSid rid ttl uid sid, s =>
    ((), { s with ridToUidSid := put s.ridToUidSid rid fun z => z.add ttl (uid, sid) })
  | .zremUidSid rid uid sid, s => ((), { s with ridToUidSid := put s.ridToUidSid rid fun z => z.rem (uid, sid) })
  | .delUidSid rid, s => ((), { s with ridToUidSid := put s.ridToUidSid rid fun _ => ∅ })
  | .zscoreNum rid gid, s => ((s.ridGidToNum rid).score gid, s)
  | .zrangeNum rid min max off num, s =>
    ((limit off num ((s.ridGidToNum rid).rangeByScore (some min) (some max))).map Prod.fst, s)
  | .zcardNum rid, s => ((s.ridGidToNum rid).card, s)
  | .zincrbyNum rid d gid _, s => ((), { s with ridGidToNum := put s.ridGidToNum rid fun z => z.incrBy d gid })
  | .delNum rid, s => ((), { s with ridGidToNum := put s.ridGidToNum rid fun _ => ∅ })
  | .zaddNid rid ttl nid, s => ((), { s with ridToNid := put s.ridToNid rid fun z => z.add ttl nid })
  | .delNid rid, s => ((), { s with ridToNid := put s.ridToNid rid fun _ => ∅ })
  | .zaddRidZset ttl rid, s => ((), { s with ridZset := s.ridZset.add ttl rid })
  | .zremRidZset rid, s => ((), { s with ridZset := s.ridZset.rem rid })
  | .hgetRole rid uid, s => ((s.role rid).lookup uid, s)
  | .hsetnxRole rid uid role, s =>
    if uid ∈ s.role rid then (false, s) else (true, { s with role := put s.role rid (AList.insert uid role) })
  | .delRole rid, s => ((), { s with role := put s.role rid fun _ => ∅ })
  | .sismemberBlacklist rid uid, s => (uid ∈ s.blacklist rid, s)
  | .saddBlacklist rid uid, s => ((), { s with blacklist := put s.blacklist rid (insert uid) })
  | .sremBlacklist rid uid, s => ((), { s with blacklist := put s.blacklist rid fun uids => uids.erase uid })
  | .delBlacklist rid, s => ((), { s with blacklist := put s.blacklist rid fun _ => ∅ })
  | .selectInfo rid, s => (s.info rid, s)
  | .insertInfo rid uid now, s =>
    if insertable s rid uid then (true, { s with info := put s.info rid fun _ => some ⟨roomStatOpen, uid, now⟩ })
      else (false, s)
  | .closeInfo rid now, s =>
    match s.info rid with
    | none => (false, s)
    | some info => (info.close now ≠ info, { s with info := put s.info rid fun _ => some (info.close now) })

abbrev Redis := Prog Cmd.Reply

/-- `Do`, `Send` in a pipeline, and a query of MySQL. -/
def redo (c : Cmd) : Redis c.Reply := .issue c .ret

/-! ## The sessions of the rooms (`models/redis.go`) -/

/-- `RoomCleanBySid`. The gid it counts down is the score of the room. -/
def roomCleanBySid (uid sid : BitVec 64) : Redis Unit := do
  let ridGidList ← redo (.zrangeRid sid)
  ridGidList.forM fun e => do
    redo (.zremSid (parseInt e.1) sid)
    redo (.zremUidSid (parseInt e.1) uid sid)
    redo (.zincrbyNum (parseInt e.1) (-1) e.2 sid)
  redo (.delRid sid)

/-- `RoomUpdateBySid` -/
def roomUpdateBySid (uid sid : BitVec 64) (now : Int) : Redis Unit := do
  let ridGidList ← redo (.zrangeRid sid)
  ridGidList.forM fun e => do
    redo (.zaddSid (parseInt e.1) (now + chatSidTtl) sid)
    redo (.zaddUidSid (parseInt e.1) (now + chatSidTtl) uid sid)

/-- `RoomCleanSessionData` -/
def roomCleanSessionData (sid cid : BitVec 64) (nid : BitVec 32) : Redis (Except String Unit) := do
  let attr ← redo (.hmget sid)
  if attr.cid ≠ cid ∨ attr.nid ≠ nid then return .error "Data is collision!"
  if ← redo (.delAttr sid) then
    roomCleanBySid attr.uid sid
  redo (.zremSidZset sid)
  return .ok ()

/-- `RoomUpdateSessionData`, with the clock for its own keys and for those of the rooms. -/
def roomUpdateSessionData (sid cid : BitVec 64) (nid : BitVec 32) (now now' : Int) : Redis (Except String Unit) := do
  let attr ← redo (.hmget sid)
  if attr.uid = 0 then return .error "Get sid attribute failed!"
  if nid ≠ attr.nid then return .error "Nid is collision!"
  if cid ≠ attr.cid then return .error "Cid is collision!"
  roomUpdateBySid attr.uid sid now'
  redo (.zaddSidZset (now + chatSidTtl) sid)
  redo (.zaddUidZset (now + chatSidTtl) attr.uid)
  return .ok ()

/-- `UpdateOnlineData` -/
def updateOnlineData (uid sid : BitVec 64) (nid : BitVec 32) (cid : BitVec 64) (now : Int) : Redis Unit := do
  redo (.zaddSidZset (now + chatSidTtl) sid)
  redo (.zaddUidZset (now + chatSidTtl) uid)
  redo (.hmset sid cid uid nid)
  redo (.saddUidToSid uid sid)

/-- `RoomSidInRoom` -/
def roomSidInRoom (rid sid : BitVec 64) (now : Int) : Redis Bool := do
  match ← redo (.zscoreSid rid sid) with
  | none => return false
  | some score => return score > now

/-- `RoomDismissRedis` -/
def roomDismissRedis (rid : BitVec 64) : Redis Unit := do
  redo (.delRole rid)
  redo (.delSid rid)
  redo (.delUidSid rid)
  redo (.delNid rid)
  redo (.delNum rid)
  redo (.delBlacklist rid)
  redo (.zremRidZset rid)

/-- `IsRoomManager`: whoever has a role is one. -/
def isRoomManager (rid uid : BitVec 64) : Redis Bool := do
  match ← redo (.hgetRole rid uid) with
  | none => return false
  | some role => if role = roomRoleOwner ∨ role = roomRoleManager then return true else return true

/-! ## Requests (`controllers/mesg.go`, `controllers/room_lifecycle.go`) -/

/-- `IsValid(1)` -/
def isValid (head : MesgHeader) : Bool := head.nid ≠ 0 ∧ head.sid ≠ 0

/-- A `MesgRoomJoin`, `MesgRoomQuit`, `MesgRoomKick` or `MesgRoomDismiss`. -/
structure MesgRoom where
  uid : BitVec 64
  rid : BitVec 64
  deriving DecidableEq

/-- What is read of a `MesgRoomChat`. -/
structure MesgRoomChat where
  uid : BitVec 64
  rid : BitVec 64
  text : List (BitVec 8)

/-- `validateRoomJoin` -/
def validateRoomJoin (head : MesgHeader) (req : MesgRoom) (now : Int) : Redis (Except String Unit) := do
  if req.uid = 0 ∨ req.rid = 0 then return .error "Invalid uid or rid"
  let attr ← redo (.hmgetIm head.sid)
  if attr.uid = 0 then return .error "User not online"
  if attr.uid ≠ req.uid then return .error "Uid mismatch sid"
  if attr.nid ≠ head.nid then return .error "Session collision"
  match ← redo (.selectInfo req.rid) with
  | none => return .error "Room not exists"
  | some info =>
    if info.status ≠ roomStatOpen then return .error "Room closed"
    match ← redo (.zscoreRid head.sid req.rid) with
    | none => return .ok ()
    | some score => if score > now then return .error "Already in room" else return .ok ()

/-- `alloc_room_gid` -/
def allocRoomGid (rid : BitVec 64) : Redis (BitVec 32) := do
  let num ← redo (.zscoreNum rid 0)
  if (BitVec.ofInt 32 (num.getD 0)).toNat < chatRoomGroupMaxNum then return 0
  match ← redo (.zrangeNum rid 0 (chatRoomGroupMaxNum - 1) 0 1) with
  | gid :: _ => return BitVec.ofInt 32 gid
  | [] =>
    let grpNum ← redo (.zcardNum rid)
    return BitVec.ofNat 32 grpNum

/-- `roomJoinHandler` -/
def roomJoinHandler (head : MesgHeader) (req : MesgRoom) (now : Int) : Redis (Except String (BitVec 32)) := do
  if ← redo (.sismemberBlacklist req.rid req.uid) then return .error "User is in blacklist!"
  let gid ← allocRoomGid req.rid
  let ttl := now + chatSidTtl
  redo (.zincrbyNum req.rid 1 gid.toNat head.sid)
  redo (.zaddUidSid req.rid ttl req.uid head.sid)
  redo (.zaddSid req.rid ttl head.sid)
  redo (.zaddNid req.rid ttl head.nid)
  redo (.zaddRidZset ttl req.rid)
  redo (.zaddRid head.sid ttl req.rid)
  return .ok gid

/-- `ChatRoomJoinHandler`; the clock is read for the check and for the ttl. -/
def chatRoomJoinHandler (head : MesgHeader) (req : MesgRoom) (now now' : Int) : Redis (Except String (BitVec 32)) := do
  if !isValid head then return .error "Header of room-join failed!"
  match ← validateRoomJoin head req now with
  | .error err => return .error err
  | .ok () => roomJoinHandler head req now'

/-- `ChatRoomQuitHandler` -/
def chatRoomQuitHandler (head : MesgHeader) (req : MesgRoom) : Redis (Except String Unit) := do
  if !isValid head then return .error "Header of room-quit failed!"
  if req.uid = 0 ∨ req.rid = 0 then return .error "Check request failed!"
  redo (.zremSid req.rid head.sid)
  redo (.zremUidSid req.rid req.uid head.sid)
  return .ok ()

/-- `roomKickHandler`. The sessions of the user it then sends a kick to are only read. -/
def roomKickHandler (head : MesgHeader) (req : MesgRoom) : Redis (Except String Unit) := do
  let attr ← redo (.hmget head.sid)
  if !(← isRoomManager req.rid attr.uid) then return .error "You're not room owner!"
  redo (.saddBlacklist req.rid req.uid)
  return .ok ()

/-- `ChatRoomKickHandler` -/
def chatRoomKickHandler (head : MesgHeader) (req : MesgRoom) : Redis (Except String Unit) := do
  if !isValid head then return .error "Header of room-kick is invalid!"
  roomKickHandler head req

/-- `DismissRoomByRid` -/
def dismissRoomByRid (rid : BitVec 64) (now : Int) : Redis (Except String Unit) := do
  if !(← redo (.closeInfo rid now)) then return .error "sql: no rows in result set"
  roomDismissRedis rid
  return .ok ()

/-- `roomDismissHandler` -/
def roomDismissHandler (head : MesgHeader) (req : MesgRoom) (now : Int) : Redis (Except String Unit) := do
  let attr ← redo (.hmgetIm head.sid)
  if attr.uid = 0 then return .error "User not online"
  if attr.uid ≠ req.uid then return .error "Uid mismatch sid"
  match ← redo (.selectInfo req.rid) with
  | none => return .error "Room not exists"
  | some info =>
    if info.owner ≠ req.uid then
      match ← redo (.hgetRole req.rid req.uid) with
      | none => return .error "Permission denied"
      | some role => if role ≠ roomRoleOwner then return .error "Permission denied"
    dismissRoomByRid req.rid now

/-- `ChatRoomDismissHandler` -/
def chatRoomDismissHandler (head : MesgHeader) (req : MesgRoom) (now : Int) : Redis (Except String Unit) := do
  if !isValid head then return .error "Header invalid"
  if req.uid = 0 ∨ req.rid = 0 then return .error "Invalid uid or rid"
  roomDismissHandler head req now

/-- `roomCreateHandler`; `rid` is what the sequence server allocates. -/
def roomCreateHandler (rid uid : BitVec 64) (now : Int) : Redis (Except String (BitVec 64)) := do
  if !(← redo (.insertInfo rid uid now)) then return .error "Room add into mysql failed!"
  if !(← redo (.hsetnxRole rid uid roomRoleOwner)) then return .error "Set room owner failed!"
  return .ok rid

/-- `validateRoomChat` -/
def validateRoomChat (head : MesgHeader) (req : MesgRoomChat) (now : Int) : Redis (Except String Unit) := do
  if req.uid = 0 ∨ req.rid = 0 then return .error "Invalid uid or rid"
  if req.text.length = 0 then return .error "Empty message"
  if req.text.length > roomChatTextMaxLen then return .error "Message too long"
  let attr ← redo (.hmgetIm head.sid)
  if attr.uid = 0 then return .error "User not online"
  if attr.uid ≠ req.uid then return .error "Uid mismatch sid"
  if !(← roomSidInRoom req.rid head.sid now) then return .error "Not in room"
  match ← redo (.selectInfo req.rid) with
  | none => return .error "Room not exists"
  | some info => if info.status ≠ roomStatOpen then return .error "Room closed" else return .ok ()

/-- `onlineHandler`; the clean-up of a conflict names the session of the header. -/
def onlineHandler (head : MesgHeader) (req : MesgOnline) (now : Int) : Redis Unit := do
  let attr ← redo (.hmget req.sid)
  if Session.Store.conflict attr head req then
    let _ ← roomCleanSessionData head.sid attr.cid attr.nid
  updateOnlineData req.uid req.sid head.nid head.cid now

/-- `ChatRoomOfflineHandler` -/
def chatRoomOfflineHandler (head : MesgHeader) : Redis (Except String Unit) := do
  if !isValid head then return .error "Parse offline request failed!"
  roomCleanSessionData head.sid head.cid head.nid

/-- `ChatRoomPingHandler` -/
def chatRoomPingHandler (head : MesgHeader) (now now' : Int) : Redis Unit := do
  if isValid head then
    match ← roomUpdateSessionData head.sid head.cid head.nid now now' with
    | .ok () => return ()
    | .error _ =>
      let _ ← roomCleanSessionData head.sid head.cid head.nid
      return ()

/-- `addBlacklist` and `delBlacklist` over HTTP; `0 == rid` and `0 == uid` are refused. -/
def setBlacklist (rid uid : BitVec 64) (add : Bool) : Redis Unit := do
  if rid ≠ 0 ∧ uid ≠ 0 then
    if add then redo (.saddBlacklist rid uid) else redo (.sremBlacklist rid uid)

/-! ## Expired rooms (`controllers/task.go`) -/

namespace Store

/-- `cleanSidByRid`; `cleanUidByRid`, its twin, only logs. -/
def cleanSidByRid (s : Store) (rid : BitVec 64) : Option Store :=
  paged chatBatNum (fun s off => limit off chatBatNum ((s.ridToSid rid).rangeByScore none none))
    (fun s page => page.foldl (fun s e => { s with sidToRid := put s.sidToRid (parseInt e.1) fun z => z.rem rid }) s)
    ((s.ridToSid rid).card + 1) 0 s

/-- `cleanByRid` -/
def cleanByRid (s : Store) (rid : BitVec 64) : Option Store :=
  (s.cleanSidByRid rid).map fun s => { s with
    ridGidToNum := put s.ridGidToNum rid fun _ => ∅
    ridToNid := put s.ridToNid rid fun _ => ∅
    ridToUidSid := put s.ridToUidSid rid fun _ => ∅
    ridToSid := put s.ridToSid rid fun _ => ∅
    ridZset := s.ridZset.rem rid }

/-- `cleanRidSet` -/
def cleanRidSet (s : Store) (ctm : Int) : Option Store :=
  paged chatBatNum (fun s off => Session.Store.expiredPage s.ridZset ctm off)
    (fun s page => page.foldl (fun s e => (s.cleanByRid (parseInt e.1)).getD s) s) (s.ridZset.card + 1) 0 s

end Store

/-! ## Both servers -/

/-- The events of the user server (`im…`) and of this one. -/
inductive Event where
  | imOnline (head : MesgHeader) (req : MesgOnline) (now : Int) (seq : Bool)
  | imPing (head : MesgHeader) (now : Int)
  | imOffline (head : MesgHeader)
  | imSweep (ctm : Int)
  | online (head : MesgHeader) (req : MesgOnline) (now : Int)
  | ping (head : MesgHeader) (now now' : Int)
  | offline (head : MesgHeader)
  | create (rid uid : BitVec 64) (now : Int)
  | join (head : MesgHeader) (req : MesgRoom) (now now' : Int)
  | quit (head : MesgHeader) (req : MesgRoom)
  | kick (head : MesgHeader) (req : MesgRoom)
  | dismiss (head : MesgHeader) (req : MesgRoom) (now : Int)
  | closeRoom (rid : BitVec 64) (now : Int)
  | setBlacklist (rid uid : BitVec 64) (add : Bool)
  | cleanRidSet (ctm : Int)

/-- The handlers run one after another; loops that read pages always end. -/
def Store.step (s : Store) : Event → Option Store
  | .imOnline head req now seq => some { s with im := s.im.imOnlineHandler head req now seq }
  | .imPing head now => some { s with im := s.im.pingHandler head now }
  | .imOffline head => some { s with im := s.im.offlineHandler head }
  | .imSweep ctm => (s.im.cleanSidZset ctm).map fun im => { s with im := im }
  | .online head req now => some ((onlineHandler head req now).run exec s).2
  | .ping head now now' => some ((chatRoomPingHandler head now now').run exec s).2
  | .offline head => some ((chatRoomOfflineHandler head).run exec s).2
  | .create rid uid now => some ((roomCreateHandler rid uid now).run exec s).2
  | .join head req now now' => some ((chatRoomJoinHandler head req now now').run exec s).2
  | .quit head req => some ((chatRoomQuitHandler head req).run exec s).2
  | .kick head req => some ((chatRoomKickHandler head req).run exec s).2
  | .dismiss head req now => some ((chatRoomDismissHandler head req now).run exec s).2
  | .closeRoom rid now => some ((dismissRoomByRid rid now).run exec s).2
  | .setBlacklist rid uid add => some ((Room.setBlacklist rid uid add).run exec s).2
  | .cleanRidSet ctm => s.cleanRidSet ctm

end BeehiveIm.Room
