/-
The chat table of the C side (`chat.c`, `chat_tab.c`), one call after another: a table of rooms,
whose groups hold their sessions, and a table of sessions, which hold their rooms. Objects behind
pointers are kept by value: a function looks its objects up and writes them back. `none` is a crash
or a wait for a lock that nobody gives back.
-/
import BeehiveIm.Core.HashTab

namespace BeehiveIm.Chat

open BeehiveIm.Core

abbrev Rid := BitVec 64

/-- A session id and a connection id, also as a `chat_sid2cid_item_t`. -/
abbrev SessionKey := BitVec 64 × BitVec 64

/-- `chat_room_item_t` -/
structure ChatRoomItem where
  rid : Rid
  gid : BitVec 32

/-- `chat_session_t` -/
structure ChatSession where
  sid : BitVec 64
  cid : BitVec 64
  room : HashTab ChatRoomItem

def ChatSession.key (session : ChatSession) : SessionKey := (session.sid, session.cid)

/-- `chat_group_t` -/
structure ChatGroup where
  gid : BitVec 16
  sidNum : Int
  sidSet : HashTab SessionKey

/-- `chat_room_t` -/
structure ChatRoom where
  rid : Rid
  sidNum : Int
  groups : HashTab ChatGroup

/-- `chat_group_hash_cb` and `chat_group_cmp_cb`: the difference of two `uint16_t` is an `int`. -/
def groupKey : HashKey (BitVec 16) where
  hash gid := gid.toNat
  cmp a b := a.toNat - b.toNat
  cmp_eq_zero a b := by rw [← BitVec.toNat_inj]; omega

/-- The callbacks of `session->room`: `chat_room_hash_cb` of `chat_tab.c` reads the first two bytes
of an item as a command. -/
def itemKey : HashKey Rid where
  hash rid := (rid.setWidth 16).toNat
  cmp := idKey.cmp
  cmp_eq_zero := idKey.cmp_eq_zero

def chatGroupSlotLen : Nat := 99
def chatSidSlotLen : Nat := 999
def chatSessionSlotLen : Nat := 5

/-- `rdlocked` are the slots of `sessions` whose read lock was not given back. -/
structure ChatTab where
  rooms : HashTab ChatRoom
  sessions : HashTab ChatSession
  sid2cids : HashTab SessionKey
  rdlocked : Nat → Bool

/-- What the allocator answers in a call of `chat_room_add_session`. -/
structure Mem where
  /-- for the item of a further room of the session, and its node -/
  item : Bool
  /-- for the entry of the group's `sid_set` -/
  sid : Bool
  sidNode : Bool
  /-- for the session, the item of its first room and that item's node -/
  session : Bool
  room : Bool
  roomNode : Bool
  /-- for the tables of the session and its node in `sessions` -/
  tables : Bool
  sessionNode : Bool

def Mem.enough : Mem := ⟨true, true, true, true, true, true, true, true⟩

/-! ## `chat_tab.c`: rooms -/

/-- `chat_add_room` -/
def chatAddRoom (rooms : HashTab ChatRoom) (rid : Rid) : Option (HashTab ChatRoom) :=
  (idKey.insert ChatRoom.rid rooms ⟨rid, 0, HashTab.hashTabCreat ChatGroup chatGroupSlotLen⟩ true).map Prod.fst

/-- `chat_del_room` -/
def chatDelRoom (rooms : HashTab ChatRoom) (rid : Rid) : Option (HashTab ChatRoom) :=
  match idKey.query ChatRoom.rid rooms rid with
  | none => none
  | some none => some rooms
  | some (some room) =>
    if room.sidNum ≠ 0 then some rooms else (idKey.delete ChatRoom.rid rooms rid).map Prod.fst

/-! ## `chat_tab.c`: the sessions of a room -/

/-- `chat_group_add_by_gid` -/
def chatGroupAddByGid (groups : HashTab ChatGroup) (gid : BitVec 16) : Option (HashTab ChatGroup) :=
  (groupKey.insert ChatGroup.gid groups ⟨gid, 0, HashTab.hashTabCreat SessionKey chatSidSlotLen⟩ true).map Prod.fst

/-- `QUERY_GROUP` of `chat_group_add_session`. A creation that fails is tried again, so it
succeeds. -/
def queryGroup : Nat → HashTab ChatGroup → BitVec 16 → Option (HashTab ChatGroup × ChatGroup)
  | 0, _, _ => none
  | fuel + 1, groups, gid =>
    match groupKey.query ChatGroup.gid groups gid with
    | none => none
    | some (some grp) => some (groups, grp)
    | some none =>
      match chatGroupAddByGid groups gid with
      | none => none
      | some groups => queryGroup fuel groups gid

/-- The room after its group `grp` and its own count are written. -/
def putGroup (room : ChatRoom) (grp : ChatGroup) (sidNum : Int) : Option ChatRoom :=
  (groupKey.write ChatGroup.gid room.groups grp.gid fun g => { g with sidNum := grp.sidNum, sidSet := grp.sidSet }).map
    fun groups => { room with sidNum := sidNum, groups := groups }

/-- `_chat_group_add_session`; answers whether it succeeds. -/
def groupAddSession (room : ChatRoom) (grp : ChatGroup) (key : SessionKey) (mem : Mem) : Option (ChatRoom × Bool) :=
  if mem.sid then
    match sessionKey.insert id grp.sidSet key mem.sidNode with
    | none => none
    | some (sidSet, .ok) =>
      (putGroup room { grp with sidNum := grp.sidNum + 1, sidSet := sidSet } (room.sidNum + 1)).map (·, true)
    | some (_, ret) => some (room, ret = .nodeExist)
  else some (room, false)

/-- `chat_group_add_session`. A group inserted is queried once more. -/
def chatGroupAddSession (room : ChatRoom) (gid : BitVec 32) (key : SessionKey) (mem : Mem) : Option (ChatRoom × Bool) :=
  match queryGroup 2 room.groups (gid.setWidth 16) with
  | none => none
  | some (groups, grp) => groupAddSession { room with groups := groups } grp key mem

/-- `_chat_group_del_session` -/
def groupDelSession (room : ChatRoom) (grp : ChatGroup) (key : SessionKey) : Option ChatRoom :=
  match sessionKey.delete id grp.sidSet key with
  | none => none
  | some (_, none) => some room
  | some (sidSet, some _) => putGroup room { grp with sidNum := grp.sidNum - 1, sidSet := sidSet } (room.sidNum - 1)

/-- `chat_group_del_session` -/
def chatGroupDelSession (room : ChatRoom) (gid : BitVec 32) (key : SessionKey) : Option ChatRoom :=
  match groupKey.query ChatGroup.gid room.groups (gid.setWidth 16) with
  | none => none
  | some none => some room
  | some (some grp) => groupDelSession room grp key

/-- `QUERY_ROOM` of `_chat_room_add_session`. A creation that fails is tried again, so it
succeeds. -/
def queryRoom : Nat → HashTab ChatRoom → Rid → Option (HashTab ChatRoom × ChatRoom)
  | 0, _, _ => none
  | fuel + 1, rooms, rid =>
    match idKey.query ChatRoom.rid rooms rid with
    | none => none
    | some (some room) => some (rooms, room)
    | some none =>
      match chatAddRoom rooms rid with
      | none => none
      | some rooms => queryRoom fuel rooms rid

/-- The rooms after `room` is written. -/
def putRoom (rooms : HashTab ChatRoom) (room : ChatRoom) : Option (HashTab ChatRoom) :=
  idKey.write ChatRoom.rid rooms room.rid fun r => { r with sidNum := room.sidNum, groups := room.groups }

/-- `_chat_room_add_session`; answers whether it succeeds. A room inserted is queried once more. -/
def roomAddSession (rooms : HashTab ChatRoom) (rid : Rid) (gid : BitVec 32) (key : SessionKey) (mem : Mem) :
    Option (HashTab ChatRoom × Bool) :=
  match queryRoom 2 rooms rid with
  | none => none
  | some (rooms, room) =>
    match chatGroupAddSession room gid key mem with
    | none => none
    | some (room, ret) => (putRoom rooms room).map (·, ret)

/-- `_chat_room_del_session` -/
def roomDelSession (rooms : HashTab ChatRoom) (rid : Rid) (gid : BitVec 32) (key : SessionKey) :
    Option (HashTab ChatRoom) :=
  match idKey.query ChatRoom.rid rooms rid with
  | none => none
  | some none => some rooms
  | some (some room) =>
    match chatGroupDelSession room gid key with
    | none => none
    | some room => putRoom rooms room

/-! ## `chat_tab.c`: traversal -/

/-- `chat_room_trav_all_group`: the sessions handed to `proc`. -/
def chatRoomTravAllGroup (room : ChatRoom) : Option (List SessionKey) :=
  match room.groups.hashTabTrav with
  | none => none
  | some groups => groups.foldlM (fun out grp => grp.sidSet.hashTabTrav.map (out ++ ·)) []

/-- `chat_group_trav` -/
def chatGroupTrav (room : ChatRoom) (gid : BitVec 16) : Option (List SessionKey) :=
  if gid = 0 then chatRoomTravAllGroup room
  else
    match groupKey.query ChatGroup.gid room.groups gid with
    | none => none
    | some none => some []
    | some (some grp) => grp.sidSet.hashTabTrav

namespace ChatTab

/-- `chat_tab_init` -/
def chatTabInit (len : Nat) : ChatTab :=
  ⟨HashTab.hashTabCreat ChatRoom len, HashTab.hashTabCreat ChatSession len, HashTab.hashTabCreat SessionKey len,
    fun _ => false⟩

/-- The slot of a session. -/
def slot (T : ChatTab) (key : SessionKey) : Nat := hashIdx T.sessions.len (sessionKey.hash key)

/-- `chat_session_tab_add`; answers whether it succeeds. The item of the room is written
without a look at whether there is memory for it, and is dropped when `session->room`
has none for its node. -/
def chatSessionTabAdd (T : ChatTab) (rid : Rid) (gid : BitVec 32) (sid cid : BitVec 64) (mem : Mem) :
    Option (ChatTab × Bool) :=
  if ¬mem.session then some (T, false)
  else if ¬mem.room then none
  else if ¬mem.tables then some (T, false)
  else
    match itemKey.insert ChatRoomItem.rid (HashTab.hashTabCreat ChatRoomItem chatSessionSlotLen) ⟨rid, gid⟩
        mem.roomNode with
    | none => none
    | some (room, _) =>
      if T.rdlocked (T.slot (sid, cid)) then none
      else
        (sessionKey.insert ChatSession.key T.sessions ⟨sid, cid, room⟩ mem.sessionNode).map fun p =>
          ({ T with sessions := p.1 }, p.2 = .ok)

/-! ## `chat.c` -/

/-- `chat_room_add_session`. An item was queried for just before it is inserted, so it is not
there. -/
def chatRoomAddSession (T : ChatTab) (rid : Rid) (gid : BitVec 32) (sid cid : BitVec 64) (mem : Mem) :
    Option (ChatTab × BitVec 32) :=
  match sessionKey.query ChatSession.key T.sessions (sid, cid) with
  | none => none
  | some (some session) =>
    match itemKey.query ChatRoomItem.rid session.room rid with
    | none => none
    | some (some room) => some (T, room.gid)
    | some none =>
      if mem.item then
        match itemKey.insert ChatRoomItem.rid session.room ⟨rid, gid⟩ true with
        | none => none
        | some (room, _) =>
          (sessionKey.write ChatSession.key T.sessions (sid, cid) fun s => { s with room := room }).map fun sessions =>
            ({ T with sessions := sessions }, gid)
      else some (T, -1)
  | some none =>
    match roomAddSession T.rooms rid gid (sid, cid) mem with
    | none => none
    | some (rooms, false) => some ({ T with rooms := rooms }, -1)
    | some (rooms, true) =>
      match { T with rooms := rooms }.chatSessionTabAdd rid gid sid cid mem with
      | none => none
      | some (T, false) =>
        (roomDelSession T.rooms rid gid (sid, cid)).map fun rooms => ({ T with rooms := rooms }, -1)
      | some (T, true) => some (T, 0)

/-- `chat_room_del_session`. The read lock of the session's slot is not given back. -/
def chatRoomDelSession (T : ChatTab) (rid : Rid) (sid cid : BitVec 64) : Option ChatTab :=
  match sessionKey.query ChatSession.key T.sessions (sid, cid) with
  | none => none
  | some none => some T
  | some (some session) =>
    let T := { T with rdlocked := Function.update T.rdlocked (T.slot (sid, cid)) true }
    match itemKey.delete ChatRoomItem.rid session.room rid with
    | none => none
    | some (_, none) => some T
    | some (room, some item) =>
      match sessionKey.write ChatSession.key T.sessions (sid, cid) fun s => { s with room := room } with
      | none => none
      | some sessions =>
        (roomDelSession T.rooms item.rid item.gid (sid, cid)).map fun rooms =>
          { T with rooms := rooms, sessions := sessions }

/-- `chat_del_sid_to_cid` -/
def chatDelSidToCid (T : ChatTab) (sid cid : BitVec 64) : Option ChatTab :=
  match idKey.query Prod.fst T.sid2cids sid with
  | none => none
  | some none => some T
  | some (some item) =>
    if item.2 = cid then
      (idKey.delete Prod.fst T.sid2cids sid).map fun p => { T with sid2cids := p.1 }
    else some T

/-- The traversal of `session->room` with `_chat_room_trav_del_session`. -/
def travDelSession (rooms : HashTab ChatRoom) (session : ChatSession) : Option (HashTab ChatRoom) :=
  match session.room.hashTabTrav with
  | none => none
  | some items =>
    items.foldlM (fun rooms room => roomDelSession rooms room.rid room.gid (session.sid, session.cid)) rooms

/-- `chat_del_session` -/
def chatDelSession (T : ChatTab) (sid cid : BitVec 64) : Option ChatTab :=
  match T.chatDelSidToCid sid cid with
  | none => none
  | some T =>
    if T.rdlocked (T.slot (sid, cid)) then none
    else
      match sessionKey.delete ChatSession.key T.sessions (sid, cid) with
      | none => none
      | some (_, none) => some T
      | some (sessions, some session) =>
        (travDelSession T.rooms session).map fun rooms => { T with rooms := rooms, sessions := sessions }

/-- `chat_room_clean_list_cb` over the rooms; `pushed` says for which the list has memory. -/
def cleanList (rooms : List ChatRoom) (pushed : Rid → Bool) : List Rid :=
  (rooms.filter fun room => room.sidNum = 0 ∧ pushed room.rid).map ChatRoom.rid

/-- The loop of `chat_room_clean_hdl`. A rid 0 reads as the end of the list; `list_destroy` then
frees what is left of it, rids, as if they were pointers. -/
def cleanLoop : List Rid → HashTab ChatRoom → Option (HashTab ChatRoom)
  | [], rooms => some rooms
  | rid :: rids, rooms =>
    if rid = 0 then if rids = [] then some rooms else none
    else
      match chatDelRoom rooms rid with
      | none => none
      | some rooms => cleanLoop rids rooms

/-- `chat_room_clean_hdl` -/
def chatRoomCleanHdl (T : ChatTab) (pushed : Rid → Bool) : Option ChatTab :=
  match T.rooms.hashTabTrav with
  | none => none
  | some rooms => (cleanLoop (cleanList rooms pushed) T.rooms).map fun rooms => { T with rooms := rooms }

/-- `chat_room_trav_session`: the sessions handed to `proc`; all groups for `gid` 0. -/
def chatRoomTravSession (T : ChatTab) (rid : Rid) (gid : BitVec 16) : Option (List SessionKey) :=
  match idKey.query ChatRoom.rid T.rooms rid with
  | none => none
  | some none => some []
  | some (some room) => chatGroupTrav room gid

/-! ## Runs -/

inductive Op where
  | addSession (rid : Rid) (gid : BitVec 16) (sid cid : BitVec 64) (mem : Mem)
  | roomDelSession (rid : Rid) (sid cid : BitVec 64)
  | delSession (sid cid : BitVec 64)
  | clean (pushed : Rid → Bool)

def step (T : ChatTab) : Op → Option ChatTab
  | .addSession rid gid sid cid mem => (T.chatRoomAddSession rid (gid.setWidth 32) sid cid mem).map Prod.fst
  | .roomDelSession rid sid cid => T.chatRoomDelSession rid sid cid
  | .delSession sid cid => T.chatDelSession sid cid
  | .clean pushed => T.chatRoomCleanHdl pushed

/-! ## Who is where -/

/-- The group under which a session lists a room. -/
def lists (T : ChatTab) (key : SessionKey) (rid : Rid) : Option (BitVec 32) :=
  ((sessionKey.query ChatSession.key T.sessions key).join.bind fun session =>
    (itemKey.query ChatRoomItem.rid session.room rid).join).map ChatRoomItem.gid

/-- Whether a group of a room has a session in its `sid_set`. -/
def has (T : ChatTab) (rid : Rid) (gid : BitVec 16) (key : SessionKey) : Bool :=
  ((idKey.query ChatRoom.rid T.rooms rid).join.bind fun room =>
    (groupKey.query ChatGroup.gid room.groups gid).join.bind fun grp =>
      (sessionKey.query id grp.sidSet key).join).isSome

end ChatTab

end BeehiveIm.Chat
