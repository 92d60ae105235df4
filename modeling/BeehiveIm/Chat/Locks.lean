/-
The calls of the chat table with the locks they take and give back. Each hash table has a lock for
every slot; `hash_tab_query` keeps that of its slot if it finds something. Without the locks these
are the calls of `Chat` and `Chat.Calls`. Left out: the second try of `chat_room_add_session`, which
gives the lock of the session back twice. It takes `RBT_NODE_EXIST`, and thus another thread that
puts the same room in after the query.
-/
import BeehiveIm.Chat.Calls
import BeehiveIm.Core.HashTab.Slots
import BeehiveIm.Lib.Locks

namespace BeehiveIm.Chat.Locks

open BeehiveIm.Lib BeehiveIm.Lib.Locked BeehiveIm.Core

/-- The locks of the slots of a table. -/
inductive Lock where
  | rooms (i : Nat)
  | sessions (i : Nat)
  | sid2cids (i : Nat)
  /-- `room->groups` -/
  | groups (rid : Rid) (i : Nat)
  /-- `grp->sid_set` -/
  | sidSet (rid : Rid) (gid : BitVec 16) (i : Nat)
  /-- `session->room` -/
  | room (key : SessionKey) (i : Nat)
  /-- `session->sub` -/
  | sub (key : SessionKey) (i : Nat)
deriving DecidableEq

/-! ## `hash_tab.c` -/

section HashTab

variable {κ α β : Type}

def hashTabQuery (name : Nat → Lock) (K : HashKey κ) (key : α → κ) (H : HashTab α) (k : κ) : Locked Lock (Option α) :=
  query (name (K.slot H.len k)) (K.query key H k)

def hashTabInsert (name : Nat → Lock) (K : HashKey κ) (key : α → κ) (H : HashTab α) (e : α) (mem : Bool) :
    Locked Lock (HashTab α × RbtRet) :=
  under (name (K.slot H.len (key e))) (K.insert key H e mem)

def hashTabDelete (name : Nat → Lock) (K : HashKey κ) (key : α → κ) (H : HashTab α) (k : κ) :
    Locked Lock (HashTab α × Option α) :=
  under (name (K.slot H.len k)) (K.delete key H k)

/-- `hash_tab_trav`; `proc` also takes what it had before. -/
def hashTabTrav (name : Nat → Lock) (H : HashTab α) (proc : β → α → Locked Lock β) (b : β) : Locked Lock β :=
  (List.range H.len).foldlM (fun b idx => do
    acquire (name idx)
    let es ← lift (H.tree idx).rbtTrav
    let b ← es.foldlM proc b
    release (name idx)
    return b) b

/-- `hash_tab_destroy`. The order of `rbt_destroy` is another one. -/
def hashTabDestroy (name : Nat → Lock) (H : HashTab α) (dealloc : α → Locked Lock Unit) : Locked Lock Unit :=
  (List.range H.len).foldlM (fun _ idx => do
    acquire (name idx)
    ((H.tree idx).rbtTrav.getD []).foldlM (fun _ e => dealloc e) ()
    release (name idx)) ()

/-- The end of a table whose elements have no locks. -/
def hashTabFree (name : Nat → Lock) (len : Nat) : Locked Lock Unit :=
  hashTabDestroy name (HashTab.hashTabCreat Unit len) fun _ => return ()

end HashTab

/-! ## Memory -/

/-- How the creation of an object with a table fails: before there is a table, in the making of the
table, or when the object is inserted. -/
inductive Miss where
  | alloc
  | creat
  | insert

/-- A creation that fails, of an object with a table `name` of `len` slots that
belongs into slot `l`. -/
def missed (l : Lock) (name : Nat → Lock) (len : Nat) : Miss → Locked Lock Unit
  | .alloc => return ()
  | .creat => hashTabFree name len
  | .insert => do
    acquire l
    release l
    hashTabFree name len

/-- What the allocator answers besides `Mem`. -/
structure Misses where
  /-- the creations of a room and of a group that were tried in vain -/
  rooms : List Miss
  groups : List Miss
  /-- there was memory for the item of a further room, and none for its node -/
  itemNode : Bool
  /-- which table of a session was not made: `session->sub`, after `session->room`; and
  whether its making was begun -/
  sub : Bool
  begun : Bool
  /-- the entries of `sid2cids` that could not be inserted -/
  again : Nat

/-! ## Rooms -/

/-- `QUERY_GROUP` of `chat_group_add_session`: the group, with its slot locked. -/
def queryGroup (misses : Misses) (rid : Rid) (groups : HashTab ChatGroup) (gid : BitVec 16) :
    Locked Lock (HashTab ChatGroup × ChatGroup) := do
  let l := Lock.groups rid (groupKey.slot groups.len gid)
  match ← query l (groupKey.query ChatGroup.gid groups gid) with
  | some grp => return (groups, grp)
  | none =>
    misses.groups.foldlM (fun _ miss => do
      missed l (.sidSet rid gid) chatSidSlotLen miss
      acquire l
      release l) ()
    let groups ← under l (chatGroupAddByGid groups gid)
    match ← query l (groupKey.query ChatGroup.gid groups gid) with
    | some grp => return (groups, grp)
    | none => lift none

/-- `_chat_group_add_session` -/
def groupAddSession (room : ChatRoom) (grp : ChatGroup) (key : SessionKey) (mem : Mem) :
    Locked Lock (ChatRoom × Bool) := do
  if mem.sid then
    match ← hashTabInsert (.sidSet room.rid grp.gid) sessionKey id grp.sidSet key mem.sidNode with
    | (sidSet, .ok) =>
      let room ← lift (putGroup room { grp with sidNum := grp.sidNum + 1, sidSet := sidSet } (room.sidNum + 1))
      return (room, true)
    | (_, ret) => return (room, ret = .nodeExist)
  else return (room, false)

/-- `chat_group_add_session` -/
def chatGroupAddSession (misses : Misses) (room : ChatRoom) (gid : BitVec 32) (key : SessionKey) (mem : Mem) :
    Locked Lock (ChatRoom × Bool) := do
  let (groups, grp) ← queryGroup misses room.rid room.groups (gid.setWidth 16)
  let p ← groupAddSession { room with groups := groups } grp key mem
  release (.groups room.rid (groupKey.slot room.groups.len (gid.setWidth 16)))
  return p

/-- `_chat_group_del_session` -/
def groupDelSession (room : ChatRoom) (grp : ChatGroup) (key : SessionKey) : Locked Lock ChatRoom := do
  match ← hashTabDelete (.sidSet room.rid grp.gid) sessionKey id grp.sidSet key with
  | (_, none) => return room
  | (sidSet, some _) => lift (putGroup room { grp with sidNum := grp.sidNum - 1, sidSet := sidSet } (room.sidNum - 1))

/-- `chat_group_del_session` -/
def chatGroupDelSession (room : ChatRoom) (gid : BitVec 32) (key : SessionKey) : Locked Lock ChatRoom := do
  match ← hashTabQuery (.groups room.rid) groupKey ChatGroup.gid room.groups (gid.setWidth 16) with
  | none => return room
  | some grp =>
    let room' ← groupDelSession room grp key
    release (.groups room.rid (groupKey.slot room.groups.len (gid.setWidth 16)))
    return room'

/-- `QUERY_ROOM` of `_chat_room_add_session`: the room, with its slot locked. -/
def queryRoom (misses : Misses) (rooms : HashTab ChatRoom) (rid : Rid) : Locked Lock (HashTab ChatRoom × ChatRoom) := do
  let l := Lock.rooms (idKey.slot rooms.len rid)
  match ← query l (idKey.query ChatRoom.rid rooms rid) with
  | some room => return (rooms, room)
  | none =>
    misses.rooms.foldlM (fun _ miss => do
      missed l (.groups rid) chatGroupSlotLen miss
      acquire l
      release l) ()
    let rooms ← under l (chatAddRoom rooms rid)
    match ← query l (idKey.query ChatRoom.rid rooms rid) with
    | some room => return (rooms, room)
    | none => lift none

/-- `_chat_room_add_session` -/
def roomAddSession (misses : Misses) (rooms : HashTab ChatRoom) (rid : Rid) (gid : BitVec 32) (key : SessionKey)
    (mem : Mem) : Locked Lock (HashTab ChatRoom × Bool) := do
  let (rooms', room) ← queryRoom misses rooms rid
  let (room, ret) ← chatGroupAddSession misses room gid key mem
  let rooms' ← lift (putRoom rooms' room)
  release (.rooms (idKey.slot rooms.len rid))
  return (rooms', ret)

/-- `_chat_room_del_session` -/
def roomDelSession (rooms : HashTab ChatRoom) (rid : Rid) (gid : BitVec 32) (key : SessionKey) :
    Locked Lock (HashTab ChatRoom) := do
  match ← hashTabQuery .rooms idKey ChatRoom.rid rooms rid with
  | none => return rooms
  | some room =>
    let room ← chatGroupDelSession room gid key
    let rooms' ← lift (putRoom rooms room)
    release (.rooms (idKey.slot rooms.len rid))
    return rooms'

/-- `chat_room_destroy` -/
def chatRoomDestroy (room : ChatRoom) : Locked Lock Unit :=
  hashTabDestroy (.groups room.rid) room.groups fun grp =>
    hashTabDestroy (.sidSet room.rid grp.gid) grp.sidSet fun _ => return ()

/-- `chat_del_room` -/
def chatDelRoom (rooms : HashTab ChatRoom) (rid : Rid) : Locked Lock (HashTab ChatRoom) := do
  let l := Lock.rooms (idKey.slot rooms.len rid)
  match ← hashTabQuery .rooms idKey ChatRoom.rid rooms rid with
  | none => return rooms
  | some room =>
    if room.sidNum ≠ 0 then
      release l
      return rooms
    else
      let (rooms, _) ← lift (idKey.delete ChatRoom.rid rooms rid)
      release l
      chatRoomDestroy room
      return rooms

/-- `chat_group_trav`. What `proc` does is left out: it is handed the sessions in this order. -/
def chatGroupTrav (room : ChatRoom) (gid : BitVec 16) : Locked Lock (List SessionKey) := do
  if gid = 0 then
    hashTabTrav (.groups room.rid) room.groups (fun out grp =>
      hashTabTrav (.sidSet room.rid grp.gid) grp.sidSet (fun out key => return out ++ [key]) out) []
  else
    match ← hashTabQuery (.groups room.rid) groupKey ChatGroup.gid room.groups gid with
    | none => return []
    | some grp =>
      let out ← hashTabTrav (.sidSet room.rid grp.gid) grp.sidSet (fun out key => return out ++ [key]) []
      release (.groups room.rid (groupKey.slot room.groups.len gid))
      return out

/-- `chat_room_trav_session` -/
def chatRoomTravSession (T : ChatTab) (rid : Rid) (gid : BitVec 16) : Locked Lock (List SessionKey) := do
  match ← hashTabQuery .rooms idKey ChatRoom.rid T.rooms rid with
  | none => return []
  | some room =>
    let out ← chatGroupTrav room gid
    release (.rooms (idKey.slot T.rooms.len rid))
    return out

/-- `chat_room_clean_hdl` -/
def chatRoomCleanHdl (T : ChatTab) (pushed : Rid → Bool) : Locked Lock ChatTab := do
  let rooms ← hashTabTrav .rooms T.rooms (fun out room => return out ++ [room]) []
  let rooms ← cleanLoop (ChatTab.cleanList rooms pushed) T.rooms
  return { T with rooms := rooms }
where
  cleanLoop : List Rid → HashTab ChatRoom → Locked Lock (HashTab ChatRoom)
    | [], rooms => return rooms
    | rid :: rids, rooms => do
      if rid = 0 then
        if rids = [] then return rooms else lift none
      else
        let rooms ← chatDelRoom rooms rid
        cleanLoop rids rooms

/-! ## Sessions -/

/-- `session->room` and `session->sub` are destroyed. -/
def sessionFree (key : SessionKey) : Locked Lock Unit := do
  hashTabFree (.room key) chatSessionSlotLen
  hashTabFree (.sub key) chatSubSlotLen

/-- `chat_session_tab_add` -/
def chatSessionTabAdd (misses : Misses) (T : ChatTab) (rid : Rid) (gid : BitVec 32) (sid cid : BitVec 64) (mem : Mem) :
    Locked Lock (ChatTab × Bool) := do
  let key := (sid, cid)
  if ¬mem.session then return (T, false)
  else if ¬mem.room then lift none
  else if ¬mem.tables then
    if misses.sub then
      under (.room key (itemKey.slot chatSessionSlotLen rid)) (some ())
      if misses.begun then hashTabFree (.sub key) chatSubSlotLen
    if misses.sub ∨ misses.begun then hashTabFree (.room key) chatSessionSlotLen
    return (T, false)
  else
    let (room, _) ← hashTabInsert (.room key) itemKey ChatRoomItem.rid
      (HashTab.hashTabCreat ChatRoomItem chatSessionSlotLen) ⟨rid, gid⟩ mem.roomNode
    lift (if T.rdlocked (T.slot key) then none else some ())
    let (sessions, ret) ← hashTabInsert .sessions sessionKey ChatSession.key T.sessions ⟨sid, cid, room⟩ mem.sessionNode
    if ret ≠ .ok then sessionFree key
    return ({ T with sessions := sessions }, ret = .ok)

/-- `chat_room_add_session` -/
def chatRoomAddSession (misses : Misses) (T : ChatTab) (rid : Rid) (gid : BitVec 32) (sid cid : BitVec 64) (mem : Mem) :
    Locked Lock (ChatTab × BitVec 32) := do
  let key := (sid, cid)
  let l := Lock.sessions (T.slot key)
  match ← hashTabQuery .sessions sessionKey ChatSession.key T.sessions key with
  | some session =>
    let lroom := Lock.room key (itemKey.slot session.room.len rid)
    match ← hashTabQuery (.room key) itemKey ChatRoomItem.rid session.room rid with
    | some room =>
      release lroom
      release l
      return (T, room.gid)
    | none =>
      if mem.item then
        let (room, _) ← hashTabInsert (.room key) itemKey ChatRoomItem.rid session.room ⟨rid, gid⟩ true
        let sessions ← lift (sessionKey.write ChatSession.key T.sessions key fun s => { s with room := room })
        release l
        return ({ T with sessions := sessions }, gid)
      else
        if misses.itemNode then under lroom (some ())
        release l
        return (T, -1)
  | none =>
    let (rooms, ret) ← roomAddSession misses T.rooms rid gid key mem
    if ret then
      let (T, ret) ← chatSessionTabAdd misses { T with rooms := rooms } rid gid sid cid mem
      if ret then return (T, 0)
      else
        let rooms ← roomDelSession T.rooms rid gid key
        return ({ T with rooms := rooms }, -1)
    else return ({ T with rooms := rooms }, -1)

/-- `chat_room_del_session` -/
def chatRoomDelSession (T : ChatTab) (rid : Rid) (sid cid : BitVec 64) : Locked Lock ChatTab := do
  match ← hashTabQuery .sessions sessionKey ChatSession.key T.sessions (sid, cid) with
  | none => return T
  | some session =>
    let T := { T with rdlocked := Function.update T.rdlocked (T.slot (sid, cid)) true }
    match ← hashTabDelete (.room (sid, cid)) itemKey ChatRoomItem.rid session.room rid with
    | (_, none) => return T
    | (room, some item) =>
      let sessions ← lift (sessionKey.write ChatSession.key T.sessions (sid, cid) fun s => { s with room := room })
      let rooms ← roomDelSession T.rooms item.rid item.gid (sid, cid)
      return { T with rooms := rooms, sessions := sessions }

/-- `chat_del_sid_to_cid` -/
def chatDelSidToCid (T : ChatTab) (sid cid : BitVec 64) : Locked Lock ChatTab := do
  let l := Lock.sid2cids (idKey.slot T.sid2cids.len sid)
  match ← hashTabQuery .sid2cids idKey Prod.fst T.sid2cids sid with
  | none => return T
  | some item =>
    if item.2 = cid then
      let (sid2cids, _) ← lift (idKey.delete Prod.fst T.sid2cids sid)
      release l
      return { T with sid2cids := sid2cids }
    else
      release l
      return T

/-- `chat_del_session` -/
def chatDelSession (T : ChatTab) (sid cid : BitVec 64) : Locked Lock ChatTab := do
  let T ← chatDelSidToCid T sid cid
  lift (if T.rdlocked (T.slot (sid, cid)) then none else some ())
  match ← hashTabDelete .sessions sessionKey ChatSession.key T.sessions (sid, cid) with
  | (_, none) => return T
  | (sessions, some session) =>
    let rooms ← hashTabTrav (.room (sid, cid)) session.room (fun rooms room =>
      roomDelSession rooms room.rid room.gid (session.sid, session.cid)) T.rooms
    sessionFree (sid, cid)
    return { T with rooms := rooms, sessions := sessions }

/-! ## The index and the subscriptions -/

/-- A call waits for a slot of `sid2cids` whose lock was not given back. -/
def waitSid (C : ChatState) (sid : BitVec 64) : Locked Lock Unit :=
  lift (if C.wrlocked (C.sidSlot sid) then none else some ())

/-- `chat_get_cid_by_sid` -/
def chatGetCidBySid (C : ChatState) (sid : BitVec 64) : Locked Lock (BitVec 64) := do
  waitSid C sid
  match ← hashTabQuery .sid2cids idKey Prod.fst C.tab.sid2cids sid with
  | none => return 0
  | some item =>
    release (.sid2cids (C.sidSlot sid))
    return item.2

/-- `chat_set_sid_to_cid`. An entry that could not be inserted is queried for again. -/
def chatSetSidToCid (misses : Misses) (C : ChatState) (sid cid : BitVec 64) (item node : Bool) :
    Locked Lock (ChatState × Int) := do
  let l := Lock.sid2cids (C.sidSlot sid)
  waitSid C sid
  match ← hashTabQuery .sid2cids idKey Prod.fst C.tab.sid2cids sid with
  | some old =>
    if old.2 = cid then
      release l
      return (C, 0)
    else
      let (sid2cids, _) ← lift (idKey.delete Prod.fst C.tab.sid2cids sid)
      if item then
        let (sid2cids, ret) ← lift (idKey.insert Prod.fst sid2cids (sid, cid) node)
        release l
        return ({ C with tab := { C.tab with sid2cids := sid2cids } }, if ret = .ok then 0 else -1)
      else
        return ({ C with
          tab := { C.tab with sid2cids := sid2cids }
          wrlocked := Function.update C.wrlocked (C.sidSlot sid) true }, -1)
  | none =>
    (List.range misses.again).foldlM (fun _ _ => do
      under l (some ())
      under l (some ())) ()
    if item then
      let (sid2cids, _) ← under l (idKey.insert Prod.fst C.tab.sid2cids (sid, cid) true)
      return ({ C with tab := { C.tab with sid2cids := sid2cids } }, 0)
    else return (C, -1)

/-- `chat_add_sub`. After an insertion that fails, the slot to unlock is found by the session. -/
def chatAddSub (C : ChatState) (sid : BitVec 64) (cmd : Cmd) (item node : Bool) : Locked Lock (ChatState × Int) := do
  if ¬item then return (C, -1)
  else
    let cid ← chatGetCidBySid C sid
    if cid = 0 then return (C, -1)
    else
      match ← hashTabQuery .sessions sessionKey ChatSession.key C.tab.sessions (sid, cid) with
      | none => return (C, -1)
      | some session =>
        match ← hashTabInsert (.sub session.key) subKey id (C.sub session.key) cmd node with
        | (_, .nodeExist) =>
          release (.sessions (C.tab.slot session.key))
          return (C, 0)
        | (_, .err) =>
          release (.sessions (C.tab.slot session.key))
          return (C, -1)
        | (sub, .ok) =>
          release (.sessions (C.tab.slot (sid, cid)))
          return ({ C with sub := Function.update C.sub session.key sub }, 0)

/-- `chat_del_sub` -/
def chatDelSub (C : ChatState) (sid : BitVec 64) (cmd : Cmd) : Locked Lock (ChatState × Int) := do
  let cid ← chatGetCidBySid C sid
  if cid = 0 then return (C, -1)
  else
    match ← hashTabQuery .sessions sessionKey ChatSession.key C.tab.sessions (sid, cid) with
    | none => return (C, -1)
    | some session =>
      let (sub, _) ← hashTabDelete (.sub session.key) subKey id (C.sub session.key) cmd
      release (.sessions (C.tab.slot (sid, cid)))
      return ({ C with sub := Function.update C.sub session.key sub }, 0)

/-- `_chat_has_sub`: where nothing is found, the lock that the query gave back is given back once
more. -/
def sessionHasSub (key : SessionKey) (sub : HashTab Cmd) (cmd : Cmd) : Locked Lock Bool := do
  let l := Lock.sub key (subKey.slot sub.len cmd)
  match ← hashTabQuery (.sub key) subKey id sub cmd with
  | none =>
    release l
    return false
  | some _ =>
    release l
    return true

/-- `chat_has_sub` -/
def chatHasSub (C : ChatState) (sid : BitVec 64) (cmd : Cmd) (word : BitVec 64) : Locked Lock Bool := do
  match ← hashTabQuery .sessions sessionKey ChatSession.key C.tab.sessions (sid, word) with
  | none => return false
  | some session =>
    let has ← sessionHasSub session.key (C.sub session.key) cmd
    release (.sessions (C.tab.slot (sid, word)))
    return has

/-! ## Calls -/

/-- A call of the chat table. -/
inductive Op where
  | call (c : ChatState.Call) (misses : Misses)
  | hasSub (sid : BitVec 64) (cmd : Cmd) (word : BitVec 64)
  | travSession (rid : Rid) (gid : BitVec 16)

def call (misses : Misses) (C : ChatState) : ChatState.Call → Locked Lock (ChatState × Int)
  | .addSession rid gid sid cid mem => do
    let (T, ret) ← chatRoomAddSession misses C.tab rid gid sid cid mem
    return ({ C with
      tab := T
      sub := if (sessionKey.query ChatSession.key C.tab.sessions (sid, cid)).join.isSome then C.sub
        else Function.update C.sub (sid, cid) (HashTab.hashTabCreat Cmd chatSubSlotLen) }, ret.toNat)
  | .roomDelSession rid sid cid => do
    let T ← chatRoomDelSession C.tab rid sid cid
    return ({ C with tab := T }, 0)
  | .delSession sid cid => do
    waitSid C sid
    let T ← chatDelSession C.tab sid cid
    return ({ C with tab := T }, 0)
  | .setSidToCid sid cid item node => chatSetSidToCid misses C sid cid item node
  | .delSidToCid sid cid => do
    waitSid C sid
    let T ← chatDelSidToCid C.tab sid cid
    return ({ C with tab := T }, 0)
  | .addSub sid cmd item node => chatAddSub C sid cmd item node
  | .delSub sid cmd => chatDelSub C sid cmd
  | .delRoom rid => do
    let rooms ← chatDelRoom C.tab.rooms rid
    return ({ C with tab := { C.tab with rooms := rooms } }, 0)
  | .clean pushed => do
    let T ← chatRoomCleanHdl C.tab pushed
    return ({ C with tab := T }, 0)

/-- The state after a call, and what was done to the locks. -/
def Op.run (C : ChatState) : Op → Locked Lock ChatState
  | .call c misses => do
    let (C, _) ← Locks.call misses C c
    return C
  | .hasSub sid cmd word => do
    let _ ← chatHasSub C sid cmd word
    return C
  | .travSession rid gid => do
    let _ ← chatRoomTravSession C.tab rid gid
    return C

/-- The call without its locks. -/
def Op.plain (C : ChatState) : Op → Option ChatState
  | .call c _ => C.step c
  | .hasSub sid cmd word => (C.chatHasSub sid cmd word).map fun _ => C
  | .travSession rid gid => (C.tab.chatRoomTravSession rid gid).map fun _ => C

end BeehiveIm.Chat.Locks
