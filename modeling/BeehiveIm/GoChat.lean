/-
The chat table of the Go side (`lib/chat_tab`), one call after another. A function that
the source writes as one locked section is one definition; what the locks order is the
subject of `GoChat.Race`. Objects behind pointers are kept by value: a section looks its
objects up and puts them back.
-/
import BeehiveIm.Lib.Shards

namespace BeehiveIm.GoChat

open BeehiveIm.Lib

abbrev Rid := BitVec 64
abbrev Gid := BitVec 32

/-- `ChatSessionKey`: a session id and a connection id. -/
abbrev ChatSessionKey := BitVec 64 × BitVec 64

def roomMaxLen : Nat := 999
def groupMaxLen : Nat := 99
def sessionMaxLen : Nat := 999

def roomSlot (rid : Rid) : Fin roomMaxLen := ⟨rid.toNat % roomMaxLen, Nat.mod_lt _ (by decide)⟩
def groupSlot (gid : Gid) : Fin groupMaxLen := ⟨gid.toNat % groupMaxLen, Nat.mod_lt _ (by decide)⟩
def sidSlot (sid : BitVec 64) : Fin sessionMaxLen := ⟨sid.toNat % sessionMaxLen, Nat.mod_lt _ (by decide)⟩
def sessionSlot (key : ChatSessionKey) : Fin sessionMaxLen := sidSlot key.1

structure ChatSessionItem (π : Type) where
  sid : BitVec 64
  cid : BitVec 64
  room : AList fun _ : Rid => Gid
  /-- The commands for which the map holds `true`; it never holds `false`. -/
  sub : Finset (BitVec 32)
  param : Option π

/-- The rooms of a session with its groups. -/
def ChatSessionItem.rooms {π : Type} (ssn : ChatSessionItem π) : List (Rid × Gid) :=
  ssn.room.entries.map fun e => (e.1, e.2)

structure ChatGroupItem where
  gid : Gid
  sidNum : Int
  sidList : Finset ChatSessionKey

structure ChatRoomItem where
  rid : Rid
  sidNum : Int
  groups : Shards groupSlot ChatGroupItem

/-- The room with its count and one of its groups written. -/
def ChatRoomItem.put (room : ChatRoomItem) (sidNum : Int) (gid : Gid) (group : ChatGroupItem) : ChatRoomItem :=
  { room with sidNum := sidNum, groups := room.groups.set gid group }

structure ChatTab (π : Type) where
  rooms : Shards roomSlot ChatRoomItem
  sessions : Shards sessionSlot (ChatSessionItem π)
  sid2cids : Shards sidSlot (BitVec 64)

namespace ChatTab

variable {π : Type}

def init (π : Type) : ChatTab π := ⟨.empty _ _, .empty _ _, .empty _ _⟩

/-! ## `comm.go`: sessions -/

/-- `session_join_room` -/
def sessionJoinRoom (tab : ChatTab π) (rid : Rid) (gid : Gid) (sid cid : BitVec 64) : ChatTab π × Int :=
  match tab.sessions.get (sid, cid) with
  | some ssn =>
    match ssn.room.lookup rid with
    | none =>
      ({ tab with sessions := tab.sessions.set (sid, cid) { ssn with room := ssn.room.insert rid gid } }, 0)
    | some gid' => if gid' = gid then (tab, 0) else (tab, -1)
  | none =>
    ({ tab with sessions := tab.sessions.set (sid, cid) ⟨sid, cid, AList.insert rid gid ∅, ∅, none⟩ }, 0)

/-- `session_quit_room` -/
def sessionQuitRoom (tab : ChatTab π) (rid : Rid) (sid cid : BitVec 64) : ChatTab π × Option Gid :=
  match tab.sessions.get (sid, cid) with
  | some ssn =>
    match ssn.room.lookup rid with
    | none => (tab, none)
    | some gid =>
      ({ tab with sessions := tab.sessions.set (sid, cid) { ssn with room := ssn.room.erase rid } }, some gid)
  | none => (tab, none)

/-- `session_del`, which answers the session it has taken out of the table -/
def sessionTake (tab : ChatTab π) (sid cid : BitVec 64) : ChatTab π × Option (ChatSessionItem π) :=
  match tab.sessions.get (sid, cid) with
  | none => (tab, none)
  | some ssn => ({ tab with sessions := tab.sessions.del (sid, cid) }, some ssn)

/-- `sid2cid_del` -/
def sid2cidDel (tab : ChatTab π) (sid cid : BitVec 64) : ChatTab π :=
  match tab.sid2cids.get sid with
  | none => tab
  | some cid' => if cid' = cid then { tab with sid2cids := tab.sid2cids.del sid } else tab

/-! ## `comm.go`: rooms and groups -/

/-- `room_add` -/
def roomAdd (tab : ChatTab π) (rid : Rid) : ChatTab π :=
  match tab.rooms.get rid with
  | none => { tab with rooms := tab.rooms.set rid ⟨rid, 0, .empty _ _⟩ }
  | some _ => tab

/-- `room_query` -/
def roomQuery (tab : ChatTab π) (rid : Rid) : Option ChatRoomItem := tab.rooms.get rid

/-- `group_add` on the room -/
def groupAdd (tab : ChatTab π) (rid : Rid) (gid : Gid) : ChatTab π :=
  match tab.rooms.get rid with
  | none => tab
  | some room =>
    match room.groups.get gid with
    | none =>
      { tab with rooms := tab.rooms.set rid (room.put room.sidNum gid ⟨gid, 0, ∅⟩) }
    | some _ => tab

/-- `group_query` on the room -/
def groupQuery (tab : ChatTab π) (rid : Rid) (gid : Gid) : Option ChatGroupItem :=
  (tab.rooms.get rid).bind (·.groups.get gid)

/-- The end of `RoomJoin`, under `group.Lock()` -/
def groupJoin (tab : ChatTab π) (rid : Rid) (gid : Gid) (key : ChatSessionKey) : ChatTab π :=
  match tab.rooms.get rid with
  | none => tab
  | some room =>
    match room.groups.get gid with
    | none => tab
    | some group =>
      if key ∈ group.sidList then tab
      else
        let group := { group with sidList := insert key group.sidList, sidNum := group.sidNum + 1 }
        { tab with rooms := tab.rooms.set rid (room.put (room.sidNum + 1) gid group) }

/-- `room_del_session` -/
def roomDelSession (tab : ChatTab π) (rid : Rid) (gid : Gid) (sid cid : BitVec 64) : ChatTab π :=
  match tab.rooms.get rid with
  | none => tab
  | some room =>
    match room.groups.get gid with
    | none => tab
    | some group =>
      if (sid, cid) ∈ group.sidList then
        let group := { group with sidList := group.sidList.erase (sid, cid), sidNum := group.sidNum - 1 }
        { tab with rooms := tab.rooms.set rid (room.put (room.sidNum - 1) gid group) }
      else tab

/-! ## `chat.go` -/

/-- `RoomJoin`. With nobody else about, neither `goto` would ever be left (`none`). -/
def roomJoin (tab : ChatTab π) (rid : Rid) (gid : Gid) (sid cid : BitVec 64) : Option (ChatTab π × Int) :=
  let (tab, ret) := tab.sessionJoinRoom rid gid sid cid
  if ret ≠ 0 then some (tab, -1)
  else
    let tab := tab.roomAdd rid
    match tab.roomQuery rid with
    | none => none
    | some _ =>
      let tab := tab.groupAdd rid gid
      match tab.groupQuery rid gid with
      | none => none
      | some _ => some (tab.groupJoin rid gid (sid, cid), 0)

/-- `RoomQuit` -/
def roomQuit (tab : ChatTab π) (rid : Rid) (sid cid : BitVec 64) : ChatTab π × Int :=
  match tab.sessionQuitRoom rid sid cid with
  | (tab, none) => (tab, 0)
  | (tab, some gid) => (tab.roomDelSession rid gid sid cid, 0)

/-- `SessionDel`; `order` is that of `range ssn.room`. -/
def sessionDel (tab : ChatTab π) (sid cid : BitVec 64) (order : List (Rid × Gid)) : ChatTab π × Int :=
  match (tab.sid2cidDel sid cid).sessionTake sid cid with
  | (tab, none) => (tab, 0)
  | (tab, some ssn) =>
    ((ranged order ssn.rooms).foldl (fun tab (rid, gid) => tab.roomDelSession rid gid sid cid) tab, 0)

/-- `SessionSetParam` -/
def sessionSetParam (tab : ChatTab π) (sid cid : BitVec 64) (param : Option π) : ChatTab π × Int :=
  match tab.sessions.get (sid, cid) with
  | some _ => (tab, -1)
  | none => ({ tab with sessions := tab.sessions.set (sid, cid) ⟨sid, cid, ∅, ∅, param⟩ }, 0)

/-- `SessionGetParam` -/
def sessionGetParam (tab : ChatTab π) (sid cid : BitVec 64) : Option π := (tab.sessions.get (sid, cid)).bind (·.param)

/-- `GetCidBySid` -/
def getCidBySid (tab : ChatTab π) (sid : BitVec 64) : BitVec 64 := (tab.sid2cids.get sid).getD 0

/-- `SessionSetCid` -/
def sessionSetCid (tab : ChatTab π) (sid cid : BitVec 64) : ChatTab π × Int :=
  ({ tab with sid2cids := tab.sid2cids.set sid cid }, 0)

/-- `SubAdd` -/
def subAdd (tab : ChatTab π) (sid cid : BitVec 64) (cmd : BitVec 32) : ChatTab π × Int :=
  match tab.sessions.get (sid, cid) with
  | none => (tab, -1)
  | some ssn => ({ tab with sessions := tab.sessions.set (sid, cid) { ssn with sub := insert cmd ssn.sub } }, 0)

/-- `SubDel` -/
def subDel (tab : ChatTab π) (sid cid : BitVec 64) (cmd : BitVec 32) : ChatTab π × Int :=
  match tab.sessions.get (sid, cid) with
  | none => (tab, 0)
  | some ssn => ({ tab with sessions := tab.sessions.set (sid, cid) { ssn with sub := ssn.sub.erase cmd } }, 0)

/-- The rooms without a session, among those given. -/
def emptyRooms (rooms : List (Rid × ChatRoomItem)) : List Rid :=
  (rooms.filter fun e => e.2.sidNum = 0).map Prod.fst

/-- The second loop of `Clean`, for one room. -/
def roomClean (tab : ChatTab π) (rid : Rid) : ChatTab π :=
  match tab.rooms.get rid with
  | none => tab
  | some room => if room.sidNum ≠ 0 then tab else { tab with rooms := tab.rooms.del rid }

/-- `Clean`; `order` is that of `range rlist`. -/
def clean (tab : ChatTab π) (order : List Rid) : ChatTab π × Int :=
  ((ranged order (emptyRooms tab.rooms.toList)).foldl roomClean tab, 0)

/-- `TravRoomSession`: the sessions handed to `proc`; all groups for `gid` 0. -/
def travRoomSession (tab : ChatTab π) (rid : Rid) (gid : Gid) : Finset ChatSessionKey :=
  match tab.rooms.get rid with
  | none => ∅
  | some room =>
    if gid = 0 then room.groups.toList.foldr (fun e keys => e.2.sidList ∪ keys) ∅
    else
      match room.groups.get gid with
      | none => ∅
      | some group => group.sidList

/-! ## Runs -/

inductive Op (π : Type) where
  | roomJoin (rid : Rid) (gid : Gid) (sid cid : BitVec 64)
  | roomQuit (rid : Rid) (sid cid : BitVec 64)
  | sessionSetParam (sid cid : BitVec 64) (param : Option π)
  | subAdd (sid cid : BitVec 64) (cmd : BitVec 32)
  | subDel (sid cid : BitVec 64) (cmd : BitVec 32)
  | sessionDel (sid cid : BitVec 64) (order : List (Rid × Gid))
  | clean (order : List Rid)

def step (tab : ChatTab π) : Op π → Option (ChatTab π)
  | .roomJoin rid gid sid cid => (tab.roomJoin rid gid sid cid).map Prod.fst
  | .roomQuit rid sid cid => some (tab.roomQuit rid sid cid).1
  | .sessionSetParam sid cid param => some (tab.sessionSetParam sid cid param).1
  | .subAdd sid cid cmd => some (tab.subAdd sid cid cmd).1
  | .subDel sid cid cmd => some (tab.subDel sid cid cmd).1
  | .sessionDel sid cid order => some (tab.sessionDel sid cid order).1
  | .clean order => some (tab.clean order).1

end ChatTab

end BeehiveIm.GoChat
