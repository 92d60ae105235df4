/-
Goroutines in `RoomJoin`, `RoomQuit`, `SessionDel` and `Clean` at once. A step is one locked
section. Read locks that a call keeps over several sections are the sets of their readers; a section
under a write lock waits until there is none. The locks that `Clean` takes for its first loop are
copies of those of the rooms, so that loop waits for nobody.
-/
import BeehiveIm.GoChat
import BeehiveIm.Chat.Membership
import BeehiveIm.Lib.Run
import Mathlib.Data.Fintype.Defs

namespace BeehiveIm.GoChat

open BeehiveIm.Lib

/-- Where a goroutine stands. -/
inductive Pc where
  | idle (ret : Int)
  /-- `RoomJoin` at `ROOM` -/
  | roomAdd (rid : Rid) (gid : Gid) (key : ChatSessionKey)
  | roomQuery (rid : Rid) (gid : Gid) (key : ChatSessionKey)
  /-- at `GROUP`, reading the room list -/
  | groupAdd (rid : Rid) (gid : Gid) (key : ChatSessionKey)
  | groupQuery (rid : Rid) (gid : Gid) (key : ChatSessionKey)
  /-- `group.Lock()`, reading the group list too -/
  | groupJoin (rid : Rid) (gid : Gid) (key : ChatSessionKey)
  /-- `RoomQuit` before `room_del_session` -/
  | quitRoom (rid : Rid) (gid : Gid) (key : ChatSessionKey)
  /-- `SessionDel` before `session_del` -/
  | sessionDel (key : ChatSessionKey) (order : List (Rid × Gid))
  /-- in the loop over the rooms of the session -/
  | delRooms (key : ChatSessionKey) (rest : List (Rid × Gid))
  /-- `Clean` in its first loop -/
  | cleanScan (i : Nat) (rlist : List Rid) (order : List Rid)
  /-- in its second loop -/
  | cleanRooms (rest : List Rid)
  deriving DecidableEq

structure World (τ π : Type) where
  tab : ChatTab π
  pc : τ → Pc
  /-- The readers of each room list. -/
  roomRd : Fin roomMaxLen → Finset τ
  /-- The readers of each group list of a room. -/
  groupRd : Rid → Fin groupMaxLen → Finset τ

inductive Act where
  | join (rid : Rid) (gid : Gid) (sid cid : BitVec 64)
  | quit (rid : Rid) (sid cid : BitVec 64)
  | del (sid cid : BitVec 64) (order : List (Rid × Gid))
  | clean (order : List Rid)
  | go

namespace World

variable {τ π : Type} [DecidableEq τ]

def init (τ π : Type) : World τ π := ⟨ChatTab.init π, fun _ => .idle 0, fun _ => ∅, fun _ _ => ∅⟩

/-- `t` goes on at `pc`, with the table as it is then. -/
def goto (W : World τ π) (t : τ) (tab : ChatTab π) (pc : Pc) : World τ π :=
  { W with tab := tab, pc := Function.update W.pc t pc }

/-- `RLock` and `RUnlock` of a room list, as `f` changes its readers. -/
def onRoom (W : World τ π) (rid : Rid) (f : Finset τ → Finset τ) : World τ π :=
  { W with roomRd := Function.update W.roomRd (roomSlot rid) (f (W.roomRd (roomSlot rid))) }

/-- The same of a group list. -/
def onGroup (W : World τ π) (rid : Rid) (gid : Gid) (f : Finset τ → Finset τ) : World τ π :=
  let readers := Function.update (W.groupRd rid) (groupSlot gid) (f (W.groupRd rid (groupSlot gid)))
  { W with groupRd := Function.update W.groupRd rid readers }

/-- The next section of a goroutine in a call. -/
def go (W : World τ π) (t : τ) : Option (World τ π) :=
  match W.pc t with
  | .idle _ => none
  | .roomAdd rid gid key =>
    if W.roomRd (roomSlot rid) = ∅ then some (W.goto t (W.tab.roomAdd rid) (.roomQuery rid gid key)) else none
  | .roomQuery rid gid key =>
    match W.tab.roomQuery rid with
    | none => some (W.goto t W.tab (.roomAdd rid gid key))
    | some _ => some ((W.onRoom rid (insert t)).goto t W.tab (.groupAdd rid gid key))
  | .groupAdd rid gid key =>
    if W.groupRd rid (groupSlot gid) = ∅ then
      some (W.goto t (W.tab.groupAdd rid gid) (.groupQuery rid gid key))
    else none
  | .groupQuery rid gid key =>
    match W.tab.groupQuery rid gid with
    | none => some (W.goto t W.tab (.groupAdd rid gid key))
    | some _ => some ((W.onGroup rid gid (insert t)).goto t W.tab (.groupJoin rid gid key))
  | .groupJoin rid gid key =>
    some (((W.onGroup rid gid (·.erase t)).onRoom rid (·.erase t)).goto t (W.tab.groupJoin rid gid key) (.idle 0))
  | .quitRoom rid gid key => some (W.goto t (W.tab.roomDelSession rid gid key.1 key.2) (.idle 0))
  | .sessionDel key order =>
    match W.tab.sessionTake key.1 key.2 with
    | (tab, none) => some (W.goto t tab (.idle 0))
    | (tab, some ssn) => some (W.goto t tab (.delRooms key (ranged order ssn.rooms)))
  | .delRooms _ [] => some (W.goto t W.tab (.idle 0))
  | .delRooms key ((rid, gid) :: rest) =>
    some (W.goto t (W.tab.roomDelSession rid gid key.1 key.2) (.delRooms key rest))
  | .cleanScan i rlist order =>
    if h : i < roomMaxLen then
      let rooms := (W.tab.rooms.shard ⟨i, h⟩).entries.map fun e => (e.1, e.2)
      some (W.goto t W.tab (.cleanScan (i + 1) (rlist ++ ChatTab.emptyRooms rooms) order))
    else some (W.goto t W.tab (.cleanRooms (ranged order rlist)))
  | .cleanRooms [] => some (W.goto t W.tab (.idle 0))
  | .cleanRooms (rid :: rest) =>
    if W.roomRd (roomSlot rid) = ∅ then some (W.goto t (W.tab.roomClean rid) (.cleanRooms rest)) else none

/-- A goroutine that is in no call starts one, with the first section of it. -/
def call (W : World τ π) (t : τ) : Act → Option (World τ π)
  | .join rid gid sid cid =>
    let (tab, ret) := W.tab.sessionJoinRoom rid gid sid cid
    some (W.goto t tab (if ret ≠ 0 then .idle (-1) else .roomAdd rid gid (sid, cid)))
  | .quit rid sid cid =>
    match W.tab.sessionQuitRoom rid sid cid with
    | (tab, none) => some (W.goto t tab (.idle 0))
    | (tab, some gid) => some (W.goto t tab (.quitRoom rid gid (sid, cid)))
  | .del sid cid order => some (W.goto t (W.tab.sid2cidDel sid cid) (.sessionDel (sid, cid) order))
  | .clean order => some (W.goto t W.tab (.cleanScan 0 [] order))
  | .go => none

def step (W : World τ π) (o : τ × Act) : Option (World τ π) :=
  match o.2, W.pc o.1 with
  | .go, _ => W.go o.1
  | a, .idle _ => W.call o.1 a
  | _, _ => none

end World

/-! ## Halves of calls -/

/-- The member that a join has yet to put into its group. -/
def Pc.joins : Pc → Option (Rid × Gid × ChatSessionKey)
  | .roomAdd rid gid key | .roomQuery rid gid key | .groupAdd rid gid key | .groupQuery rid gid key
  | .groupJoin rid gid key => some (rid, gid, key)
  | _ => none

/-- The members that a quit or a deletion has yet to take out of their groups. -/
def Pc.removes : Pc → List (Rid × Gid × ChatSessionKey)
  | .quitRoom rid gid key => [(rid, gid, key)]
  | .delRooms key rest => rest.map fun e => (e.1, e.2, key)
  | _ => []

namespace World

variable {τ π : Type}

/-- The group in which the session is in the room, as the sessions have it. -/
def lists (W : World τ π) (rid : Rid) (key : ChatSessionKey) : Option Gid :=
  (W.tab.sessions.get key).bind fun ssn => ssn.room.lookup rid

def Joining (W : World τ π) (rid : Rid) (gid : Gid) (key : ChatSessionKey) : Prop :=
  ∃ t, (W.pc t).joins = some (rid, gid, key)

def Removing (W : World τ π) (rid : Rid) (gid : Gid) (key : ChatSessionKey) : Prop :=
  ∃ t, (rid, gid, key) ∈ (W.pc t).removes

/-- The second half of a call still agrees with the session: what a join puts into a group the
session lists, or it is about to be taken out; what is taken out the session does not list, or it
is about to be put in. -/
def Agrees (W : World τ π) (t : τ) : Prop :=
  match W.pc t with
  | .groupJoin rid gid key => W.lists rid key = some gid ∨ W.Removing rid gid key
  | .quitRoom rid gid key | .delRooms key ((rid, gid) :: _) => W.lists rid key = some gid → W.Joining rid gid key
  | _ => True

/-- A step that exists, of a call whose halves agree. -/
def Allowed [DecidableEq τ] (W : World τ π) (o : τ × Act) : Prop := (W.step o).isSome ∧ (o.2 = .go → W.Agrees o.1)

/-- All calls have returned. -/
def Idle (W : World τ π) : Prop := ∀ t, ∃ ret, W.pc t = .idle ret

section
variable [Fintype τ] (W : World τ π)

instance (rid : Rid) (gid : Gid) (key : ChatSessionKey) : Decidable (W.Joining rid gid key) :=
  inferInstanceAs (Decidable (∃ t, (W.pc t).joins = some (rid, gid, key)))

instance (rid : Rid) (gid : Gid) (key : ChatSessionKey) : Decidable (W.Removing rid gid key) :=
  inferInstanceAs (Decidable (∃ t, (rid, gid, key) ∈ (W.pc t).removes))

instance (t : τ) : Decidable (W.Agrees t) := by
  unfold Agrees
  split <;> infer_instance

instance [DecidableEq τ] (o : τ × Act) : Decidable (W.Allowed o) :=
  have : Decidable (o.2 = .go) := match o.2 with
    | .go => isTrue rfl
    | .join .. | .quit .. | .del .. | .clean .. => isFalse nofun
  inferInstanceAs (Decidable ((W.step o).isSome ∧ (o.2 = .go → W.Agrees o.1)))

end

end World

end BeehiveIm.GoChat
