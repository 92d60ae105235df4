/-
What the calls of the chat table keep, whatever order they come in: the tables find what is
in them. The ids are to be such that the tables can handle them; a session may join any
rooms, and memory may be short.
-/
import BeehiveIm.Chat.Calls
import BeehiveIm.Chat.Sessions
import BeehiveIm.Lib.Run

namespace BeehiveIm.Chat

open BeehiveIm.Lib BeehiveIm.Core

variable {len : Nat} {R : Set Rid} {S : Set SessionKey} {key : SessionKey} {rid : Rid} {gid : BitVec 32}

/-! ## Rooms -/

/-- The rooms are in a table that finds them. -/
def RoomsIn (len : Nat) (R : Set Rid) (rooms : HashTab ChatRoom) : Prop :=
  ∃ rs, Stored idKey ChatRoom.rid R len rooms rs

section Rooms

variable {rooms rooms' : HashTab ChatRoom} {room room' : ChatRoom}

theorem putGroup_rid {grp : ChatGroup} {sidNum : Int} (h : putGroup room grp sidNum = some room') :
    room'.rid = room.rid := by
  obtain ⟨groups, -, rfl⟩ := Option.map_eq_some_iff.1 h
  rfl

theorem chatGroupAddSession_rid {mem : Mem} {ret : Bool}
    (h : chatGroupAddSession room gid key mem = some (room', ret)) : room'.rid = room.rid := by
  unfold chatGroupAddSession at h
  split at h
  · cases h
  unfold groupAddSession at h
  split at h
  · split at h
    · cases h
    · obtain ⟨r, hr, heq⟩ := Option.map_eq_some_iff.1 h
      cases heq
      have hrid := putGroup_rid hr
      exact hrid
    · cases h
      rfl
  · cases h
    rfl

theorem chatGroupDelSession_rid (h : chatGroupDelSession room gid key = some room') : room'.rid = room.rid := by
  unfold chatGroupDelSession at h
  split at h
  · cases h
  · cases h
    rfl
  · unfold groupDelSession at h
    split at h
    · cases h
    · cases h
      rfl
    · exact putGroup_rid h

namespace RoomsIn

theorem putRoom (h : RoomsIn len R rooms) (hr : room.rid ∈ R) (hput : putRoom rooms room = some rooms') :
    RoomsIn len R rooms' := by
  obtain ⟨rs, hst⟩ := h
  obtain ⟨rooms₁, hwrite, hst'⟩ := hst.write hr (g := fun r => { r with sidNum := room.sidNum, groups := room.groups })
    fun _ => rfl
  obtain rfl : rooms₁ = rooms' := Option.some.inj (hwrite.symm.trans hput)
  exact ⟨_, hst'⟩

theorem chatAddRoom (h : RoomsIn len R rooms) (hr : rid ∈ R) (hq : idKey.query ChatRoom.rid rooms rid = some none)
    (hadd : chatAddRoom rooms rid = some rooms') : RoomsIn len R rooms' := by
  obtain ⟨rs, hst⟩ := h
  rw [hst.query hr] at hq
  obtain ⟨rooms₁, hins, hst'⟩ := hst.insert_ok (e := ⟨rid, 0, HashTab.hashTabCreat ChatGroup chatGroupSlotLen⟩) hr
    (Option.some.inj hq)
  rw [Chat.chatAddRoom, hins] at hadd
  cases hadd
  exact ⟨_, hst'⟩

theorem query_rid (h : RoomsIn len R rooms) (hq : idKey.query ChatRoom.rid rooms rid = some (some room)) :
    room.rid = rid := by
  obtain ⟨rs, hst⟩ := h
  exact (lookup_mem (hst.query_eq_some.1 hq)).2

theorem queryRoom (hr : rid ∈ R) : ∀ {fuel : Nat} {rooms rooms' : HashTab ChatRoom}, RoomsIn len R rooms →
    queryRoom fuel rooms rid = some (rooms', room) → RoomsIn len R rooms' ∧ room.rid = rid
  | 0, _, _, _, hq => by cases hq
  | fuel + 1, rooms, rooms', h, hq => by
    unfold Chat.queryRoom at hq
    split at hq
    · cases hq
    · rename_i hfound
      cases hq
      exact ⟨h, h.query_rid hfound⟩
    · rename_i hnone
      split at hq
      · cases hq
      · rename_i hadd
        exact queryRoom hr (h.chatAddRoom hr hnone hadd) hq

theorem roomAddSession (h : RoomsIn len R rooms) (hr : rid ∈ R) {mem : Mem} {ret : Bool}
    (hadd : roomAddSession rooms rid gid key mem = some (rooms', ret)) : RoomsIn len R rooms' := by
  unfold Chat.roomAddSession at hadd
  split at hadd
  · cases hadd
  rename_i hquery
  obtain ⟨h', hrid⟩ := h.queryRoom hr hquery
  split at hadd
  · cases hadd
  rename_i hgroup
  obtain ⟨rooms₁, hput, heq⟩ := Option.map_eq_some_iff.1 hadd
  cases heq
  refine h'.putRoom ?_ hput
  rw [chatGroupAddSession_rid hgroup, hrid]
  exact hr

theorem roomDelSession (h : RoomsIn len R rooms) (hr : rid ∈ R)
    (hdel : roomDelSession rooms rid gid key = some rooms') : RoomsIn len R rooms' := by
  unfold Chat.roomDelSession at hdel
  split at hdel
  · cases hdel
  · cases hdel
    exact h
  rename_i hquery
  split at hdel
  · cases hdel
  rename_i hgroup
  refine h.putRoom ?_ hdel
  rw [chatGroupDelSession_rid hgroup, h.query_rid hquery]
  exact hr

theorem delItems : ∀ {items : List ChatRoomItem} {rooms : HashTab ChatRoom}, RoomsIn len R rooms →
    (∀ item ∈ items, item.rid ∈ R) →
    items.foldlM (fun rooms item => Chat.roomDelSession rooms item.rid item.gid key) rooms = some rooms' →
    RoomsIn len R rooms'
  | [], _, h, _, hfold => by
    cases hfold
    exact h
  | item :: items, rooms, h, hR, hfold => by
    obtain ⟨hr, hR⟩ := List.forall_mem_cons.1 hR
    rw [List.foldlM_cons, Option.bind_eq_bind, Option.bind_eq_some_iff] at hfold
    obtain ⟨rooms₁, hdel, hfold⟩ := hfold
    exact delItems (h.roomDelSession hr hdel) hR hfold

/-- A room is deleted if it counts no session. -/
theorem chatDelRoom {rs : List ChatRoom} (hst : Stored idKey ChatRoom.rid R len rooms rs) (hr : rid ∈ R) :
    ∃ rooms' rs', chatDelRoom rooms rid = some rooms' ∧ Stored idKey ChatRoom.rid R len rooms' rs' ∧
      ∀ r, lookup ChatRoom.rid rs' r =
        if r = rid then (lookup ChatRoom.rid rs rid).filter (·.sidNum ≠ 0) else lookup ChatRoom.rid rs r := by
  unfold Chat.chatDelRoom
  rw [hst.query hr]
  cases hl : lookup ChatRoom.rid rs rid with
  | none =>
    refine ⟨rooms, rs, rfl, hst, fun r => ?_⟩
    split
    · rename_i heq
      rw [heq, hl]
      rfl
    · rfl
  | some room =>
    dsimp only
    by_cases hnum : room.sidNum = 0
    · obtain ⟨rooms', hdel, hst'⟩ := hst.delete hr
      rw [if_neg (not_not.2 hnum), hdel]
      refine ⟨rooms', _, rfl, hst', fun r => ?_⟩
      rw [lookup_without]
      split
      · simp [Option.filter, hnum]
      · rfl
    · rw [if_pos hnum]
      refine ⟨rooms, rs, rfl, hst, fun r => ?_⟩
      split
      · rename_i heq
        rw [heq, hl]
        simp [Option.filter, hnum]
      · rfl

/-- The loop deletes the rooms of the list that count no session, up to room 0. -/
theorem cleanLoop : ∀ {rids : List Rid} {rooms rooms' : HashTab ChatRoom} {rs : List ChatRoom},
    Stored idKey ChatRoom.rid R len rooms rs → (∀ rid ∈ rids, rid ∈ R) → ChatTab.cleanLoop rids rooms = some rooms' →
    ∃ rs', Stored idKey ChatRoom.rid R len rooms' rs' ∧ ∀ r, lookup ChatRoom.rid rs' r =
      if r ∈ rids.takeWhile (· ≠ 0) then (lookup ChatRoom.rid rs r).filter (·.sidNum ≠ 0) else lookup ChatRoom.rid rs r
  | [], rooms, rooms', rs, hst, _, hclean => by
    cases hclean
    exact ⟨rs, hst, by simp⟩
  | rid :: rids, rooms, rooms', rs, hst, hR, hclean => by
    obtain ⟨hr, hR⟩ := List.forall_mem_cons.1 hR
    unfold ChatTab.cleanLoop at hclean
    split at hclean
    · rename_i hzero
      split at hclean
      · cases hclean
        exact ⟨rs, hst, by simp [hzero]⟩
      · cases hclean
    rename_i hne
    obtain ⟨rooms₁, rs₁, hdel, hst₁, hl₁⟩ := chatDelRoom hst hr
    rw [hdel] at hclean
    obtain ⟨rs', hst', hl'⟩ := cleanLoop hst₁ hR hclean
    refine ⟨rs', hst', fun r => ?_⟩
    have htake : (rid :: rids).takeWhile (· ≠ 0) = rid :: rids.takeWhile (· ≠ 0) :=
      List.takeWhile_cons_of_pos (by simpa using hne)
    rw [hl', hl₁, htake]
    simp only [List.mem_cons]
    by_cases hrid : r = rid
    · subst hrid
      simp [Option.filter_filter]
    · simp [hrid]

/-- Without room 0 it goes through. -/
theorem cleanLoop_isSome : ∀ {rids : List Rid} {rooms : HashTab ChatRoom} {rs : List ChatRoom},
    Stored idKey ChatRoom.rid R len rooms rs → (∀ rid ∈ rids, rid ∈ R) → 0 ∉ rids →
    (ChatTab.cleanLoop rids rooms).isSome
  | [], _, _, _, _, _ => rfl
  | rid :: rids, rooms, rs, hst, hR, hzero => by
    obtain ⟨hr, hR⟩ := List.forall_mem_cons.1 hR
    obtain ⟨hne, hzero⟩ := not_or.1 (mt List.mem_cons.2 hzero)
    obtain ⟨rooms₁, rs₁, hdel, hst₁, -⟩ := chatDelRoom hst hr
    unfold ChatTab.cleanLoop
    rw [if_neg (Ne.symm hne), hdel]
    exact cleanLoop_isSome hst₁ hR hzero

end RoomsIn

end Rooms

/-! ## Sessions -/

section Sessions

variable {T T' : ChatTab} {m : Membership SessionKey Rid (BitVec 32)} {sid cid : BitVec 64} {mem : Mem}

/-- A new session, that lists its room if there is memory for the item. -/
theorem SessionsOk.chatSessionTabAdd_dom {ok : Bool} (h : SessionsOk len R S T.sessions m) (hids : Ids len R S)
    (hr : rid ∈ R)
    (hk : (sid, cid) ∈ S) (hno : m (sid, cid) = none) (hadd : T.chatSessionTabAdd rid gid sid cid mem = some (T', ok)) :
    T'.rooms = T.rooms ∧ T'.sid2cids = T.sid2cids ∧
      ∃ m', SessionsOk len R S T'.sessions m' ∧ ∀ k, (m' k).isSome ↔ (m k).isSome ∨ ok ∧ k = (sid, cid) := by
  unfold ChatTab.chatSessionTabAdd at hadd
  split at hadd
  · cases hadd
    exact ⟨rfl, rfl, m, h, by simp⟩
  split at hadd
  · cases hadd
  split at hadd
  · cases hadd
    exact ⟨rfl, rfl, m, h, by simp⟩
  split at hadd
  · cases hadd
  rename_i room ret hroom
  split at hadd
  · cases hadd
  obtain ⟨⟨sessions', ret'⟩, hins, heq⟩ := Option.map_eq_some_iff.1 hadd
  have hempty : Stored itemKey ChatRoomItem.rid R chatSessionSlotLen
      (HashTab.hashTabCreat ChatRoomItem chatSessionSlotLen) [] :=
    hashTabCreat_stored (by decide) (by decide) hids.items
  have hsession : ∃ rooms, SessionOk R ⟨sid, cid, room⟩ rooms := by
    cases hnode : mem.roomNode with
    | true =>
      obtain ⟨room', hins', hst⟩ := hempty.insert_ok (e := ⟨rid, gid⟩) hr rfl
      rw [hnode, hins'] at hroom
      cases hroom
      exact ⟨_, _, hst, fun _ => rfl⟩
    | false =>
      rw [hnode, hempty.insert_err (e := ⟨rid, gid⟩) hr rfl] at hroom
      cases hroom
      exact ⟨_, _, hempty, fun _ => rfl⟩
  obtain ⟨rooms, hok⟩ := hsession
  cases hnode : mem.sessionNode with
  | true =>
    obtain ⟨sessions'', hins', h'⟩ := h.insert ⟨sid, cid, room⟩ hk hno rfl hok
    rw [hnode, hins'] at hins
    cases hins
    cases heq
    refine ⟨rfl, rfl, _, h', fun k => ?_⟩
    rw [Function.update_apply]
    split
    · rename_i hkey
      simp [hkey]
    · rename_i hkey
      simp [hkey]
  | false =>
    rw [hnode, h.insert_err ⟨sid, cid, room⟩ hk hno rfl] at hins
    cases hins
    cases heq
    exact ⟨rfl, rfl, m, h, by simp⟩

/-- A session that is not in the table is, when the answer is 0; nothing else changes
what sessions there are. -/
theorem chatRoomAddSession_dom {ret : BitVec 32} (h : SessionsOk len R S T.sessions m) (hrooms : RoomsIn len R T.rooms)
    (hids : Ids len R S) (hr : rid ∈ R) (hk : (sid, cid) ∈ S)
    (hadd : T.chatRoomAddSession rid gid sid cid mem = some (T', ret)) :
    RoomsIn len R T'.rooms ∧ T'.sid2cids = T.sid2cids ∧
      ∃ m', SessionsOk len R S T'.sessions m' ∧
        ∀ k, (m' k).isSome ↔ (m k).isSome ∨ ret = 0 ∧ k = (sid, cid) := by
  unfold ChatTab.chatRoomAddSession at hadd
  rcases h.query hk with ⟨session, rooms, hq, hkey, hm, hok⟩ | ⟨hq, hno⟩
  · -- the session may list one more room
    have hdom : ∀ k, (m k).isSome ↔ (m k).isSome ∨ ret = 0 ∧ k = (sid, cid) := by
      refine fun k => ⟨.inl, ?_⟩
      rintro (hsome | ⟨-, rfl⟩)
      · exact hsome
      · rw [hm]
        rfl
    simp only [hq] at hadd
    split at hadd
    · cases hadd
    · cases hadd
      exact ⟨hrooms, rfl, m, h, hdom⟩
    rename_i hitem
    split at hadd
    · split at hadd
      · cases hadd
      rename_i room ret' hins
      obtain ⟨sessions', hwrite, heq⟩ := Option.map_eq_some_iff.1 hadd
      cases heq
      obtain ⟨items, hst, -⟩ := hok
      rw [hst.query hr] at hitem
      obtain ⟨room', hins', hst'⟩ := hst.insert_ok (e := ⟨rid, gid⟩) hr (Option.some.inj hitem)
      rw [hins'] at hins
      cases hins
      obtain ⟨sessions'', hwrite', h'⟩ := h.write hk hq ⟨_, hst', fun _ => rfl⟩
      rw [hwrite'] at hwrite
      cases hwrite
      refine ⟨hrooms, rfl, _, h', fun k => ?_⟩
      rw [Function.update_apply, ← hdom]
      split
      · rename_i hkey
        rw [hkey, hm]
        simp
      · rfl
    · cases hadd
      exact ⟨hrooms, rfl, m, h, hdom⟩
  · simp only [hq] at hadd
    split at hadd
    · cases hadd
    · rename_i hroom
      cases hadd
      exact ⟨hrooms.roomAddSession hr hroom, rfl, m, h, by simp⟩
    rename_i rooms' hroom
    have hrooms' := hrooms.roomAddSession hr hroom
    split at hadd
    · cases hadd
    · rename_i T₁ htab
      obtain ⟨hsame, hindex, m', h', hdom⟩ :=
        SessionsOk.chatSessionTabAdd_dom (T := { T with rooms := rooms' }) h hids hr hk
        hno htab
      obtain ⟨rooms'', hdel, heq⟩ := Option.map_eq_some_iff.1 hadd
      cases heq
      have hrooms₁ : RoomsIn len R T₁.rooms := hsame ▸ hrooms'
      refine ⟨hrooms₁.roomDelSession hr hdel, hindex, m', h', fun k => ?_⟩
      rw [hdom]
      simp
    · rename_i T₁ htab
      obtain ⟨hsame, hindex, m', h', hdom⟩ :=
        SessionsOk.chatSessionTabAdd_dom (T := { T with rooms := rooms' }) h hids hr hk
        hno htab
      cases hadd
      refine ⟨hsame ▸ hrooms', hindex, m', h', fun k => ?_⟩
      rw [hdom]
      simp

theorem chatRoomDelSession_dom (h : SessionsOk len R S T.sessions m) (hrooms : RoomsIn len R T.rooms) (hr : rid ∈ R)
    (hk : (sid, cid) ∈ S) (hdel : T.chatRoomDelSession rid sid cid = some T') :
    RoomsIn len R T'.rooms ∧ T'.sid2cids = T.sid2cids ∧
      ∃ m', SessionsOk len R S T'.sessions m' ∧ ∀ k, (m' k).isSome ↔ (m k).isSome := by
  unfold ChatTab.chatRoomDelSession at hdel
  rcases h.query hk with ⟨session, rooms, hq, hkey, hm, hok⟩ | ⟨hq, -⟩
  · simp only [hq] at hdel
    obtain ⟨room, item, hdelItem, -, hrid, hok'⟩ := hok.delete hr
    simp only [hdelItem] at hdel
    cases item with
    | none =>
      cases hdel
      exact ⟨hrooms, rfl, m, h, fun _ => Iff.rfl⟩
    | some item =>
      obtain ⟨sessions', hwrite, h'⟩ := h.write hk hq hok'
      simp only [hwrite] at hdel
      obtain ⟨rooms', hdelRoom, heq⟩ := Option.map_eq_some_iff.1 hdel
      cases heq
      refine ⟨hrooms.roomDelSession ((hrid item rfl).symm ▸ hr) hdelRoom, rfl, _, h', fun k => ?_⟩
      rw [Function.update_apply]
      split
      · rename_i hkey
        rw [hkey, hm]
        simp
      · rfl
  · simp only [hq] at hdel
    cases hdel
    exact ⟨hrooms, rfl, m, h, fun _ => Iff.rfl⟩

/-- Only the index changes. -/
theorem chatDelSidToCid_same (hdel : T.chatDelSidToCid sid cid = some T') :
    T'.rooms = T.rooms ∧ T'.sessions = T.sessions := by
  unfold ChatTab.chatDelSidToCid at hdel
  split at hdel
  · cases hdel
  · cases hdel
    exact ⟨rfl, rfl⟩
  · split at hdel
    · obtain ⟨p, -, heq⟩ := Option.map_eq_some_iff.1 hdel
      cases heq
      exact ⟨rfl, rfl⟩
    · cases hdel
      exact ⟨rfl, rfl⟩

/-- The session goes, after its entry of the index. -/
theorem chatDelSession_dom (h : SessionsOk len R S T.sessions m) (hrooms : RoomsIn len R T.rooms) (hk : (sid, cid) ∈ S)
    (hdel : T.chatDelSession sid cid = some T') :
    RoomsIn len R T'.rooms ∧ SessionsOk len R S T'.sessions (m.del (sid, cid)) ∧
      ∃ T₁, T.chatDelSidToCid sid cid = some T₁ ∧ T'.sid2cids = T₁.sid2cids := by
  unfold ChatTab.chatDelSession at hdel
  split at hdel
  · cases hdel
  rename_i T₁ hindex
  have hsame := chatDelSidToCid_same hindex
  rw [← hsame.2] at h
  rw [← hsame.1] at hrooms
  split at hdel
  · cases hdel
  obtain ⟨sessions', h', ⟨session, rooms, hdelSession, hkey, -, hok⟩ | ⟨hdelSession, hno⟩⟩ := h.delete hk
  · simp only [hdelSession] at hdel
    obtain ⟨rooms', htrav, heq⟩ := Option.map_eq_some_iff.1 hdel
    cases heq
    obtain ⟨items, hitems, hR, -⟩ := hok.trav
    unfold ChatTab.travDelSession at htrav
    rw [hitems] at htrav
    exact ⟨hrooms.delItems hR htrav, h', T₁, hindex, rfl⟩
  · simp only [hdelSession] at hdel
    cases hdel
    rw [Membership.del_of_none hno]
    exact ⟨hrooms, h, T', hindex, rfl⟩

end Sessions

end BeehiveIm.Chat
