/-
What each locked section of the Go chat table does to the sessions and to the rooms.
-/
import BeehiveIm.GoChat
import BeehiveIm.Chat.Membership

namespace BeehiveIm.GoChat

open BeehiveIm.Lib BeehiveIm.Chat

abbrev Rooms := Shards roomSlot ChatRoomItem
abbrev Sessions (π : Type) := Shards sessionSlot (ChatSessionItem π)

variable {π : Type} {rid : Rid} {gid : Gid} {key : ChatSessionKey}

/-! ## Sessions -/

/-- Which sessions there are, and in which rooms they are. -/
def view (sessions : Sessions π) : Membership ChatSessionKey Rid Gid :=
  fun key => (sessions.get key).map fun ssn rid => ssn.room.lookup rid

section
variable {sessions : Sessions π} {ssn : ChatSessionItem π} {tab : ChatTab π} {sid cid : BitVec 64}

theorem view_set : view (sessions.set key ssn) =
    Function.update (view sessions) key (some fun rid => ssn.room.lookup rid) := by
  funext key'
  rcases eq_or_ne key' key with rfl | hne
  · simp [view, Shards.get_set]
  · simp [view, Shards.get_set, hne]

theorem view_del : view (sessions.del key) = (view sessions).del key := by
  funext key'
  rcases eq_or_ne key' key with rfl | hne
  · simp [view, Shards.get_del, Membership.del]
  · simp [view, Shards.get_del, Membership.del, hne]

/-- A session is written back with the rooms it had. -/
theorem view_set_rooms (h : (sessions.get key).map (·.room) = some ssn.room) :
    view (sessions.set key ssn) = view sessions := by
  rw [view_set, Function.update_eq_self_iff]
  obtain ⟨ssn', hssn, hroom⟩ := Option.map_eq_some_iff.mp h
  simp [view, hssn, hroom]

theorem view_insert {room : AList fun _ : Rid => Gid} :
    (fun rid' => (room.insert rid gid).lookup rid') =
      Function.update (fun rid' => room.lookup rid') rid (some gid) := by
  funext rid'
  rw [lookup_insert, Function.update_apply]

theorem sessionJoinRoom_frame (tab : ChatTab π) (rid : Rid) (gid : Gid) (sid cid : BitVec 64) :
    (tab.sessionJoinRoom rid gid sid cid).1.rooms = tab.rooms ∧
    (tab.sessionJoinRoom rid gid sid cid).1.sid2cids = tab.sid2cids := by
  unfold ChatTab.sessionJoinRoom
  split
  · split
    · exact ⟨rfl, rfl⟩
    · split <;> exact ⟨rfl, rfl⟩
  · exact ⟨rfl, rfl⟩

/-- The session is in the room now, unless it was in another of its groups. -/
theorem sessionJoinRoom_spec (tab : ChatTab π) (rid : Rid) (gid : Gid) (sid cid : BitVec 64) :
    view (tab.sessionJoinRoom rid gid sid cid).1.sessions = (view tab.sessions).join (sid, cid) rid gid ∧
    ((tab.sessionJoinRoom rid gid sid cid).2 = 0 ∧
        (view (tab.sessionJoinRoom rid gid sid cid).1.sessions).lists (sid, cid) rid = some gid ∨
      (tab.sessionJoinRoom rid gid sid cid).2 = -1 ∧ (tab.sessionJoinRoom rid gid sid cid).1 = tab) := by
  unfold ChatTab.sessionJoinRoom
  split
  · rename_i ssn hssn
    split
    · rename_i hroom
      have hlists : (view tab.sessions).lists (sid, cid) rid = none := by simp [view, Membership.lists, hssn, hroom]
      have hview : view (tab.sessions.set (sid, cid) { ssn with room := ssn.room.insert rid gid }) =
          (view tab.sessions).join (sid, cid) rid gid := by
        rw [view_set, view_insert, Membership.join, hlists]
        simp [view, hssn]
      refine ⟨hview, .inl ⟨rfl, ?_⟩⟩
      rw [hview, Membership.lists_join, hlists]
      simp
    · rename_i gid' hroom
      have hlists : (view tab.sessions).lists (sid, cid) rid = some gid' := by
        simp [view, Membership.lists, hssn, hroom]
      rw [Membership.join_of_lists hlists]
      split
      · rename_i heq
        exact ⟨rfl, .inl ⟨rfl, heq ▸ hlists⟩⟩
      · exact ⟨rfl, .inr ⟨rfl, rfl⟩⟩
  · rename_i hssn
    have hlists : (view tab.sessions).lists (sid, cid) rid = none := by simp [view, Membership.lists, hssn]
    have hview : view (tab.sessions.set (sid, cid) ⟨sid, cid, AList.insert rid gid ∅, ∅, none⟩) =
        (view tab.sessions).join (sid, cid) rid gid := by
      rw [view_set, view_insert, Membership.join, hlists]
      simp [view, hssn]
    refine ⟨hview, .inl ⟨rfl, ?_⟩⟩
    rw [hview, Membership.lists_join, hlists]
    simp

theorem sessionQuitRoom_frame (tab : ChatTab π) (rid : Rid) (sid cid : BitVec 64) :
    (tab.sessionQuitRoom rid sid cid).1.rooms = tab.rooms ∧
    (tab.sessionQuitRoom rid sid cid).1.sid2cids = tab.sid2cids := by
  unfold ChatTab.sessionQuitRoom
  split
  · split <;> exact ⟨rfl, rfl⟩
  · exact ⟨rfl, rfl⟩

theorem sessionQuitRoom_spec (tab : ChatTab π) (rid : Rid) (sid cid : BitVec 64) :
    view (tab.sessionQuitRoom rid sid cid).1.sessions = (view tab.sessions).quit (sid, cid) rid ∧
    (tab.sessionQuitRoom rid sid cid).2 = (view tab.sessions).lists (sid, cid) rid := by
  unfold ChatTab.sessionQuitRoom
  split
  · rename_i ssn hssn
    have hlists : (view tab.sessions).lists (sid, cid) rid = ssn.room.lookup rid := by
      simp [view, Membership.lists, hssn]
    split
    · rename_i hroom
      exact ⟨(Membership.quit_of_not_lists (hlists.trans hroom)).symm, (hlists.trans hroom).symm⟩
    · rename_i gid hroom
      refine ⟨?_, (hlists.trans hroom).symm⟩
      have herase : (fun rid' => (ssn.room.erase rid).lookup rid') =
          Function.update (fun rid' => ssn.room.lookup rid') rid none := by
        funext rid'
        rw [lookup_erase, Function.update_apply]
      rw [view_set, herase, Membership.quit]
      simp [view, hssn]
  · rename_i hssn
    have hlists : (view tab.sessions).lists (sid, cid) rid = none := by simp [view, Membership.lists, hssn]
    exact ⟨(Membership.quit_of_not_lists hlists).symm, hlists.symm⟩

theorem mem_rooms {ssn : ChatSessionItem π} : (rid, gid) ∈ ssn.rooms ↔ ssn.room.lookup rid = some gid := by
  simp only [ChatSessionItem.rooms, List.mem_map, Prod.mk.injEq]
  constructor
  · rintro ⟨⟨r, g⟩, he, rfl, rfl⟩
    exact mem_entries.mp he
  · intro h
    exact ⟨⟨rid, gid⟩, mem_entries.mpr h, rfl, rfl⟩

theorem sessionTake_frame (tab : ChatTab π) (sid cid : BitVec 64) : (tab.sessionTake sid cid).1.rooms = tab.rooms ∧
    (tab.sessionTake sid cid).1.sid2cids = tab.sid2cids := by
  unfold ChatTab.sessionTake
  split <;> exact ⟨rfl, rfl⟩

/-- The session is gone; its rooms are those it was in. -/
theorem sessionTake_spec (tab : ChatTab π) (sid cid : BitVec 64) :
    view (tab.sessionTake sid cid).1.sessions = (view tab.sessions).del (sid, cid) ∧
    ∀ rid gid, (∃ ssn, (tab.sessionTake sid cid).2 = some ssn ∧ (rid, gid) ∈ ssn.rooms) ↔
      (view tab.sessions).lists (sid, cid) rid = some gid := by
  unfold ChatTab.sessionTake
  split
  · rename_i hssn
    refine ⟨(Membership.del_of_none ?_).symm, fun rid gid => ?_⟩
    · simp [view, hssn]
    · simp [view, Membership.lists, hssn]
  · rename_i ssn hssn
    exact ⟨view_del, fun rid gid => by simp [view, Membership.lists, hssn, mem_rooms]⟩

theorem sessionSetParam_view (tab : ChatTab π) (sid cid : BitVec 64) (param : Option π) :
    view (tab.sessionSetParam sid cid param).1.sessions = (view tab.sessions).enter (sid, cid) := by
  unfold ChatTab.sessionSetParam
  split
  · rename_i ssn hssn
    rw [Membership.enter, eq_comm, Function.update_eq_self_iff]
    simp [view, hssn]
  · rename_i hssn
    rw [view_set, Membership.enter]
    simp [view, hssn]

theorem subAdd_view {cmd : BitVec 32} : view (tab.subAdd sid cid cmd).1.sessions = view tab.sessions := by
  unfold ChatTab.subAdd
  split
  · rfl
  · rename_i ssn hssn
    exact view_set_rooms (by rw [hssn]; rfl)

theorem subDel_view {cmd : BitVec 32} : view (tab.subDel sid cid cmd).1.sessions = view tab.sessions := by
  unfold ChatTab.subDel
  split
  · rfl
  · rename_i ssn hssn
    exact view_set_rooms (by rw [hssn]; rfl)

end

/-! ## Rooms -/

/-- The members of each group of the room are `N`, and the room counts them. -/
structure ChatRoomItem.Holds (room : ChatRoomItem) (N : Gid → ChatSessionKey → Prop) : Prop where
  mem : ∀ gid key, N gid key ↔ ∃ group, room.groups.get gid = some group ∧ key ∈ group.sidList
  groupNum : ∀ gid group, room.groups.get gid = some group → group.sidNum = group.sidList.card
  sidNum : room.sidNum = room.groups.sum (·.sidList.card)

/-- The members of each group of each room are `M`, and the rooms count them. -/
structure Holds (rooms : Rooms) (M : Rid → Gid → ChatSessionKey → Prop) : Prop where
  room : ∀ rid room, rooms.get rid = some room → room.Holds (M rid)
  absent : ∀ rid gid key, M rid gid key → (rooms.get rid).isSome

namespace ChatRoomItem.Holds

variable {room : ChatRoomItem} {group group' : ChatGroupItem} {N N' : Gid → ChatSessionKey → Prop}

theorem empty (rid : Rid) (hN : ∀ gid key, ¬N gid key) : ChatRoomItem.Holds ⟨rid, 0, .empty _ _⟩ N where
  mem gid key := by simp [hN]
  groupNum := by simp
  sidNum := by simp [Shards.sum_empty]

/-- A group is written, with the members `N'` has for it. -/
theorem put (h : room.Holds N) {sidNum : Int} (hgroup : group'.sidNum = group'.sidList.card)
    (hsidNum : sidNum + ((room.groups.get gid).elim 0 fun group => group.sidList.card : Nat) =
      room.sidNum + group'.sidList.card)
    (hmem : ∀ key, N' gid key ↔ key ∈ group'.sidList) (hrest : ∀ g ≠ gid, ∀ key, N' g key ↔ N g key) :
    (room.put sidNum gid group').Holds N' where
  mem g key := by
    simp only [ChatRoomItem.put, Shards.get_set]
    rcases eq_or_ne g gid with rfl | hne
    · simpa using hmem key
    · rw [if_neg hne, hrest g hne, h.mem]
  groupNum g group hg := by
    simp only [ChatRoomItem.put, Shards.get_set] at hg
    split at hg
    · obtain rfl := Option.some.inj hg
      exact hgroup
    · exact h.groupNum g group hg
  sidNum := by
    have hsum := Shards.sum_set (S := room.groups) (k := gid) (v := group') fun group => group.sidList.card
    have := h.sidNum
    simp only [ChatRoomItem.put]
    omega

theorem groupAdd (h : room.Holds N) (hg : room.groups.get gid = none) :
    (room.put room.sidNum gid ⟨gid, 0, ∅⟩).Holds N := by
  refine h.put (by simp) (by simp [hg]) (fun key => ?_) fun _ _ _ => .rfl
  rw [h.mem, hg]
  simp

theorem groupJoin (h : room.Holds N) (hg : room.groups.get gid = some group) (hk : key ∉ group.sidList) :
    (room.put (room.sidNum + 1) gid ⟨group.gid, group.sidNum + 1, insert key group.sidList⟩).Holds
      fun g k => N g k ∨ g = gid ∧ k = key := by
  have hcard := Finset.card_insert_of_notMem hk
  refine h.put ?_ ?_ (fun k => ?_) fun g hne k => ?_
  · have := h.groupNum gid group hg
    simp only [hcard]
    omega
  · simp only [hg, hcard, Option.elim_some]
    omega
  · rw [h.mem, hg, Finset.mem_insert]
    simp [or_comm]
  · simp [hne]

theorem delSession (h : room.Holds N) (hg : room.groups.get gid = some group) (hk : key ∈ group.sidList) :
    (room.put (room.sidNum - 1) gid ⟨group.gid, group.sidNum - 1, group.sidList.erase key⟩).Holds
      fun g k => N g k ∧ ¬(g = gid ∧ k = key) := by
  have hcard := Finset.card_erase_add_one hk
  refine h.put ?_ ?_ (fun k => ?_) fun g hne k => ?_
  · have := h.groupNum gid group hg
    simp only
    omega
  · simp only [hg, Option.elim_some]
    omega
  · rw [h.mem, hg, Finset.mem_erase]
    simp [and_comm]
  · simp [hne]

/-- A room that counts no session has none. -/
theorem eq_false (h : room.Holds N) (h0 : room.sidNum = 0) : ¬N gid key := by
  rw [h.mem]
  rintro ⟨group, hg, hk⟩
  have hsum : room.groups.sum (·.sidList.card) = 0 := by
    have := h.sidNum
    omega
  have hcard := Shards.sum_eq_zero.mp hsum gid group hg
  rw [Finset.card_eq_zero] at hcard
  simp [hcard] at hk

end ChatRoomItem.Holds

namespace Holds

variable {tab : ChatTab π} {rooms : Rooms} {room room' : ChatRoomItem} {M M' : Rid → Gid → ChatSessionKey → Prop}
  {sid cid : BitVec 64}

theorem init : Holds (ChatTab.init π).rooms fun _ _ _ => False :=
  ⟨fun _ _ h => by simp [ChatTab.init] at h, fun _ _ _ h => h.elim⟩

theorem congr (h : Holds rooms M) (hM : ∀ rid gid key, M' rid gid key ↔ M rid gid key) : Holds rooms M' := by
  obtain rfl : M' = M := by
    funext rid gid key
    exact propext (hM rid gid key)
  exact h

theorem not_mem (h : Holds rooms M) (hr : rooms.get rid = none) : ¬M rid gid key := by
  intro hm
  have := h.absent rid gid key hm
  simp [hr] at this

theorem mem (h : Holds rooms M) : M rid gid key ↔
    ∃ room group, rooms.get rid = some room ∧ room.groups.get gid = some group ∧ key ∈ group.sidList := by
  constructor
  · intro hm
    obtain ⟨room, hroom⟩ := Option.isSome_iff_exists.mp (h.absent _ _ _ hm)
    obtain ⟨group, hgroup, hk⟩ := ((h.room rid room hroom).mem gid key).mp hm
    exact ⟨room, group, hroom, hgroup, hk⟩
  · rintro ⟨room, group, hroom, hgroup, hk⟩
    exact ((h.room rid room hroom).mem gid key).mpr ⟨group, hgroup, hk⟩

/-- A room is written, with the members `M'` has for it. -/
theorem set (h : Holds rooms M) (hroom : room'.Holds (M' rid)) (hrest : ∀ r ≠ rid, ∀ g k, M' r g k ↔ M r g k) :
    Holds (rooms.set rid room') M' := by
  refine ⟨fun r room hr => ?_, fun r g k hm => ?_⟩ <;> rw [Shards.get_set] at * <;> split at *
  · rename_i heq
    obtain rfl := Option.some.inj hr
    rwa [heq]
  · rename_i hne
    have hM : M' r = M r := by
      funext g k
      exact propext (hrest r hne g k)
    rw [hM]
    exact h.room r room hr
  · rfl
  · rename_i hne
    exact h.absent r g k ((hrest r hne g k).mp hm)

theorem roomAdd (h : Holds tab.rooms M) (rid : Rid) : Holds (tab.roomAdd rid).rooms M := by
  unfold ChatTab.roomAdd
  split
  · rename_i hnone
    exact h.set (.empty rid fun _ _ => h.not_mem hnone) fun _ _ _ _ => .rfl
  · exact h

theorem groupAdd (h : Holds tab.rooms M) (rid : Rid) (gid : Gid) : Holds (tab.groupAdd rid gid).rooms M := by
  unfold ChatTab.groupAdd
  split
  · exact h
  · rename_i room hroom
    split
    · rename_i hgroup
      exact h.set ((h.room rid room hroom).groupAdd hgroup) fun _ _ _ _ => .rfl
    · exact h

theorem groupJoin (h : Holds tab.rooms M) (key : ChatSessionKey) (hq : (tab.groupQuery rid gid).isSome) :
    Holds (tab.groupJoin rid gid key).rooms fun r g k => M r g k ∨ r = rid ∧ g = gid ∧ k = key := by
  obtain ⟨group, hq⟩ := Option.isSome_iff_exists.mp hq
  obtain ⟨room, hroom, hgroup⟩ := Option.bind_eq_some_iff.mp hq
  simp only [ChatTab.groupJoin, hroom, hgroup]
  split
  · rename_i hk
    refine h.congr fun r g k => ⟨fun hm => ?_, .inl⟩
    rcases hm with hm | ⟨rfl, rfl, rfl⟩
    · exact hm
    · exact h.mem.mpr ⟨room, group, hroom, hgroup, hk⟩
  · rename_i hk
    refine h.set ?_ fun r hne g k => by simp [hne]
    simpa using (h.room rid room hroom).groupJoin hgroup hk

theorem delSession (h : Holds tab.rooms M) (rid : Rid) (gid : Gid) (sid cid : BitVec 64) :
    Holds (tab.roomDelSession rid gid sid cid).rooms
    fun r g k => M r g k ∧ ¬(r = rid ∧ g = gid ∧ k = (sid, cid)) := by
  have hstay (hm : ¬M rid gid (sid, cid)) : Holds tab.rooms
      fun r g k => M r g k ∧ ¬(r = rid ∧ g = gid ∧ k = (sid, cid)) := by
    refine h.congr fun r g k => ⟨And.left, fun hrgk => ⟨hrgk, ?_⟩⟩
    rintro ⟨rfl, rfl, rfl⟩
    exact hm hrgk
  unfold ChatTab.roomDelSession
  split
  · rename_i hroom
    exact hstay (h.not_mem hroom)
  · rename_i room hroom
    have hN := h.room rid room hroom
    split
    · rename_i hgroup
      refine hstay fun hm => ?_
      simp [hN.mem, hgroup] at hm
    · rename_i group hgroup
      split
      · rename_i hk
        refine h.set ?_ fun r hne g k => by simp [hne]
        simpa using hN.delSession hgroup hk
      · rename_i hk
        refine hstay fun hm => hk ?_
        simpa [hN.mem, hgroup] using hm

/-- Only rooms without a session are cleaned. -/
theorem roomClean (h : Holds tab.rooms M) (rid : Rid) : Holds (tab.roomClean rid).rooms M := by
  unfold ChatTab.roomClean
  split
  · exact h
  · rename_i room hroom
    split
    · exact h
    · rename_i h0
      refine ⟨fun r room' hr => ?_, fun r g k hm => ?_⟩
      · rw [Shards.get_del] at hr
        split at hr
        · cases hr
        · exact h.room r room' hr
      · rw [Shards.get_del]
        split
        · rename_i heq
          rw [heq] at hm
          exact absurd hm ((h.room rid room hroom).eq_false (not_not.mp h0))
        · exact h.absent r g k hm

end Holds

/-! ## What the sections on rooms leave alone -/

/-- Sessions and the index are the same. -/
def SameSessions (tab tab' : ChatTab π) : Prop := tab'.sessions = tab.sessions ∧ tab'.sid2cids = tab.sid2cids

section
variable {tab tab' tab'' : ChatTab π} {sid cid : BitVec 64}

theorem SameSessions.refl (tab : ChatTab π) : SameSessions tab tab := ⟨rfl, rfl⟩

theorem SameSessions.trans (h : SameSessions tab tab') (h' : SameSessions tab' tab'') : SameSessions tab tab'' :=
  ⟨h'.1.trans h.1, h'.2.trans h.2⟩

theorem roomAdd_same (tab : ChatTab π) (rid : Rid) : SameSessions tab (tab.roomAdd rid) := by
  unfold ChatTab.roomAdd
  split <;> exact ⟨rfl, rfl⟩

theorem groupAdd_same (tab : ChatTab π) (rid : Rid) (gid : Gid) : SameSessions tab (tab.groupAdd rid gid) := by
  unfold ChatTab.groupAdd
  split
  · exact .refl _
  · split <;> exact ⟨rfl, rfl⟩

theorem groupJoin_same (tab : ChatTab π) (rid : Rid) (gid : Gid) (key : ChatSessionKey) :
    SameSessions tab (tab.groupJoin rid gid key) := by
  unfold ChatTab.groupJoin
  split
  · exact .refl _
  · split
    · exact .refl _
    · split <;> exact ⟨rfl, rfl⟩

theorem roomDelSession_same (tab : ChatTab π) (rid : Rid) (gid : Gid) (sid cid : BitVec 64) :
    SameSessions tab (tab.roomDelSession rid gid sid cid) := by
  unfold ChatTab.roomDelSession
  split
  · exact .refl _
  · split
    · exact .refl _
    · split <;> exact ⟨rfl, rfl⟩

theorem roomClean_same (tab : ChatTab π) (rid : Rid) : SameSessions tab (tab.roomClean rid) := by
  unfold ChatTab.roomClean
  split
  · exact .refl _
  · split <;> exact ⟨rfl, rfl⟩

theorem roomQuery_roomAdd (tab : ChatTab π) (rid : Rid) : ((tab.roomAdd rid).roomQuery rid).isSome := by
  unfold ChatTab.roomAdd ChatTab.roomQuery
  split
  · simp [Shards.get_set]
  · rename_i room hroom
    simp [hroom]

theorem groupQuery_groupAdd (gid : Gid) (h : (tab.roomQuery rid).isSome) :
    ((tab.groupAdd rid gid).groupQuery rid gid).isSome := by
  obtain ⟨room, hroom⟩ := Option.isSome_iff_exists.mp h
  unfold ChatTab.roomQuery at hroom
  unfold ChatTab.groupAdd ChatTab.groupQuery
  simp only [hroom]
  split
  · simp [Shards.get_set, ChatRoomItem.put]
  · rename_i group hgroup
    simp [hroom, hgroup]

end

end BeehiveIm.GoChat
