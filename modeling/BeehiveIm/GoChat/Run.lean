/-
Whole runs of the Go chat table. Sessions and rooms list each other, the rooms count their members,
and the table refines `Membership`.
-/
import BeehiveIm.GoChat.Sections
import BeehiveIm.Lib.Run

namespace BeehiveIm.GoChat

open BeehiveIm.Lib BeehiveIm.Chat

namespace ChatTab

variable {π : Type} {tab : ChatTab π} {rid : Rid} {gid : Gid} {sid cid : BitVec 64}

/-! ## The invariant -/

structure Consistent (tab : ChatTab π) : Prop where
  lists_iff : ∀ sid cid rid gid,
    (∃ ssn, tab.sessions.get (sid, cid) = some ssn ∧ ssn.room.lookup rid = some gid) ↔
      ∃ room group, tab.rooms.get rid = some room ∧ room.groups.get gid = some group ∧ (sid, cid) ∈ group.sidList
  groupNum : ∀ rid room gid group, tab.rooms.get rid = some room → room.groups.get gid = some group →
    group.sidNum = group.sidList.card
  sidNum : ∀ rid room, tab.rooms.get rid = some room → room.sidNum = room.groups.sum (·.sidList.card)
  index : ∀ sid cid, tab.sid2cids.get sid = some cid → (tab.sessions.get (sid, cid)).isSome

/-- The members a table of `m` has. -/
def Listed (m : Membership ChatSessionKey Rid Gid) : Rid → Gid → ChatSessionKey → Prop :=
  fun rid gid key => m.lists key rid = some gid

/-- The table shows `m`, in its sessions and in its rooms. -/
structure Shows (tab : ChatTab π) (m : Membership ChatSessionKey Rid Gid) : Prop where
  view : view tab.sessions = m
  holds : Holds tab.rooms (Listed m)
  index : ∀ sid cid, tab.sid2cids.get sid = some cid → (m (sid, cid)).isSome

theorem lists_view : (GoChat.view tab.sessions).lists (sid, cid) rid = some gid ↔
    ∃ ssn, tab.sessions.get (sid, cid) = some ssn ∧ ssn.room.lookup rid = some gid := by
  simp [Membership.lists, GoChat.view, Option.bind_eq_some_iff]

theorem consistent_iff : tab.Consistent ↔ tab.Shows (GoChat.view tab.sessions) := by
  constructor
  · intro h
    refine ⟨rfl, ⟨fun rid room hroom => ⟨fun gid key => ?_, fun gid group => h.groupNum rid room gid group hroom,
      h.sidNum rid room hroom⟩, fun rid gid key hm => ?_⟩, fun sid cid hcid => ?_⟩
    · rw [Listed, lists_view, h.lists_iff]
      simp [hroom]
    · obtain ⟨room, group, hroom, -⟩ := (h.lists_iff ..).mp (lists_view.mp hm)
      rw [hroom]
      rfl
    · simpa [GoChat.view] using h.index sid cid hcid
  · intro h
    refine ⟨fun sid cid rid gid => ?_, fun rid room gid group hroom => (h.holds.room rid room hroom).groupNum gid group,
      fun rid room hroom => (h.holds.room rid room hroom).sidNum, fun sid cid hcid => ?_⟩
    · rw [← lists_view, ← h.holds.mem]
      rfl
    · simpa [GoChat.view] using h.index sid cid hcid

theorem init_shows : (init π).Shows fun _ => none :=
  ⟨rfl, Holds.init.congr fun _ _ _ => by simp [Listed, Membership.lists], fun sid cid h => by simp [init] at h⟩

/-- A traversal hands over the members of the group, or of all groups. -/
theorem Shows.mem_travRoomSession {m : Membership ChatSessionKey Rid Gid} (h : tab.Shows m) (rid : Rid) (gid : Gid)
    (key : ChatSessionKey) :
    key ∈ tab.travRoomSession rid gid ↔ ∃ g, (gid = 0 ∨ g = gid) ∧ m.lists key rid = some g := by
  unfold ChatTab.travRoomSession
  split
  · rename_i hroom
    simp only [Finset.notMem_empty, false_iff]
    rintro ⟨g, -, hl⟩
    have := h.holds.absent rid g key hl
    rw [hroom] at this
    cases this
  · rename_i room hroom
    have hmem := (h.holds.room rid room hroom).mem
    split
    · rename_i hgid
      have hall : ∀ l : List (Gid × ChatGroupItem),
          key ∈ l.foldr (fun e keys => e.2.sidList ∪ keys) ∅ ↔ ∃ e ∈ l, key ∈ e.2.sidList := by
        intro l
        induction l with
        | nil => simp
        | cons e l ih => simp [ih]
      rw [hall]
      constructor
      · rintro ⟨⟨g, group⟩, he, hkey⟩
        exact ⟨g, .inl hgid, (hmem g key).mpr ⟨group, Shards.mem_toList.mp he, hkey⟩⟩
      · rintro ⟨g, -, hl⟩
        obtain ⟨group, hgroup, hkey⟩ := (hmem g key).mp hl
        exact ⟨(g, group), Shards.mem_toList.mpr hgroup, hkey⟩
    · rename_i hgid
      simp only [hgid, false_or, exists_eq_left]
      rw [show m.lists key rid = some gid ↔ _ from hmem gid key]
      split
      · rename_i hgroup
        simp [hgroup]
      · rename_i group hgroup
        simp [hgroup]

/-! ## Operations -/

variable {m : Membership ChatSessionKey Rid Gid}

theorem Shows.of_same {tab' : ChatTab π} (h : tab.Shows m) (hsame : SameSessions tab tab')
    (hholds : Holds tab'.rooms (Listed m)) : tab'.Shows m :=
  ⟨by rw [hsame.1]; exact h.view, hholds, by rw [hsame.2]; exact h.index⟩

theorem Shows.roomJoin (h : tab.Shows m) (rid : Rid) (gid : Gid) (sid cid : BitVec 64) :
    ∃ tab' ret, tab.roomJoin rid gid sid cid = some (tab', ret) ∧ tab'.Shows (m.join (sid, cid) rid gid) := by
  obtain ⟨hview, hret⟩ := sessionJoinRoom_spec tab rid gid sid cid
  obtain ⟨hrooms, hcids⟩ := sessionJoinRoom_frame tab rid gid sid cid
  unfold ChatTab.roomJoin
  rcases htab₁ : tab.sessionJoinRoom rid gid sid cid with ⟨tab₁, ret⟩
  rw [htab₁] at hview hret hrooms hcids
  rw [h.view] at hview
  have hindex : ∀ sid' cid', tab₁.sid2cids.get sid' = some cid' → (m.join (sid, cid) rid gid (sid', cid')).isSome := by
    intro sid' cid' hcid
    rw [hcids] at hcid
    exact Membership.isSome_join _ (h.index sid' cid' hcid)
  rcases hret with ⟨rfl, hlists⟩ | ⟨rfl, rfl⟩
  · obtain ⟨room, hroom⟩ := Option.isSome_iff_exists.mp (roomQuery_roomAdd tab₁ rid)
    have hsome := groupQuery_groupAdd gid (Option.isSome_of_eq_some hroom)
    obtain ⟨group, hgroup⟩ := Option.isSome_iff_exists.mp hsome
    refine ⟨_, 0, by simp only [hroom, hgroup]; rfl, ?_⟩
    have hsame₁ : SameSessions tab₁ ((tab₁.roomAdd rid).groupAdd rid gid) :=
      (roomAdd_same tab₁ rid).trans (groupAdd_same _ rid gid)
    have hsame := hsame₁.trans (groupJoin_same _ rid gid (sid, cid))
    have hholds : Holds tab₁.rooms (Listed m) := hrooms ▸ h.holds
    refine ⟨by rw [hsame.1]; exact hview, ?_, by rw [hsame.2]; exact hindex⟩
    exact (((hholds.roomAdd rid).groupAdd rid gid).groupJoin (sid, cid) hsome).congr
      fun _ _ _ => Membership.lists_join_iff (hview ▸ hlists)
  · refine ⟨_, -1, rfl, hview, ?_, hindex⟩
    rw [← hview, h.view]
    exact h.holds

theorem Shows.roomQuit (h : tab.Shows m) (rid : Rid) (sid cid : BitVec 64) :
    (tab.roomQuit rid sid cid).1.Shows (m.quit (sid, cid) rid) := by
  obtain ⟨hview, hgid⟩ := sessionQuitRoom_spec tab rid sid cid
  obtain ⟨hrooms, hcids⟩ := sessionQuitRoom_frame tab rid sid cid
  unfold ChatTab.roomQuit
  rcases htab₁ : tab.sessionQuitRoom rid sid cid with ⟨tab₁, gid⟩
  rw [htab₁] at hview hgid hrooms hcids
  rw [h.view] at hview hgid
  have hindex : ∀ sid' cid', tab₁.sid2cids.get sid' = some cid' → (m.quit (sid, cid) rid (sid', cid')).isSome := by
    intro sid' cid' hcid
    rw [hcids] at hcid
    exact Membership.isSome_quit _ (h.index sid' cid' hcid)
  have hholds : Holds tab₁.rooms (Listed m) := hrooms ▸ h.holds
  cases gid with
  | none =>
    rw [Membership.quit_of_not_lists hgid.symm] at hview hindex ⊢
    exact ⟨hview, hholds, hindex⟩
  | some gid =>
    have hsame := roomDelSession_same tab₁ rid gid sid cid
    refine ⟨by rw [hsame.1]; exact hview, ?_, by rw [hsame.2]; exact hindex⟩
    exact (hholds.delSession rid gid sid cid).congr fun _ _ _ => Membership.lists_quit_iff hgid.symm

theorem delSessions_same (sid cid : BitVec 64) : ∀ (rooms : List (Rid × Gid)) (tab : ChatTab π),
    SameSessions tab (rooms.foldl (fun tab (rid, gid) => tab.roomDelSession rid gid sid cid) tab)
  | [], tab => .refl tab
  | (rid, gid) :: rooms, tab => (roomDelSession_same tab rid gid sid cid).trans (delSessions_same sid cid rooms _)

/-- The loop of `SessionDel` takes away the members it visits. -/
theorem delSessions_holds (sid cid : BitVec 64) {M : Rid → Gid → ChatSessionKey → Prop} :
    ∀ (rooms : List (Rid × Gid)) {tab : ChatTab π}, Holds tab.rooms M →
      Holds (rooms.foldl (fun tab (rid, gid) => tab.roomDelSession rid gid sid cid) tab).rooms
        fun r g k => M r g k ∧ ¬((r, g) ∈ rooms ∧ k = (sid, cid))
  | [], tab, h => h.congr fun _ _ _ => by simp
  | (rid, gid) :: rooms, tab, h => by
    have hholds := delSessions_holds sid cid rooms (h.delSession rid gid sid cid)
    refine hholds.congr fun r g k => ?_
    simp only [List.mem_cons, Prod.mk.injEq]
    tauto

theorem sid2cidDel_spec (tab : ChatTab π) (sid cid : BitVec 64) :
    (tab.sid2cidDel sid cid).rooms = tab.rooms ∧ (tab.sid2cidDel sid cid).sessions = tab.sessions ∧
    ∀ sid' cid', (tab.sid2cidDel sid cid).sid2cids.get sid' = some cid' →
      tab.sid2cids.get sid' = some cid' ∧ (sid', cid') ≠ (sid, cid) := by
  have hne : ∀ sid' cid', tab.sid2cids.get sid ≠ some cid → tab.sid2cids.get sid' = some cid' →
      (sid', cid') ≠ (sid, cid) := by
    rintro sid' cid' hcid h heq
    obtain ⟨rfl, rfl⟩ := Prod.mk.inj heq
    exact hcid h
  unfold ChatTab.sid2cidDel
  split
  · rename_i hnone
    exact ⟨rfl, rfl, fun sid' cid' h => ⟨h, hne sid' cid' (by simp [hnone]) h⟩⟩
  · rename_i cid₁ hcid₁
    split
    · refine ⟨rfl, rfl, fun sid' cid' h => ?_⟩
      rw [Shards.get_del] at h
      split at h
      · cases h
      · rename_i hsid
        exact ⟨h, fun heq => hsid (Prod.mk.inj heq).1⟩
    · rename_i hcid
      exact ⟨rfl, rfl, fun sid' cid' h => ⟨h, hne sid' cid' (by simpa [hcid₁] using hcid) h⟩⟩

theorem Shows.sessionDel (h : tab.Shows m) (sid cid : BitVec 64) (order : List (Rid × Gid)) :
    (tab.sessionDel sid cid order).1.Shows (m.del (sid, cid)) := by
  obtain ⟨hrooms₀, hsessions₀, hcids₀⟩ := sid2cidDel_spec tab sid cid
  obtain ⟨hview, hssn⟩ := sessionTake_spec (tab.sid2cidDel sid cid) sid cid
  obtain ⟨hrooms, hcids⟩ := sessionTake_frame (tab.sid2cidDel sid cid) sid cid
  unfold ChatTab.sessionDel
  rcases htab₁ : (tab.sid2cidDel sid cid).sessionTake sid cid with ⟨tab₁, ssn⟩
  rw [htab₁] at hview hssn hrooms hcids
  rw [hsessions₀, h.view] at hview hssn
  have hindex : ∀ sid' cid', tab₁.sid2cids.get sid' = some cid' → (m.del (sid, cid) (sid', cid')).isSome := by
    intro sid' cid' hcid
    rw [hcids] at hcid
    obtain ⟨hget, hne⟩ := hcids₀ sid' cid' hcid
    exact Membership.isSome_del hne (h.index sid' cid' hget)
  have hholds : Holds tab₁.rooms (Listed m) := by
    rw [hrooms, hrooms₀]
    exact h.holds
  -- the session was listed in the rooms `ssn` has, and in no other
  have hdel (rooms : List (Rid × Gid)) (hmem : ∀ r g, (r, g) ∈ rooms ↔ m.lists (sid, cid) r = some g) (r : Rid)
      (g : Gid) (k : ChatSessionKey) :
      Listed (m.del (sid, cid)) r g k ↔ Listed m r g k ∧ ¬((r, g) ∈ rooms ∧ k = (sid, cid)) := by
    simp only [Listed, Membership.lists_del, hmem]
    by_cases hk : k = (sid, cid)
    · simp [hk]
    · simp [hk]
  cases ssn with
  | none =>
    refine ⟨hview, hholds.congr fun r g k => ?_, hindex⟩
    rw [hdel [] (by simpa using hssn)]
    simp
  | some ssn =>
    have hsame := delSessions_same sid cid (ranged order ssn.rooms) tab₁
    have hholds' := delSessions_holds sid cid (ranged order ssn.rooms) hholds
    refine ⟨by rw [hsame.1]; exact hview, hholds'.congr (hdel _ fun r g => ?_), by rw [hsame.2]; exact hindex⟩
    rw [(ranged_perm order ssn.rooms).mem_iff]
    simpa using hssn r g

theorem Shows.sessionSetParam (h : tab.Shows m) (sid cid : BitVec 64) (param : Option π) :
    (tab.sessionSetParam sid cid param).1.Shows (m.enter (sid, cid)) := by
  have hview := sessionSetParam_view tab sid cid param
  have hframe : (tab.sessionSetParam sid cid param).1.rooms = tab.rooms ∧
      (tab.sessionSetParam sid cid param).1.sid2cids = tab.sid2cids := by
    unfold ChatTab.sessionSetParam
    split <;> exact ⟨rfl, rfl⟩
  rw [h.view] at hview
  refine ⟨hview, ?_, fun sid' cid' hcid => ?_⟩
  · rw [hframe.1]
    exact h.holds.congr fun r g k => by rw [Listed, Listed, Membership.lists_enter]
  · rw [hframe.2] at hcid
    exact Membership.isSome_enter _ (h.index sid' cid' hcid)

theorem Shows.subAdd (h : tab.Shows m) (sid cid : BitVec 64) (cmd : BitVec 32) :
    (tab.subAdd sid cid cmd).1.Shows m := by
  have hframe : (tab.subAdd sid cid cmd).1.rooms = tab.rooms ∧ (tab.subAdd sid cid cmd).1.sid2cids = tab.sid2cids := by
    unfold ChatTab.subAdd
    split <;> exact ⟨rfl, rfl⟩
  exact ⟨subAdd_view.trans h.view, hframe.1 ▸ h.holds, hframe.2 ▸ h.index⟩

theorem Shows.subDel (h : tab.Shows m) (sid cid : BitVec 64) (cmd : BitVec 32) :
    (tab.subDel sid cid cmd).1.Shows m := by
  have hframe : (tab.subDel sid cid cmd).1.rooms = tab.rooms ∧ (tab.subDel sid cid cmd).1.sid2cids = tab.sid2cids := by
    unfold ChatTab.subDel
    split <;> exact ⟨rfl, rfl⟩
  exact ⟨subDel_view.trans h.view, hframe.1 ▸ h.holds, hframe.2 ▸ h.index⟩

theorem Shows.clean (h : tab.Shows m) (order : List Rid) : (tab.clean order).1.Shows m := by
  have hloop : ∀ (rids : List Rid) {tab : ChatTab π}, tab.Shows m → (rids.foldl ChatTab.roomClean tab).Shows m := by
    intro rids
    induction rids with
    | nil => exact fun h => h
    | cons rid rids ih => exact fun h => ih (h.of_same (roomClean_same _ rid) (h.holds.roomClean rid))
  exact hloop _ h

/-! ## Runs -/

/-- What an operation does to the membership. -/
def Op.apply (m : Membership ChatSessionKey Rid Gid) : Op π → Membership ChatSessionKey Rid Gid
  | .roomJoin rid gid sid cid => m.join (sid, cid) rid gid
  | .roomQuit rid sid cid => m.quit (sid, cid) rid
  | .sessionSetParam sid cid _ => m.enter (sid, cid)
  | .subAdd _ _ _ | .subDel _ _ _ | .clean _ => m
  | .sessionDel sid cid _ => m.del (sid, cid)

theorem Shows.step (h : tab.Shows m) (op : Op π) : ∃ tab', tab.step op = some tab' ∧ tab'.Shows (op.apply m) := by
  cases op with
  | roomJoin rid gid sid cid =>
    obtain ⟨tab', ret, hjoin, h'⟩ := h.roomJoin rid gid sid cid
    exact ⟨tab', by rw [ChatTab.step, hjoin]; rfl, h'⟩
  | roomQuit rid sid cid => exact ⟨_, rfl, h.roomQuit rid sid cid⟩
  | sessionSetParam sid cid param => exact ⟨_, rfl, h.sessionSetParam sid cid param⟩
  | subAdd sid cid cmd => exact ⟨_, rfl, h.subAdd sid cid cmd⟩
  | subDel sid cid cmd => exact ⟨_, rfl, h.subDel sid cid cmd⟩
  | sessionDel sid cid order => exact ⟨_, rfl, h.sessionDel sid cid order⟩
  | clean order => exact ⟨_, rfl, h.clean order⟩

/-- A run of the table is one of its membership. -/
theorem Shows.run (h : tab.Shows m) (ops : List (Op π)) :
    ∃ tab', ops.foldlM ChatTab.step tab = some tab' ∧ tab'.Shows (ops.foldl Op.apply m) :=
  simulate (fun _ _ op h (_ : True) => h.step op) ops tab m h (guarded_true ops m)

end ChatTab

/-- Every run from the start, and every run from a consistent table, ends in a consistent table. -/
theorem chatTab_run_consistent {π : Type} (ops : List (ChatTab.Op π)) :
    (∃ tab, ops.foldlM ChatTab.step (ChatTab.init π) = some tab ∧ tab.Consistent) ∧
    ∀ tab₀ : ChatTab π, tab₀.Consistent → ∃ tab, ops.foldlM ChatTab.step tab₀ = some tab ∧ tab.Consistent := by
  have hrun : ∀ (tab₀ : ChatTab π) (m : Membership ChatSessionKey Rid Gid), tab₀.Shows m →
      ∃ tab, ops.foldlM ChatTab.step tab₀ = some tab ∧ tab.Consistent := by
    intro tab₀ m h
    obtain ⟨tab, htab, hshows⟩ := h.run ops
    exact ⟨tab, htab, ChatTab.consistent_iff.mpr (hshows.view ▸ hshows)⟩
  exact ⟨hrun _ _ ChatTab.init_shows, fun tab₀ h => hrun _ _ (ChatTab.consistent_iff.mp h)⟩

/-- A table with one session, which the index knows. -/
def oneSession : ChatTab Unit :=
  { ((ChatTab.init Unit).sessionSetParam 1 2 none).1 with sid2cids := (Shards.empty _ _).set 1 2 }

theorem oneSession_consistent : oneSession.Consistent := by
  have h := ChatTab.Shows.sessionSetParam (π := Unit) ChatTab.init_shows 1 2 none
  have hshows : oneSession.Shows (Membership.enter (fun _ => none) (1, 2)) := by
    refine ⟨h.view, h.holds, fun sid cid hcid => ?_⟩
    simp only [oneSession, Shards.get_set, Shards.get_empty, Option.ite_none_right_eq_some, Option.some.injEq] at hcid
    obtain ⟨rfl, rfl⟩ := hcid
    rfl
  exact ChatTab.consistent_iff.mpr (hshows.view ▸ hshows)

theorem chatTab_run_consistent_indexed :
    ∃ tab, [.roomJoin 7 0 1 2, .subAdd 1 2 30, .roomJoin 7 3 4 5, .roomQuit 7 4 5, .sessionDel 1 2 [],
      .clean []].foldlM ChatTab.step oneSession = some tab ∧ tab.Consistent :=
  (chatTab_run_consistent _).2 _ oneSession_consistent

end BeehiveIm.GoChat
