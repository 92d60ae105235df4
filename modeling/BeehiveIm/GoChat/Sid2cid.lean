/-
The index of the Go chat table from sessions to connections: `SessionInRoom`, which goes by it, and
the task that is to take its stale entries out.
-/
import BeehiveIm.GoChat.Run

namespace BeehiveIm.GoChat

open BeehiveIm.Lib BeehiveIm.Chat

namespace ChatTab

variable {π : Type}

/-- `SessionInRoom`. It goes on where the session is not found, and reads its rooms through
a nil pointer (`none`). -/
def sessionInRoom (tab : ChatTab π) (sid : BitVec 64) (_rid : Rid) : Option (Gid × Bool) :=
  let cid := tab.getCidBySid sid
  if cid = 0 then some (0, false)
  else
    match tab.sessions.get (sid, cid) with
    | some _ => some (0, false)
    | none => none

/-- What `query_dirty` does with an entry. -/
def noteDirty (tab : ChatTab π) (ls : AList fun _ : BitVec 64 => BitVec 64) (sid cid : BitVec 64) :
    AList fun _ : BitVec 64 => BitVec 64 :=
  match tab.sessionGetParam sid cid with
  | some _ => ls
  | none => ls.insert sid cid

/-- `query_dirty` on the list `idx` -/
def queryDirty (tab : ChatTab π) (ls : AList fun _ : BitVec 64 => BitVec 64) (idx : Fin sessionMaxLen) :
    AList fun _ : BitVec 64 => BitVec 64 :=
  (tab.sid2cids.shard idx).entries.foldl (fun ls e => tab.noteDirty ls e.1 e.2) ls

/-- The first loop of `task_clean_sid2cid`. -/
def dirtyList (tab : ChatTab π) : AList fun _ : BitVec 64 => BitVec 64 :=
  (List.finRange sessionMaxLen).foldl tab.queryDirty ∅

/-- A round of `task_clean_sid2cid`; `order` is that of `range list`. The second loop is
over the values of the list, which are connections, and takes them for sessions; what the
list does not have is 0. -/
def taskCleanSid2cid (tab : ChatTab π) (order : List (BitVec 64)) : ChatTab π :=
  let list := tab.dirtyList
  (ranged order (list.entries.map fun e => e.2)).foldl
  (fun tab sid => tab.sid2cidDel sid ((list.lookup sid).getD 0)) tab

/-! ## Runs -/

/-- The calls that change a table, and the rounds of the task. -/
inductive Call (π : Type) where
  | op (op : Op π)
  | sessionSetCid (sid cid : BitVec 64)
  | taskCleanSid2cid (order : List (BitVec 64))

def call (tab : ChatTab π) : Call π → Option (ChatTab π)
  | .op op => tab.step op
  | .sessionSetCid sid cid => some (tab.sessionSetCid sid cid).1
  | .taskCleanSid2cid order => some (tab.taskCleanSid2cid order)

/-- The tables that there can be. -/
def reached (calls : List (Call π)) : Option (ChatTab π) := calls.foldlM call (init π)

/-- The group of the last `RoomJoin` of the session to the room, if no `RoomQuit` or
`SessionDel` followed. -/
def Call.joined (key : ChatSessionKey) (rid : Rid) (last : Option Gid) : Call π → Option Gid
  | .op (.roomJoin rid' gid sid cid) => if key = (sid, cid) ∧ rid = rid' then some gid else last
  | .op (.roomQuit rid' sid cid) => if key = (sid, cid) ∧ rid = rid' then none else last
  | .op (.sessionDel sid cid _) => if key = (sid, cid) then none else last
  | _ => last

def lastJoin (calls : List (Call π)) (key : ChatSessionKey) (rid : Rid) : Option Gid :=
  calls.foldl (Call.joined key rid) none

/-- `SessionInRoom` comes back, and reports the group of the last join. -/
def Answers (calls : List (Call π)) (tab : ChatTab π) (sid cid : BitVec 64) (rid : Rid) : Prop :=
  ∃ gid ok, tab.sessionInRoom sid rid = some (gid, ok) ∧
    ∀ g, ok = true ∧ gid = g ↔ lastJoin calls (sid, cid) rid = some g

/-- After the round `tab'` has no stale entry, and still the entries of `tab` that were not
stale. -/
structure Reclaims (tab tab' : ChatTab π) : Prop where
  remaining : ∀ sid cid, tab'.sid2cids.get sid = some cid → (tab'.sessions.get (sid, cid)).isSome
  unchanged : ∀ sid cid, tab.sid2cids.get sid = some cid → (tab.sessions.get (sid, cid)).isSome →
    tab'.sid2cids.get sid = some cid

/-- `sid` is, as a number, the connection of an entry whose session has no parameter. -/
def Named (tab : ChatTab π) (sid : BitVec 64) : Prop :=
  ∃ sid', tab.sid2cids.get sid' = some sid ∧ tab.sessionGetParam sid' sid = none

/-- The stale entries are named, and of the others none is that has no parameter, or the connection
0. -/
def NamesStale (tab : ChatTab π) : Prop :=
  ∀ sid cid, tab.sid2cids.get sid = some cid →
    (tab.sessions.get (sid, cid) = none → tab.Named sid) ∧
    ((tab.sessions.get (sid, cid)).isSome → tab.sessionGetParam sid cid = none ∨ cid = 0 → ¬tab.Named sid)

variable {tab : ChatTab π} {rid : Rid} {gid : Gid} {sid cid : BitVec 64}

/-! ## The sessions over a run -/

theorem roomJoin_view (tab : ChatTab π) (rid : Rid) (gid : Gid) (sid cid : BitVec 64) :
    ∃ tab' ret, tab.roomJoin rid gid sid cid = some (tab', ret) ∧
      view tab'.sessions = (view tab.sessions).join (sid, cid) rid gid := by
  obtain ⟨hview, -⟩ := sessionJoinRoom_spec tab rid gid sid cid
  unfold roomJoin
  generalize tab.sessionJoinRoom rid gid sid cid = joined at hview ⊢
  obtain ⟨tab₁, ret⟩ := joined
  by_cases hret : ret = 0
  · obtain ⟨room, hroom⟩ := Option.isSome_iff_exists.mp (roomQuery_roomAdd tab₁ rid)
    have hsome := groupQuery_groupAdd gid (Option.isSome_of_eq_some hroom)
    obtain ⟨group, hgroup⟩ := Option.isSome_iff_exists.mp hsome
    refine ⟨_, 0, by simp only [hret, hroom, hgroup]; rfl, ?_⟩
    have hsame := ((roomAdd_same tab₁ rid).trans (groupAdd_same _ rid gid)).trans (groupJoin_same _ rid gid (sid, cid))
    rw [hsame.1]
    exact hview
  · exact ⟨tab₁, -1, if_pos hret, hview⟩

theorem roomQuit_view (tab : ChatTab π) (rid : Rid) (sid cid : BitVec 64) :
    view (tab.roomQuit rid sid cid).1.sessions = (view tab.sessions).quit (sid, cid) rid := by
  obtain ⟨hview, -⟩ := sessionQuitRoom_spec tab rid sid cid
  unfold roomQuit
  generalize tab.sessionQuitRoom rid sid cid = quitted at hview ⊢
  obtain ⟨tab₁, _ | gid⟩ := quitted
  · exact hview
  · rw [(roomDelSession_same tab₁ rid gid sid cid).1]
    exact hview

theorem sessionDel_view (tab : ChatTab π) (sid cid : BitVec 64) (order : List (Rid × Gid)) :
    view (tab.sessionDel sid cid order).1.sessions = (view tab.sessions).del (sid, cid) := by
  obtain ⟨hview, -⟩ := sessionTake_spec (tab.sid2cidDel sid cid) sid cid
  rw [(sid2cidDel_spec tab sid cid).2.1] at hview
  unfold sessionDel
  generalize (tab.sid2cidDel sid cid).sessionTake sid cid = taken at hview ⊢
  obtain ⟨tab₁, _ | ssn⟩ := taken
  · exact hview
  · exact (congrArg view (delSessions_same sid cid _ tab₁).1).trans hview

theorem clean_view (tab : ChatTab π) (order : List Rid) : view (tab.clean order).1.sessions = view tab.sessions := by
  have hloop : ∀ (rids : List Rid) (tab : ChatTab π), (rids.foldl roomClean tab).sessions = tab.sessions := by
    intro rids
    induction rids with
    | nil => exact fun _ => rfl
    | cons rid rids ih => exact fun tab => (ih _).trans (roomClean_same tab rid).1
  exact congrArg view (hloop _ tab)

theorem step_view (tab : ChatTab π) (op : Op π) :
    ∃ tab', tab.step op = some tab' ∧ view tab'.sessions = op.apply (view tab.sessions) := by
  cases op with
  | roomJoin rid gid sid cid =>
    obtain ⟨tab', ret, hjoin, hview⟩ := roomJoin_view tab rid gid sid cid
    exact ⟨tab', by rw [step, hjoin]; rfl, hview⟩
  | roomQuit rid sid cid => exact ⟨_, rfl, roomQuit_view tab rid sid cid⟩
  | sessionSetParam sid cid param => exact ⟨_, rfl, sessionSetParam_view tab sid cid param⟩
  | subAdd sid cid cmd => exact ⟨_, rfl, subAdd_view⟩
  | subDel sid cid cmd => exact ⟨_, rfl, subDel_view⟩
  | sessionDel sid cid order => exact ⟨_, rfl, sessionDel_view tab sid cid order⟩
  | clean order => exact ⟨_, rfl, clean_view tab order⟩

/-! ## The task -/

theorem get_sid2cidDel (tab : ChatTab π) (sid cid sid' : BitVec 64) : (tab.sid2cidDel sid cid).sid2cids.get sid' =
    if sid' = sid ∧ tab.sid2cids.get sid' = some cid then none else tab.sid2cids.get sid' := by
  unfold sid2cidDel
  split
  · rename_i hnone
    rw [if_neg]
    rintro ⟨rfl, hcid⟩
    rw [hnone] at hcid
    cases hcid
  · rename_i cid' hcid'
    split
    · rename_i heq
      subst heq
      rw [Shards.get_del]
      by_cases hsid : sid' = sid
      · subst hsid
        simp [hcid']
      · simp [hsid]
    · rename_i hne
      rw [if_neg]
      rintro ⟨rfl, hcid⟩
      exact hne (Option.some.inj (hcid'.symm.trans hcid))

/-- The second loop deletes the entries whose session is among `sids`, where their
connection is the one given. -/
theorem delLoop_spec (cidOf : BitVec 64 → BitVec 64) : ∀ (sids : List (BitVec 64)) (tab : ChatTab π),
    (sids.foldl (fun tab sid => tab.sid2cidDel sid (cidOf sid)) tab).sessions = tab.sessions ∧
    ∀ sid', (sids.foldl (fun tab sid => tab.sid2cidDel sid (cidOf sid)) tab).sid2cids.get sid' =
      if sid' ∈ sids ∧ tab.sid2cids.get sid' = some (cidOf sid') then none else tab.sid2cids.get sid'
  | [], tab => ⟨rfl, fun sid' => by simp⟩
  | sid :: sids, tab => by
    obtain ⟨hsessions, hget⟩ := delLoop_spec cidOf sids (tab.sid2cidDel sid (cidOf sid))
    refine ⟨hsessions.trans (sid2cidDel_spec tab sid (cidOf sid)).2.1, fun sid' => ?_⟩
    rw [List.foldl_cons, hget, get_sid2cidDel]
    by_cases hsid : sid' = sid
    · subst hsid
      by_cases hcid : tab.sid2cids.get sid' = some (cidOf sid')
      · simp [hcid]
      · simp [hcid]
    · simp [hsid]

/-- The entries of `ls` are dirty ones. -/
def Dirty (tab : ChatTab π) (ls : AList fun _ : BitVec 64 => BitVec 64) : Prop :=
  ∀ sid cid, ls.lookup sid = some cid → tab.sid2cids.get sid = some cid ∧ tab.sessionGetParam sid cid = none

theorem Dirty.note {ls : AList fun _ : BitVec 64 => BitVec 64} (h : tab.Dirty ls)
    (hcid : tab.sid2cids.get sid = some cid) : tab.Dirty (tab.noteDirty ls sid cid) := by
  unfold noteDirty
  split
  · exact h
  · rename_i hparam
    intro sid' cid' hlookup
    rw [lookup_insert] at hlookup
    split at hlookup
    · rename_i heq
      subst heq
      cases hlookup
      exact ⟨hcid, hparam⟩
    · exact h sid' cid' hlookup

theorem noteDirty_isSome (ls : AList fun _ : BitVec 64 => BitVec 64) {sid' : BitVec 64}
    (h : (ls.lookup sid').isSome ∨ sid' = sid ∧ tab.sessionGetParam sid cid = none) :
    ((tab.noteDirty ls sid cid).lookup sid').isSome := by
  unfold noteDirty
  split
  · rename_i param hparam
    rcases h with h | ⟨-, hnone⟩
    · exact h
    · rw [hparam] at hnone
      cases hnone
  · rw [lookup_insert]
    split
    · rfl
    · rename_i hne
      exact h.resolve_right fun h => hne h.1

/-- The first loop finds the dirty entries of a part of the index, and keeps those it has found. -/
theorem noteDirty_loop : ∀ (entries : List (BitVec 64 × BitVec 64)) {ls : AList fun _ : BitVec 64 => BitVec 64},
    tab.Dirty ls → (∀ e ∈ entries, tab.sid2cids.get e.1 = some e.2) →
    tab.Dirty (entries.foldl (fun ls e => tab.noteDirty ls e.1 e.2) ls) ∧
    ∀ sid, (ls.lookup sid).isSome ∨ (∃ cid, (sid, cid) ∈ entries ∧ tab.sessionGetParam sid cid = none) →
      ((entries.foldl (fun ls e => tab.noteDirty ls e.1 e.2) ls).lookup sid).isSome
  | [], ls, h, _ => ⟨h, fun sid hsid => by simpa using hsid⟩
  | (sid₁, cid₁) :: entries, ls, h, hget => by
    obtain ⟨hdirty, hfound⟩ := noteDirty_loop entries (h.note (hget _ List.mem_cons_self))
      fun e he => hget e (List.mem_cons_of_mem _ he)
    refine ⟨hdirty, fun sid hsid => hfound sid ?_⟩
    rcases hsid with hsid | ⟨cid, he, hparam⟩
    · exact .inl (noteDirty_isSome ls (.inl hsid))
    · rcases List.mem_cons.1 he with heq | he
      · cases heq
        exact .inl (noteDirty_isSome ls (.inr ⟨rfl, hparam⟩))
      · exact .inr ⟨cid, he, hparam⟩

theorem lookup_dirtyList : tab.dirtyList.lookup sid = some cid ↔
    tab.sid2cids.get sid = some cid ∧ tab.sessionGetParam sid cid = none := by
  have hlist : tab.dirtyList = tab.sid2cids.toList.foldl (fun ls e => tab.noteDirty ls e.1 e.2) ∅ := by
    rw [Shards.toList, List.foldl_flatMap]
    simp only [List.foldl_map]
    rfl
  have hempty : tab.Dirty ∅ := fun _ _ h => by simp at h
  obtain ⟨hdirty, hfound⟩ := noteDirty_loop tab.sid2cids.toList hempty fun e he => Shards.mem_toList.mp he
  rw [← hlist] at hdirty hfound
  refine ⟨hdirty sid cid, fun h => ?_⟩
  obtain ⟨hget, hparam⟩ := h
  obtain ⟨cid', hcid'⟩ := Option.isSome_iff_exists.mp (hfound sid (.inr ⟨cid, Shards.mem_toList.mpr hget, hparam⟩))
  rw [hcid', Option.some.injEq]
  exact Option.some.inj ((hdirty sid cid' hcid').1.symm.trans hget)

/-- An entry is gone after the round if it is named, and its connection is what the list has for
it. -/
theorem get_taskCleanSid2cid (tab : ChatTab π) (order : List (BitVec 64)) (hget : tab.sid2cids.get sid = some cid) :
    (tab.taskCleanSid2cid order).sid2cids.get sid = none ↔
      tab.Named sid ∧ (tab.sessionGetParam sid cid = none ∨ cid = 0) := by
  have hnamed : sid ∈ ranged order (tab.dirtyList.entries.map fun e => e.2) ↔ tab.Named sid := by
    rw [(ranged_perm ..).mem_iff, List.mem_map]
    constructor
    · rintro ⟨⟨sid', cid'⟩, he, rfl⟩
      exact ⟨sid', lookup_dirtyList.mp (mem_entries.mp he)⟩
    · rintro ⟨sid', hdirty⟩
      exact ⟨⟨sid', sid⟩, mem_entries.mpr (lookup_dirtyList.mpr hdirty), rfl⟩
  have hcid : cid = (tab.dirtyList.lookup sid).getD 0 ↔ tab.sessionGetParam sid cid = none ∨ cid = 0 := by
    cases hlist : tab.dirtyList.lookup sid with
    | none =>
      have hparam : tab.sessionGetParam sid cid ≠ none := by
        intro hparam
        rw [lookup_dirtyList.mpr ⟨hget, hparam⟩] at hlist
        cases hlist
      simp [hparam]
    | some cid' =>
      obtain ⟨hget', hparam⟩ := lookup_dirtyList.mp hlist
      obtain rfl : cid' = cid := Option.some.inj (hget'.symm.trans hget)
      simp [hparam]
  unfold taskCleanSid2cid
  dsimp only
  rw [(delLoop_spec _ _ tab).2 sid, hget]
  simp only [Option.some.injEq, hnamed, hcid, ite_eq_left_iff, reduceCtorEq, imp_false, not_not]

theorem get_taskCleanSid2cid_of_ne (tab : ChatTab π) (order : List (BitVec 64))
    (h : (tab.taskCleanSid2cid order).sid2cids.get sid ≠ none) :
    (tab.taskCleanSid2cid order).sid2cids.get sid = tab.sid2cids.get sid := by
  unfold taskCleanSid2cid at h ⊢
  dsimp only at h ⊢
  rw [(delLoop_spec _ _ tab).2 sid] at h ⊢
  split
  · rename_i hgone
    rw [if_pos hgone] at h
    exact absurd rfl h
  · rfl

/-- A round reclaims the stale entries just where they are named and the others that it
could take out are not. -/
theorem reclaims_iff (tab : ChatTab π) (order : List (BitVec 64)) :
    Reclaims tab (tab.taskCleanSid2cid order) ↔ tab.NamesStale := by
  have hsessions : (tab.taskCleanSid2cid order).sessions = tab.sessions := (delLoop_spec _ _ tab).1
  constructor
  · rintro ⟨hremaining, hunchanged⟩ sid cid hget
    constructor
    · -- a stale entry that stayed would remain
      intro hstale
      by_contra hno
      have hstays : (tab.taskCleanSid2cid order).sid2cids.get sid ≠ none := fun hgone =>
        hno ((get_taskCleanSid2cid tab order hget).mp hgone).1
      have hsome := hremaining sid cid ((get_taskCleanSid2cid_of_ne tab order hstays).trans hget)
      rw [hsessions, hstale] at hsome
      cases hsome
    · intro hlive hparam hnamed
      have hgone := (get_taskCleanSid2cid tab order hget).mpr ⟨hnamed, hparam⟩
      rw [hunchanged sid cid hget hlive] at hgone
      cases hgone
  · intro h
    constructor
    · intro sid cid hget'
      have hget := (get_taskCleanSid2cid_of_ne tab order (by simp [hget'])).symm.trans hget'
      rw [hsessions]
      by_contra hstale
      have hstale : tab.sessions.get (sid, cid) = none := by simpa using hstale
      have hparam : tab.sessionGetParam sid cid = none := by rw [sessionGetParam, hstale, Option.bind_none]
      have hgone := (get_taskCleanSid2cid tab order hget).mpr ⟨(h sid cid hget).1 hstale, .inl hparam⟩
      rw [hget'] at hgone
      cases hgone
    · intro sid cid hget hlive
      have hstays : (tab.taskCleanSid2cid order).sid2cids.get sid ≠ none := by
        intro hgone
        obtain ⟨hnamed, hparam⟩ := (get_taskCleanSid2cid tab order hget).mp hgone
        exact (h sid cid hget).2 hlive hparam hnamed
      exact (get_taskCleanSid2cid_of_ne tab order hstays).trans hget

/-! ## Runs of all calls -/

/-- The sessions of a table are in the rooms that they have joined and not left. -/
theorem call_joined (tab : ChatTab π) (c : Call π) (key : ChatSessionKey) (rid : Rid) {last : Option Gid}
    (hlast : ((view tab.sessions).lists key rid).isSome = last.isSome) :
    ∃ tab', tab.call c = some tab' ∧ ((view tab'.sessions).lists key rid).isSome = (c.joined key rid last).isSome := by
  cases c with
  | sessionSetCid sid cid => exact ⟨_, rfl, hlast⟩
  | taskCleanSid2cid order =>
    refine ⟨_, rfl, ?_⟩
    rw [show (tab.taskCleanSid2cid order).sessions = tab.sessions from (delLoop_spec _ _ tab).1]
    exact hlast
  | op op =>
    obtain ⟨tab', hstep, hview⟩ := step_view tab op
    refine ⟨tab', hstep, ?_⟩
    rw [hview]
    cases op with
    | roomJoin rid' gid sid cid =>
      simp only [Op.apply, Call.joined, Membership.lists_join]
      split
      · rfl
      · exact hlast
    | roomQuit rid' sid cid =>
      simp only [Op.apply, Call.joined, Membership.lists_quit]
      split
      · rfl
      · exact hlast
    | sessionDel sid cid order =>
      simp only [Op.apply, Call.joined, Membership.lists_del]
      split
      · rfl
      · exact hlast
    | sessionSetParam sid cid param =>
      simp only [Op.apply, Call.joined, Membership.lists_enter]
      exact hlast
    | subAdd sid cid cmd => exact hlast
    | subDel sid cid cmd => exact hlast
    | clean order => exact hlast

theorem reached_joined (calls : List (Call π)) (key : ChatSessionKey) (rid : Rid) :
    ∃ tab, reached calls = some tab ∧ ((view tab.sessions).lists key rid).isSome = (lastJoin calls key rid).isSome :=
  simulate (R := fun tab (last : Option Gid) => ((view (ChatTab.sessions tab)).lists key rid).isSome = last.isSome)
    (fun tab _ c h (_ : True) => call_joined tab c key rid h) calls (init π) none rfl (guarded_true calls none)

/-- `SessionInRoom` reports nobody, and fails where the index is stale. -/
theorem answers_iff (calls : List (Call π)) (hlast : ((view tab.sessions).lists (sid, cid) rid).isSome =
    (lastJoin calls (sid, cid) rid).isSome) : Answers calls tab sid cid rid ↔
      (tab.getCidBySid sid = 0 ∨ (tab.sessions.get (sid, tab.getCidBySid sid)).isSome) ∧
        ∀ ssn, tab.sessions.get (sid, cid) = some ssn → ssn.room.lookup rid = none := by
  have hnobody : (∀ g, ¬lastJoin calls (sid, cid) rid = some g) ↔
      ∀ ssn, tab.sessions.get (sid, cid) = some ssn → ssn.room.lookup rid = none := by
    rw [← Option.eq_none_iff_forall_ne_some, ← Option.not_isSome_iff_eq_none, ← hlast, Option.not_isSome_iff_eq_none,
      Option.eq_none_iff_forall_ne_some]
    constructor
    · intro hout ssn hssn
      exact Option.eq_none_iff_forall_ne_some.mpr fun gid hgid => hout gid (lists_view.mpr ⟨ssn, hssn, hgid⟩)
    · rintro hout gid hgid
      obtain ⟨ssn, hssn, hgid⟩ := lists_view.mp hgid
      rw [hout ssn hssn] at hgid
      cases hgid
  have hsilent : (∀ g, (false = true ∧ (0 : Gid) = g) ↔ lastJoin calls (sid, cid) rid = some g) ↔
      ∀ g, ¬lastJoin calls (sid, cid) rid = some g := by
    refine forall_congr' fun g => ?_
    simp
  unfold Answers sessionInRoom
  by_cases hcid : tab.getCidBySid sid = 0
  · simp only [hcid, if_true, true_or, true_and, Option.some.injEq, Prod.mk.injEq]
    rw [← hnobody, ← hsilent]
    constructor
    · rintro ⟨gid, ok, ⟨rfl, rfl⟩, h⟩
      exact h
    · exact fun h => ⟨0, false, ⟨rfl, rfl⟩, h⟩
  · simp only [hcid, if_false, false_or]
    cases hssn : tab.sessions.get (sid, tab.getCidBySid sid) with
    | none => simp
    | some ssn =>
      simp only [Option.isSome_some, true_and, Option.some.injEq, Prod.mk.injEq]
      rw [← hnobody, ← hsilent]
      constructor
      · rintro ⟨gid, ok, ⟨rfl, rfl⟩, h⟩
        exact h
      · exact fun h => ⟨0, false, ⟨rfl, rfl⟩, h⟩

/-- In every table, `SessionInRoom` is right about a session just where it is not in the room, and
the connection that the index has for its id, if there is one, is that of a session. -/
theorem session_in_room_iff (calls : List (Call π)) (sid cid : BitVec 64) (rid : Rid) :
    ∃ tab, reached calls = some tab ∧ (Answers calls tab sid cid rid ↔
      (tab.getCidBySid sid = 0 ∨ (tab.sessions.get (sid, tab.getCidBySid sid)).isSome) ∧
        ∀ ssn, tab.sessions.get (sid, cid) = some ssn → ssn.room.lookup rid = none) := by
  obtain ⟨tab, hreached, hlast⟩ := reached_joined calls (sid, cid) rid
  exact ⟨tab, hreached, answers_iff calls hlast⟩

/-- A session that has joined a room, and whose connection the index knows, is not reported. -/
theorem joined_not_reported : ¬∀ (calls : List (Call Unit)) (sid cid : BitVec 64) (rid : Rid),
    ∃ tab, reached calls = some tab ∧ Answers calls tab sid cid rid := by
  intro h
  obtain ⟨tab, hreached, hanswer⟩ := h [.op (.roomJoin 7 3 1 2), .sessionSetCid 1 2] 1 2 7
  obtain ⟨tab', hreached', hlast⟩ := reached_joined (π := Unit) [.op (.roomJoin 7 3 1 2), .sessionSetCid 1 2] (1, 2) 7
  obtain rfl : tab' = tab := Option.some.inj (hreached'.symm.trans hreached)
  obtain ⟨-, hout⟩ := (answers_iff _ hlast).mp hanswer
  have hin : ((view tab'.sessions).lists (1, 2) 7).isSome = true := hlast
  obtain ⟨gid, hgid⟩ := Option.isSome_iff_exists.mp hin
  obtain ⟨ssn, hssn, hgid⟩ := lists_view.mp hgid
  rw [hout ssn hssn] at hgid
  cases hgid

/-- Whatever the order, a round of the task reclaims the stale entries of a table just
where these are named. -/
theorem sid2cid_reclaimed_iff (calls : List (Call π)) : ∃ tab, reached calls = some tab ∧
    ∀ order, Reclaims tab (tab.taskCleanSid2cid order) ↔ tab.NamesStale := by
  obtain ⟨tab, hreached, -⟩ := reached_joined calls (0, 0) 0
  exact ⟨tab, hreached, reclaims_iff tab⟩

/-- An entry without a session stays. -/
theorem stale_entry_stays : ¬∀ calls : List (Call Unit), ∃ tab, reached calls = some tab ∧
    ∀ order, Reclaims tab (tab.taskCleanSid2cid order) := by
  intro h
  obtain ⟨tab, hreached, hreclaims⟩ := h [.sessionSetCid 5 7]
  obtain rfl : ((init Unit).sessionSetCid 5 7).1 = tab := Option.some.inj hreached
  have hget (sid : BitVec 64) :
      ((init Unit).sessionSetCid 5 7).1.sid2cids.get sid = if sid = 5 then some 7 else none := Shards.get_set sid
  obtain ⟨hnamed, -⟩ := (reclaims_iff _ []).mp (hreclaims []) 5 7 (hget 5)
  obtain ⟨sid, hsid, -⟩ := hnamed rfl
  rw [hget] at hsid
  split at hsid
  · exact absurd hsid (by decide)
  · cases hsid

end ChatTab

end BeehiveIm.GoChat
