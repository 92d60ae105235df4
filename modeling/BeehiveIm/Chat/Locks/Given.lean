/-
Which calls give back the locks they take, and only those. `chat_room_del_session` keeps the slot of
its session, `chat_set_sid_to_cid` that of an entry for which there is no memory, and `chat_has_sub`
gives back twice what it does not find.
-/
import BeehiveIm.Chat.Locks.Plain
import BeehiveIm.Core.HashTab.Slots

namespace BeehiveIm.Chat.Locks

open BeehiveIm.Lib BeehiveIm.Lib.Locked BeehiveIm.Core

/-! ## `hash_tab.c` -/

section HashTab

variable {κ α β : Type} {name : Nat → Lock} {K : HashKey κ} {key : α → κ} {H : HashTab α}

theorem leaves_hashTabTrav {proc : β → α → Locked Lock β} (h : ∀ b e, Leaves (proc b e) []) (b : β) :
    Leaves (hashTabTrav name H proc b) [] := by
  refine leaves_foldlM (fun b idx => ?_) _ b
  refine .acquire ((leaves_lift _).then fun es => ?_)
  exact (leaves_foldlM h es b).then fun b => .release (leaves_pure b)

theorem leaves_hashTabDestroy {dealloc : α → Locked Lock Unit} (h : ∀ e, Leaves (dealloc e) []) :
    Leaves (hashTabDestroy name H dealloc) [] := by
  refine leaves_foldlM (fun _ idx => ?_) _ ()
  refine .acquire ((leaves_foldlM (fun _ e => h e) _ ()).then fun _ => ?_)
  exact leaves_release _

theorem leaves_hashTabFree (name : Nat → Lock) (len : Nat) : Leaves (hashTabFree name len) [] :=
  leaves_hashTabDestroy fun _ => leaves_pure ()

theorem leaves_missed (l : Lock) (name : Nat → Lock) (len : Nat) (miss : Miss) :
    Leaves (missed l name len miss) [] := by
  cases miss with
  | alloc => exact leaves_pure ()
  | creat => exact leaves_hashTabFree name len
  | insert => exact .acquire (.release (leaves_hashTabFree name len))

end HashTab

/-! ## Rooms -/

variable {misses : Misses} {rid : Rid} {gid : BitVec 32} {key : SessionKey} {mem : Mem} {room : ChatRoom}
  {rooms : HashTab ChatRoom}

theorem leaves_queryGroup (groups : HashTab ChatGroup) (gid : BitVec 16) :
    Leaves (queryGroup misses rid groups gid) [.acquire (.groups rid (groupKey.slot groups.len gid))] := by
  refine .query_taken ?_ fun grp => leaves_pure _
  refine (leaves_foldlM (fun _ miss => ?_) misses.groups ()).then fun _ => ?_
  · exact (leaves_missed _ _ _ miss).then fun _ => .acquire (leaves_release _)
  · exact (leaves_under _ _).then fun groups => .query_taken (fun q hq => by cases hq) fun grp => leaves_pure _

theorem leaves_groupAddSession (grp : ChatGroup) : Leaves (groupAddSession room grp key mem) [] := by
  unfold groupAddSession
  split
  · refine (leaves_under _ _).then fun p => ?_
    split
    · exact (leaves_lift _).then fun room => leaves_pure _
    · exact leaves_pure _
  · exact leaves_pure _

theorem leaves_chatGroupAddSession : Leaves (chatGroupAddSession misses room gid key mem) [] := by
  refine (leaves_queryGroup room.groups (gid.setWidth 16)).taken fun p => ?_
  exact (leaves_groupAddSession p.2).then fun p => .release (leaves_pure p)

theorem leaves_groupDelSession (grp : ChatGroup) : Leaves (groupDelSession room grp key) [] := by
  refine (leaves_under _ _).then fun p => ?_
  split
  · exact leaves_pure _
  · exact leaves_lift _

theorem leaves_chatGroupDelSession : Leaves (chatGroupDelSession room gid key) [] := by
  refine .query (leaves_pure _) fun grp _ => ?_
  exact (leaves_groupDelSession grp).then fun room => .release (leaves_pure _)

theorem leaves_queryRoom : Leaves (queryRoom misses rooms rid) [.acquire (.rooms (idKey.slot rooms.len rid))] := by
  refine .query_taken ?_ fun room => leaves_pure _
  refine (leaves_foldlM (fun _ miss => ?_) misses.rooms ()).then fun _ => ?_
  · exact (leaves_missed _ _ _ miss).then fun _ => .acquire (leaves_release _)
  · exact (leaves_under _ _).then fun rooms => .query_taken (fun q hq => by cases hq) fun room => leaves_pure _

theorem leaves_roomAddSession : Leaves (roomAddSession misses rooms rid gid key mem) [] := by
  refine leaves_queryRoom.taken fun p => ?_
  refine leaves_chatGroupAddSession.then fun q => ?_
  exact (leaves_lift _).then fun rooms => .release (leaves_pure _)

theorem leaves_roomDelSession (rooms : HashTab ChatRoom) (rid : Rid) (gid : BitVec 32) (key : SessionKey) :
    Leaves (roomDelSession rooms rid gid key) [] := by
  refine .query (leaves_pure _) fun room _ => ?_
  refine leaves_chatGroupDelSession.then fun room => ?_
  exact (leaves_lift _).then fun rooms => .release (leaves_pure _)

theorem leaves_chatRoomDestroy : Leaves (chatRoomDestroy room) [] :=
  leaves_hashTabDestroy fun _ => leaves_hashTabDestroy fun _ => leaves_pure ()

/-- The room is destroyed when its slot has been given back. -/
theorem leaves_chatDelRoom (rooms : HashTab ChatRoom) (rid : Rid) : Leaves (chatDelRoom rooms rid) [] := by
  refine .query (leaves_pure _) fun room _ => ?_
  dsimp only
  split
  · exact .release (leaves_pure _)
  · refine (leaves_lift _).then fun p => .release ?_
    exact leaves_chatRoomDestroy.then fun _ => leaves_pure _

theorem leaves_chatGroupTrav (gid : BitVec 16) : Leaves (chatGroupTrav room gid) [] := by
  unfold chatGroupTrav
  split
  · exact leaves_hashTabTrav (fun out grp => leaves_hashTabTrav (fun out key => leaves_pure _) out) []
  · refine .query (leaves_pure _) fun grp _ => ?_
    exact (leaves_hashTabTrav (fun out key => leaves_pure _) []).then fun out => .release (leaves_pure _)

theorem leaves_chatRoomTravSession (T : ChatTab) (gid : BitVec 16) : Leaves (chatRoomTravSession T rid gid) [] := by
  refine .query (leaves_pure _) fun room _ => ?_
  exact (leaves_chatGroupTrav gid).then fun out => .release (leaves_pure _)

theorem leaves_cleanLoop : ∀ (rids : List Rid) (rooms : HashTab ChatRoom),
    Leaves (chatRoomCleanHdl.cleanLoop rids rooms) []
  | [], rooms => leaves_pure rooms
  | rid :: rids, rooms => by
    unfold chatRoomCleanHdl.cleanLoop
    split
    · split
      · exact leaves_pure _
      · exact leaves_lift _
    · exact (leaves_chatDelRoom rooms rid).then fun rooms => leaves_cleanLoop rids rooms

theorem leaves_chatRoomCleanHdl (T : ChatTab) (pushed : Rid → Bool) : Leaves (chatRoomCleanHdl T pushed) [] := by
  refine (leaves_hashTabTrav (fun out room => leaves_pure _) []).then fun rooms => ?_
  exact (leaves_cleanLoop _ _).then fun rooms => leaves_pure _

/-! ## Sessions -/

variable {T : ChatTab} {C : ChatState} {sid cid : BitVec 64} {cmd : Cmd}

theorem leaves_sessionFree (key : SessionKey) : Leaves (sessionFree key) [] :=
  (leaves_hashTabFree _ _).then fun _ => leaves_hashTabFree _ _

theorem leaves_chatSessionTabAdd (T : ChatTab) : Leaves (chatSessionTabAdd misses T rid gid sid cid mem) [] := by
  unfold chatSessionTabAdd
  dsimp only
  split
  · exact leaves_pure _
  split
  · exact leaves_lift _
  split
  · -- the tables that were made are given up
    have hroom : Leaves (if misses.sub ∨ misses.begun then do
        hashTabFree (Lock.room (sid, cid)) chatSessionSlotLen
        pure (T, false)
      else pure (T, false)) [] := by
      split
      · exact (leaves_hashTabFree _ _).then fun _ => leaves_pure _
      · exact leaves_pure _
    split
    · refine (leaves_under _ _).then fun _ => ?_
      split
      · exact (leaves_hashTabFree _ _).then fun _ => hroom
      · exact hroom
    · exact hroom
  · refine (leaves_under _ _).then fun p => (leaves_lift _).then fun _ => (leaves_under _ _).then fun q => ?_
    split
    · exact (leaves_sessionFree _).then fun _ => leaves_pure _
    · exact leaves_pure _

theorem leaves_chatRoomAddSession : Leaves (chatRoomAddSession misses T rid gid sid cid mem) [] := by
  refine .query ?_ fun session _ => ?_
  · refine leaves_roomAddSession.then fun p => ?_
    dsimp only
    split
    · refine (leaves_chatSessionTabAdd _).then fun p => ?_
      split
      · exact leaves_pure _
      · exact (leaves_roomDelSession _ _ _ _).then fun rooms => leaves_pure _
    · exact leaves_pure _
  · refine .query ?_ fun room _ => .release (.release (leaves_pure _))
    dsimp only
    split
    · exact (leaves_under _ _).then fun p => (leaves_lift _).then fun sessions => .release (leaves_pure _)
    · split
      · exact (leaves_under _ _).then fun _ => .release (leaves_pure _)
      · exact .release (leaves_pure _)

/-- Everything is given back but the slot of a session that was found. -/
theorem leaves_chatRoomDelSession_some {session : ChatSession}
    (hq : sessionKey.query ChatSession.key T.sessions (sid, cid) = some (some session)) :
    Leaves (chatRoomDelSession T rid sid cid) [.acquire (.sessions (T.slot (sid, cid)))] := by
  refine .query_some hq ((leaves_under _ _).then fun p => ?_)
  split
  · exact leaves_pure _
  · exact (leaves_lift _).then fun sessions => (leaves_roomDelSession _ _ _ _).then fun rooms => leaves_pure _

theorem leaves_chatRoomDelSession_none
    (hq : ∀ session, sessionKey.query ChatSession.key T.sessions (sid, cid) ≠ some (some session)) :
    Leaves (chatRoomDelSession T rid sid cid) [] :=
  .query (leaves_pure _) fun session hfound => absurd hfound (hq session)

theorem leaves_chatDelSidToCid (T : ChatTab) : Leaves (chatDelSidToCid T sid cid) [] := by
  refine .query (leaves_pure _) fun item _ => ?_
  dsimp only
  split
  · exact (leaves_lift _).then fun p => .release (leaves_pure _)
  · exact .release (leaves_pure _)

theorem leaves_chatDelSession (T : ChatTab) : Leaves (chatDelSession T sid cid) [] := by
  refine (leaves_chatDelSidToCid T).then fun T => (leaves_lift _).then fun _ => (leaves_under _ _).then fun p => ?_
  split
  · exact leaves_pure _
  · refine (leaves_hashTabTrav (fun rooms room => leaves_roomDelSession _ _ _ _) _).then fun rooms => ?_
    exact (leaves_sessionFree _).then fun _ => leaves_pure _

/-! ## The index and the subscriptions -/

theorem leaves_waitSid (C : ChatState) (sid : BitVec 64) : Leaves (waitSid C sid) [] := leaves_lift _

theorem leaves_chatGetCidBySid (C : ChatState) (sid : BitVec 64) : Leaves (chatGetCidBySid C sid) [] := by
  refine (leaves_waitSid C sid).then fun _ => .query (leaves_pure _) fun item _ => ?_
  exact .release (leaves_pure _)

theorem leaves_chatAddSub (item node : Bool) : Leaves (chatAddSub C sid cmd item node) [] := by
  unfold chatAddSub
  split
  · exact leaves_pure _
  refine (leaves_chatGetCidBySid C sid).then fun cid => ?_
  split
  · exact leaves_pure _
  refine .query (leaves_pure _) fun session hq => ?_
  -- the session has the key it was found under, so both ways to unlock are the same slot
  have hkey : session.key = (sid, cid) := HashKey.query_found hq
  refine (leaves_under _ _).then fun p => ?_
  split
  · rw [hkey]
    exact .release (leaves_pure _)
  · rw [hkey]
    exact .release (leaves_pure _)
  · exact .release (leaves_pure _)

theorem leaves_chatDelSub : Leaves (chatDelSub C sid cmd) [] := by
  refine (leaves_chatGetCidBySid C sid).then fun cid => ?_
  dsimp only
  split
  · exact leaves_pure _
  refine .query (leaves_pure _) fun session _ => ?_
  exact (leaves_under _ _).then fun p => .release (leaves_pure _)

/-- An entry for another connection is deleted, and there is no memory for the new one. -/
def Strands (C : ChatState) (sid cid : BitVec 64) (item : Bool) : Prop :=
  ∃ old, idKey.query Prod.fst C.tab.sid2cids sid = some (some old) ∧ old.2 ≠ cid ∧ ¬item

theorem leaves_chatSetSidToCid {item node : Bool} (h : ¬Strands C sid cid item) :
    Leaves (chatSetSidToCid misses C sid cid item node) [] := by
  refine (leaves_waitSid C sid).then fun _ => .query ?_ fun old hold => ?_
  · refine (leaves_foldlM (fun _ _ => ?_) _ ()).then fun _ => ?_
    · exact (leaves_under _ _).then fun _ => leaves_under _ _
    · split
      · exact (leaves_under _ _).then fun p => leaves_pure _
      · exact leaves_pure _
  · dsimp only
    split
    · exact .release (leaves_pure _)
    rename_i hcid
    refine (leaves_lift _).then fun p => ?_
    split
    · exact (leaves_lift _).then fun q => .release (leaves_pure _)
    · rename_i hitem
      exact absurd ⟨old, hold, hcid, hitem⟩ h

/-- The slot of the entry stays locked. -/
theorem leaves_chatSetSidToCid_strands {item node : Bool} (h : Strands C sid cid item) :
    Leaves (chatSetSidToCid misses C sid cid item node) [.acquire (.sid2cids (C.sidSlot sid))] := by
  obtain ⟨old, hold, hcid, hitem⟩ := h
  refine (leaves_waitSid C sid).then fun _ => .query_some hold ?_
  dsimp only
  rw [if_neg hcid]
  refine (leaves_lift _).then fun p => ?_
  rw [if_neg hitem]
  exact leaves_pure _

/-- The session is found, but not the command. -/
def Unheld (C : ChatState) (sid : BitVec 64) (cmd : Cmd) (word : BitVec 64) : Prop :=
  ∃ session, sessionKey.query ChatSession.key C.tab.sessions (sid, word) = some (some session) ∧
    subKey.query id (C.sub session.key) cmd = some none

theorem leaves_chatHasSub {word : BitVec 64} (h : ¬Unheld C sid cmd word) : Leaves (chatHasSub C sid cmd word) [] := by
  refine .query (leaves_pure _) fun session hq => ?_
  have hsub : Leaves (sessionHasSub session.key (C.sub session.key) cmd) [] := by
    exact .query_same (fun hnone => absurd ⟨session, hq, hnone⟩ h) (fun item _ => .release (leaves_pure _))
      (.acquire_cons _ _)
  exact hsub.then fun has => .release (leaves_pure _)

/-- The slot of the command is given back while the caller has only the one of the session. -/
theorem leaves_chatHasSub_unheld {word : BitVec 64} (h : Unheld C sid cmd word) :
    ∃ i, Leaves (chatHasSub C sid cmd word)
    [.acquire (.sessions (C.tab.slot (sid, word))), .release (.sub (sid, word) i),
    .release (.sessions (C.tab.slot (sid, word)))] := by
  obtain ⟨session, hq, hnone⟩ := h
  have hkey : session.key = (sid, word) := HashKey.query_found hq
  refine ⟨subKey.slot (C.sub session.key).len cmd, .query_some hq ?_⟩
  have hsub : Leaves (sessionHasSub session.key (C.sub session.key) cmd)
      [.release (.sub session.key (subKey.slot (C.sub session.key).len cmd))] :=
    .query_none hnone (.release (leaves_pure _))
  dsimp only
  rw [hkey] at hsub ⊢
  exact hsub.bind fun has => .release (leaves_pure has)

/-! ## Calls -/

/-- Where a call gives back the locks it takes. -/
def Op.GivesBack (C : ChatState) : Op → Prop
  | .call (.roomDelSession _ sid cid) _ =>
    ∀ session, sessionKey.query ChatSession.key C.tab.sessions (sid, cid) ≠ some (some session)
  | .call (.setSidToCid sid cid item _) _ => ¬Strands C sid cid item
  | .hasSub sid cmd word => ¬Unheld C sid cmd word
  | _ => True

theorem Op.leaves_run {op : Op} (h : op.GivesBack C) : Leaves (op.run C) [] := by
  cases op with
  | call c misses =>
    have hcall : Leaves (Locks.call misses C c) [] := by
      cases c with
      | addSession rid gid sid cid mem => exact leaves_chatRoomAddSession.then fun p => leaves_pure _
      | roomDelSession rid sid cid => exact (leaves_chatRoomDelSession_none h).then fun T => leaves_pure _
      | delSession sid cid =>
        exact (leaves_waitSid C sid).then fun _ => (leaves_chatDelSession C.tab).then fun T => leaves_pure _
      | setSidToCid sid cid item node => exact leaves_chatSetSidToCid h
      | delSidToCid sid cid =>
        exact (leaves_waitSid C sid).then fun _ => (leaves_chatDelSidToCid C.tab).then fun T => leaves_pure _
      | addSub sid cmd item node => exact leaves_chatAddSub item node
      | delSub sid cmd => exact leaves_chatDelSub
      | delRoom rid => exact (leaves_chatDelRoom _ _).then fun rooms => leaves_pure _
      | clean pushed => exact (leaves_chatRoomCleanHdl _ _).then fun T => leaves_pure _
    exact hcall.then fun p => leaves_pure _
  | hasSub sid cmd word => exact (leaves_chatHasSub h).then fun has => leaves_pure _
  | travSession rid gid => exact (leaves_chatRoomTravSession _ _).then fun out => leaves_pure _

/-- Elsewhere a lock is kept, or one is given back that is not held. -/
theorem Op.not_balanced {op : Op} {q : ChatState × List (LockEvent Lock)} (hrun : op.run C = some q)
    (h : ¬op.GivesBack C) : ¬Balanced q.2 := by
  have hkept {es : List (LockEvent Lock)} (hleaves : Leaves (op.run C) es) (hes : ¬Balanced es) : ¬Balanced q.2 :=
    mt (hleaves q hrun).balanced_iff.1 hes
  cases op with
  | call c misses =>
    cases c with
    | roomDelSession rid sid cid =>
      obtain ⟨session, hq⟩ : ∃ session, sessionKey.query ChatSession.key C.tab.sessions (sid, cid) =
          some (some session) := by
        simpa [Op.GivesBack] using h
      refine hkept (((leaves_chatRoomDelSession_some hq).bind fun T => leaves_pure _).bind fun p => leaves_pure _) ?_
      exact not_balanced_acquire (.refl [])
    | setSidToCid sid cid item node =>
      have hstrands : Strands C sid cid item := not_not.1 h
      refine hkept ((leaves_chatSetSidToCid_strands hstrands).bind fun p => leaves_pure _) ?_
      exact not_balanced_acquire (.refl [])
    | addSession | delSession | delSidToCid | addSub | delSub | delRoom | clean => exact absurd trivial h
  | hasSub sid cmd word =>
    have hunheld : Unheld C sid cmd word := not_not.1 h
    obtain ⟨i, hleaves⟩ := leaves_chatHasSub_unheld hunheld
    refine hkept (hleaves.bind fun has => leaves_pure _) ?_
    exact not_balanced_release nofun
  | travSession rid gid => exact absurd trivial h

/-- In any state, a call that returns has given back each lock it took once, and no other, exactly
where it does not meet one of the three slips. -/
theorem locks_given_back_iff (C : ChatState) (op : Op) (q : ChatState × List (LockEvent Lock))
    (hrun : op.run C = some q) : Balanced q.2 ↔ op.GivesBack C := by
  constructor
  · intro hb
    by_contra hno
    exact Op.not_balanced hrun hno hb
  · intro h
    exact (Op.leaves_run h).balanced hrun

theorem locks_given_back_first : ∃ q,
    (Op.call (.addSession 1 1 1 2 .enough) ⟨[.insert], [.creat], false, false, false, 0⟩).run
    (ChatState.chatTabInit 5) = some q ∧ Balanced q.2 := by
  have hplain : (Op.plain (ChatState.chatTabInit 5) (.call (.addSession 1 1 1 2 .enough)
      ⟨[.insert], [.creat], false, false, false, 0⟩)).isSome := by decide +kernel
  rw [← Op.forget_run] at hplain
  obtain ⟨C', hC'⟩ := Option.isSome_iff_exists.1 hplain
  obtain ⟨q, hrun, -⟩ := Option.map_eq_some_iff.1 hC'
  exact ⟨q, hrun, (locks_given_back_iff _ _ q hrun).2 trivial⟩

/-- When a session leaves a room, its slot stays locked. -/
theorem session_slot_kept : ¬∀ (len : Nat) (calls : List ChatState.Call) (C : ChatState) (op : Op)
    (q : ChatState × List (LockEvent Lock)), 0 < len → len < 2 ^ 31 →
    calls.foldlM ChatState.step (ChatState.chatTabInit len) = some C → op.run C = some q → Balanced q.2 := by
  intro h
  have hview : ([.addSession 1 1 1 2 .enough].foldlM ChatState.step (ChatState.chatTabInit 1)).map (fun C =>
      ((C.step (.roomDelSession 1 1 2)).isSome, (sessionKey.query ChatSession.key C.tab.sessions (1, 2)).join.isSome)) =
      some (true, true) := by decide +kernel
  obtain ⟨C, hcalls, hview⟩ := Option.map_eq_some_iff.1 hview
  simp only [Prod.mk.injEq] at hview
  obtain ⟨hstep, hfound⟩ := hview
  let op := Op.call (.roomDelSession 1 1 2) ⟨[], [], false, false, false, 0⟩
  have hplain : (op.plain C).isSome := hstep
  rw [← Op.forget_run] at hplain
  obtain ⟨C', hC'⟩ := Option.isSome_iff_exists.1 hplain
  obtain ⟨q, hrun, -⟩ := Option.map_eq_some_iff.1 hC'
  obtain ⟨session, hsession⟩ := Option.isSome_iff_exists.1 hfound
  have hkept : ¬op.GivesBack C := fun hno => hno session (Option.join_eq_some_iff.1 hsession)
  exact Op.not_balanced hrun hkept (h 1 _ C op q (by decide) (by decide) hcalls hrun)

end BeehiveIm.Chat.Locks
