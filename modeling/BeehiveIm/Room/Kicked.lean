/-
Users who have been kicked out of a room. A kick writes the blacklist and leaves the members as they
are: it keeps the user out exactly when no session of the user is in the room by then, no such
session is put back by a ping, and no session in the room comes online for the user.
-/
import BeehiveIm.Room.Effects
import BeehiveIm.Session.Index

namespace BeehiveIm.Room

open BeehiveIm.Lib
open BeehiveIm.Session (MesgHeader MesgOnline chatSidTtl chatBatNum parseInt)

namespace Store

variable {s s' : Store} {uid sid rid : BitVec 64} {head : MesgHeader} {req : MesgRoom}

/-- The session is one of the user, as the user server has it. -/
def SessionOf (s : Store) (uid sid : BitVec 64) : Prop := uid ≠ 0 ∧ (s.im.getSidAttr sid).uid = uid

/-- No session of the user is in the room. -/
def Without (s : Store) (rid uid : BitVec 64) : Prop := ∀ sid, s.SessionOf uid sid → sid ∉ s.ridToSid rid

/-- Nobody's session and nobody's room is new. -/
structure Fewer (s s' : Store) : Prop where
  sessions : ∀ uid sid, s'.SessionOf uid sid → s.SessionOf uid sid
  sids : ∀ rid sid, sid ∈ s'.ridToSid rid → sid ∈ s.ridToSid rid

theorem Fewer.refl (s : Store) : Fewer s s := ⟨fun _ _ => id, fun _ _ => id⟩

theorem Fewer.trans {t : Store} (h : Fewer s s') (h' : Fewer s' t) : Fewer s t :=
  ⟨fun uid sid hs => h.sessions uid sid (h'.sessions uid sid hs), fun rid sid hs => h.sids rid sid (h'.sids rid sid hs)⟩

theorem Fewer.without (h : Fewer s s') (hs : s.Without rid uid) : s'.Without rid uid :=
  fun sid hsid hmem => hs sid (h.sessions uid sid hsid) (h.sids rid sid hmem)

theorem Fewer.of_eq (him : s'.im = s.im) (hsid : s'.ridToSid = s.ridToSid) : Fewer s s' :=
  ⟨fun _ _ h => by rwa [SessionOf, him] at h, fun _ _ h => by rwa [hsid] at h⟩

/-! ## Commands -/

/-- Only `ZADD` of a session to a room adds to the rooms. -/
def Cmd.Quiet : Cmd → Prop
  | .zaddSid .. => False
  | _ => True

/-- A command that neither adds to the rooms nor gives a role. -/
def Cmd.Ordinary : Cmd → Prop
  | .zaddSid .. | .hsetnxRole .. => False
  | _ => True

/-- A command that moreover leaves the rows and the roles as they are. -/
def Cmd.Aside : Cmd → Prop
  | .zaddSid .. | .hsetnxRole .. | .delRole _ | .insertInfo .. | .closeInfo .. => False
  | _ => True

theorem aside_ordinary {c : Cmd} (hc : Cmd.Aside c) : Cmd.Ordinary c := by
  cases c with
  | zaddSid rid ttl sid => exact hc
  | hsetnxRole rid uid role => exact hc
  | _ => trivial

theorem ordinary_quiet {c : Cmd} (hc : Cmd.Ordinary c) : Cmd.Quiet c := by
  cases c with
  | zaddSid rid ttl sid => exact hc
  | _ => trivial

theorem aside_quiet {c : Cmd} (hc : Cmd.Aside c) : Cmd.Quiet c := ordinary_quiet (aside_ordinary hc)

theorem exec_fewer {c : Cmd} (hc : Cmd.Quiet c) (s : Store) : Fewer s (exec c s).2 := by
  cases c with
  | zaddSid rid ttl sid => exact hc.elim
  | zremSid rid sid => exact ⟨fun _ _ => id, fun r x hx => (mem_put_rem.1 hx).1⟩
  | delSid rid => exact ⟨fun _ _ => id, fun r x hx => (mem_put_empty.1 hx).1⟩
  | hsetnxRole rid uid role =>
    rw [exec]
    split <;> exact .of_eq rfl rfl
  | insertInfo rid uid now =>
    rw [exec]
    split <;> exact .of_eq rfl rfl
  | closeInfo rid now =>
    rw [exec]
    split <;> exact .of_eq rfl rfl
  | _ => exact .of_eq rfl rfl

theorem run_fewer {α : Type} {p : Redis α} (hp : p.Only Cmd.Quiet) (s : Store) : Fewer s (p.run exec s).2 :=
  hp.run exec Fewer.refl (fun _ _ _ => Fewer.trans) (fun _ hc => exec_fewer hc) s

theorem roomCleanBySid_aside (uid sid : BitVec 64) : (roomCleanBySid uid sid).Only Cmd.Aside := by
  simp only [roomCleanBySid, redo, Prog.issue_bind, Prog.ret_bind, Prog.only_issue]
  refine ⟨trivial, fun l => Prog.Only.bind (fun _ => ?_) (Prog.Only.forM (fun e => ?_) l)⟩
  · exact ⟨trivial, fun _ => trivial⟩
  · simp [Cmd.Aside]

theorem roomCleanSessionData_aside (sid cid : BitVec 64) (nid : BitVec 32) :
    (roomCleanSessionData sid cid nid).Only Cmd.Aside := by
  simp only [roomCleanSessionData, redo, Prog.issue_bind, Prog.ret_bind, Prog.only_issue, Prog.only_ite, Prog.only_pure]
  refine ⟨trivial, fun attr => ⟨fun _ => trivial, fun _ =>
    ⟨trivial, fun num => ⟨fun _ => ?_, fun _ => ⟨trivial, fun _ => trivial⟩⟩⟩⟩⟩
  refine Prog.Only.bind (fun _ => ?_) (roomCleanBySid_aside _ _)
  exact ⟨trivial, fun _ => trivial⟩

theorem onlineHandler_aside (head : MesgHeader) (req : MesgOnline) (now : Int) :
    (onlineHandler head req now).Only Cmd.Aside := by
  simp only [onlineHandler, updateOnlineData, redo, Prog.issue_bind, Prog.ret_bind, Prog.only_issue, Prog.only_ite]
  refine ⟨trivial, fun attr => ⟨fun _ => ?_, fun _ => by simp [Cmd.Aside]⟩⟩
  refine Prog.Only.bind (fun _ => ?_) (roomCleanSessionData_aside _ _ _)
  simp [Cmd.Aside]

theorem chatRoomOfflineHandler_aside (head : MesgHeader) : (chatRoomOfflineHandler head).Only Cmd.Aside := by
  simp only [chatRoomOfflineHandler, Prog.only_ite, Prog.only_pure]
  exact ⟨fun _ => trivial, fun _ => roomCleanSessionData_aside _ _ _⟩

theorem dismissRoomByRid_ordinary (rid : BitVec 64) (now : Int) : (dismissRoomByRid rid now).Only Cmd.Ordinary := by
  simp [dismissRoomByRid, roomDismissRedis, redo, Cmd.Ordinary]

theorem chatRoomDismissHandler_ordinary (head : MesgHeader) (req : MesgRoom) (now : Int) :
    (chatRoomDismissHandler head req now).Only Cmd.Ordinary := by
  have hclose := dismissRoomByRid_ordinary req.rid now
  simp only [chatRoomDismissHandler, roomDismissHandler, redo, Prog.issue_bind, Prog.ret_bind, Prog.only_issue,
    Prog.only_ite, Prog.only_pure]
  refine ⟨fun _ => trivial, fun _ => ⟨fun _ => trivial, fun _ => ⟨trivial, fun attr => ⟨fun _ => trivial, fun _ =>
    ⟨fun _ => trivial, fun _ => ⟨trivial, fun info => ?_⟩⟩⟩⟩⟩⟩
  cases info with
  | none => trivial
  | some info =>
    refine Prog.only_ite.2 ⟨fun _ => ⟨trivial, fun role => ?_⟩, fun _ => hclose⟩
    cases role with
    | none => trivial
    | some role => exact Prog.only_ite.2 ⟨fun _ => trivial, fun _ => hclose⟩

theorem chatRoomKickHandler_aside (head : MesgHeader) (req : MesgRoom) :
    (chatRoomKickHandler head req).Only Cmd.Aside := by
  simp only [chatRoomKickHandler, roomKickHandler, isRoomManager, redo, Prog.issue_bind, Prog.ret_bind, Prog.only_issue,
    Prog.only_ite, Prog.only_pure]
  refine ⟨fun _ => trivial, fun _ =>
    ⟨trivial, fun attr => ⟨trivial, fun role => Prog.Only.bind (fun manager => ?_) ?_⟩⟩⟩
  · simp [Cmd.Aside]
  · cases role with
    | none => trivial
    | some role => exact Prog.only_ite.2 ⟨fun _ => trivial, fun _ => trivial⟩

theorem chatRoomQuitHandler_aside (head : MesgHeader) (req : MesgRoom) :
    (chatRoomQuitHandler head req).Only Cmd.Aside := by
  simp [chatRoomQuitHandler, redo, Cmd.Aside]

theorem setBlacklist_aside (rid uid : BitVec 64) (add : Bool) : (setBlacklist rid uid add).Only Cmd.Aside := by
  simp [setBlacklist, redo, Cmd.Aside]

theorem roomCreateHandler_quiet (rid uid : BitVec 64) (now : Int) : (roomCreateHandler rid uid now).Only Cmd.Quiet := by
  simp [roomCreateHandler, redo, Cmd.Quiet]

theorem ping_fewer (now now' : Int) (h : ¬(isValid head ∧ s.Accepts head)) :
    Fewer s ((chatRoomPingHandler head now now').run exec s).2 := by
  by_cases hvalid : isValid head
  · rw [ping_of_not_accepts now now' hvalid fun ha => h ⟨hvalid, ha⟩]
    exact run_fewer ((roomCleanSessionData_aside _ _ _).mono aside_quiet) s
  · rw [ping_of_not_valid s now now' hvalid]
    exact .refl s

/-! ## Expired rooms -/

theorem Expired.fewer (h : Expired rid s s') : Fewer s s' :=
  ⟨fun uid sid hs => by rwa [SessionOf, h.im] at hs, fun r sid hs => ((h.ridToSid r sid).1 hs).1⟩

theorem cleanRidSet_fewer (s : Store) (ctm : Int) : ∃ s', s.cleanRidSet ctm = some s' ∧ Fewer s s' := by
  obtain ⟨s', hs'⟩ := cleanRidSet_total s ctm
  refine ⟨s', hs', paged_keeps (Fewer s) (fun t off ht => ?_) _ _ _ _ (.refl s) hs'⟩
  refine foldl_cleanByRid (Fewer s) (fun u v rid hu hv => hu.trans hv.fewer) _ t ht

/-! ## The user server -/

theorem fewer_of_erased {D : BitVec 64 → Prop} {im : Session.Store} (h : Session.Store.Erased D s.im im) :
    Fewer s { s with im := im } := by
  refine ⟨fun uid sid hs => ?_, fun _ _ => id⟩
  obtain ⟨huid, hattr⟩ := hs
  by_cases hD : D sid
  · rw [Session.Store.getSidAttr, h.gone sid hD] at hattr
    exact absurd hattr.symm huid
  · rw [Session.Store.getSidAttr, h.stays sid hD] at hattr
    exact ⟨huid, hattr⟩

theorem imClean_fewer (s : Store) (sid cid : BitVec 64) (nid : BitVec 32) :
    Fewer s { s with im := s.im.clean sid cid nid } := by
  by_cases h : (s.im.getSidAttr sid).cid = cid ∧ (s.im.getSidAttr sid).nid = nid
  · rw [Session.Store.clean_of_match h.1 h.2]
    exact fewer_of_erased (s.im.cleanSessionDataBySid_erased sid)
  · rw [Session.Store.clean_of_mismatch h]
    exact .refl s

theorem imPing_fewer (s : Store) (head : MesgHeader) (now : Int) :
    Fewer s { s with im := s.im.pingHandler head now } := by
  rw [Session.Store.pingHandler]
  cases hup : s.im.updateSessionData head.sid head.cid head.nid now with
  | error err => exact imClean_fewer s _ _ _
  | ok im =>
    rw [Session.Store.updateSessionData] at hup
    split at hup
    · cases hup
    split at hup
    · cases hup
    split at hup
    · cases hup
    cases hup
    exact ⟨fun _ _ => id, fun _ _ => id⟩

theorem imOnline_fewer (s : Store) (head : MesgHeader) (req : MesgOnline) (now : Int) :
    Fewer s { s with im := s.im.imOnlineHandler head req now false } :=
  fewer_of_erased (s.im.cleanConflict_erased head req)

/-- A login gives the session to its user, whoever had it before. -/
theorem imOnline_sessionOf (s : Store) (head : MesgHeader) (req : MesgOnline) (now : Int) :
    SessionOf { s with im := s.im.imOnlineHandler head req now true } uid sid →
      sid ≠ req.sid ∧ s.SessionOf uid sid ∨ sid = req.sid ∧ uid ≠ 0 ∧ parseInt req.uid = uid := by
  rintro ⟨huid, hattr⟩
  rcases eq_or_ne sid req.sid with rfl | hne
  · refine .inr ⟨rfl, huid, ?_⟩
    simpa [Session.Store.imOnlineHandler, Session.Store.updateOnlineData, Session.Store.getSidAttr] using hattr
  · refine .inl ⟨hne, (fewer_of_erased (s.im.cleanConflict_erased head req)).sessions uid sid ⟨huid, ?_⟩⟩
    simpa [Session.Store.imOnlineHandler, Session.Store.updateOnlineData, Session.Store.getSidAttr,
      Function.update_of_ne hne]
      using hattr

theorem imOnline_gives (s : Store) (head : MesgHeader) (req : MesgOnline) (now : Int) (huid : parseInt req.uid ≠ 0) :
    SessionOf { s with im := s.im.imOnlineHandler head req now true } (parseInt req.uid) req.sid := by
  refine ⟨huid, ?_⟩
  simp [Session.Store.imOnlineHandler, Session.Store.updateOnlineData, Session.Store.getSidAttr]

/-! ## ROOM-KICK -/

/-- A kick that is carried out. -/
def KickOk (s : Store) (head : MesgHeader) (req : MesgRoom) : Prop :=
  isValid head ∧ (s.room.getSidAttr head.sid).uid ∈ s.role req.rid

instance (s : Store) (head : MesgHeader) (req : MesgRoom) : Decidable (s.KickOk head req) :=
  inferInstanceAs (Decidable (_ ∧ _))

theorem isRoomManager_run (s : Store) (rid uid : BitVec 64) :
    (isRoomManager rid uid).run exec s = (decide (uid ∈ s.role rid), s) := by
  have hrole : uid ∈ s.role rid ↔ ((s.role rid).lookup uid).isSome := AList.lookup_isSome.symm
  simp only [isRoomManager, redo, Prog.issue_bind, Prog.ret_bind, Prog.run_issue, hrole]
  split
  · rename_i hnone
    rw [show (s.role rid).lookup uid = none from hnone]
    rfl
  · rename_i role hsome
    rw [show (s.role rid).lookup uid = some role from hsome, ite_self]
    rfl

theorem kick_run_ok (h : s.KickOk head req) : (chatRoomKickHandler head req).run exec s =
    (.ok (), { s with blacklist := put s.blacklist req.rid (insert req.uid) }) := by
  have hrole : decide ((exec (.hmget head.sid) s).1.uid ∈ s.role req.rid) = true := decide_eq_true h.2
  rw [chatRoomKickHandler, h.1, roomKickHandler]
  simp only [redo, Prog.issue_bind, Prog.ret_bind, Prog.run_issue, Prog.run_ite, Prog.run_bind]
  rw [show (exec (.hmget head.sid) s).2 = s from rfl, isRoomManager_run, hrole]
  rfl

theorem kick_run_refused (h : ¬s.KickOk head req) :
    ∃ err, (chatRoomKickHandler head req).run exec s = (.error err, s) := by
  rw [chatRoomKickHandler]
  split
  · exact ⟨_, rfl⟩
  · rename_i hvalid
    have hrole : decide ((exec (.hmget head.sid) s).1.uid ∈ s.role req.rid) = false :=
      decide_eq_false fun hmem => h ⟨by simpa using hvalid, hmem⟩
    simp only [roomKickHandler, redo, Prog.issue_bind, Prog.ret_bind, Prog.run_issue, Prog.run_ite, Prog.run_bind]
    rw [show (exec (.hmget head.sid) s).2 = s from rfl, isRoomManager_run, hrole]
    exact ⟨_, rfl⟩

/-! ## ROOM-CHAT -/

theorem roomSidInRoom_run (now : Int) (h : sid ∉ s.ridToSid rid) :
    (roomSidInRoom rid sid now).run exec s = (false, s) := by
  have hscore : (s.ridToSid rid).score sid = none := ZSet.score_eq_none.2 h
  simp [roomSidInRoom, redo, exec, hscore]

/-- Who is not in the room cannot chat in it. -/
theorem validateRoomChat_refused {req : MesgRoomChat} (now : Int) (h : head.sid ∉ s.ridToSid req.rid) :
    ∃ err, ((validateRoomChat head req now).run exec s).1 = .error err := by
  simp only [validateRoomChat, redo, Prog.issue_bind, Prog.ret_bind, Prog.run_issue, Prog.run_ite, Prog.run_pure,
    Prog.run_bind]
  rw [show (exec (.hmgetIm head.sid) s).2 = s from rfl, roomSidInRoom_run now h]
  split
  · exact ⟨_, rfl⟩
  split
  · exact ⟨_, rfl⟩
  split
  · exact ⟨_, rfl⟩
  split
  · exact ⟨_, rfl⟩
  split
  · exact ⟨_, rfl⟩
  · exact ⟨_, rfl⟩

end Store

/-! ## Runs -/

/-- The store, and by room who has been kicked out of it and is on the blacklist since. -/
structure World where
  store : Store
  kicked : BitVec 64 → Finset (BitVec 64)

namespace World

open Store

variable {w : World} {event : Event} {s' : Store} {rid uid : BitVec 64}

def init : World := ⟨.empty, fun _ => ∅⟩

/-- Who is kicked by an event. -/
def victim (w : World) (rid : BitVec 64) : Event → Finset (BitVec 64)
  | .kick head req => if w.store.KickOk head req ∧ rid = req.rid then {req.uid} else ∅
  | _ => ∅

def step (w : World) (event : Event) : Option World :=
  (w.store.step event).map fun s =>
    ⟨s, fun rid => (w.kicked rid ∪ w.victim rid event).filter fun uid => uid ∈ s.blacklist rid⟩

/-- Whoever has been kicked out of a room has no session in it, and cannot chat in it. -/
structure Out (w : World) : Prop where
  sids : ∀ rid, ∀ uid ∈ w.kicked rid, w.store.Without rid uid
  chats : ∀ rid, ∀ uid ∈ w.kicked rid, ∀ head (req : MesgRoomChat) now, w.store.SessionOf uid head.sid → req.rid = rid →
    ∃ err, ((validateRoomChat head req now).run exec w.store).1 = .error err

theorem out_iff : w.Out ↔ ∀ rid, ∀ uid ∈ w.kicked rid, w.store.Without rid uid := by
  constructor
  · exact Out.sids
  · intro h
    refine ⟨h, fun rid uid huid head req now hsid hreq => validateRoomChat_refused now ?_⟩
    exact hreq ▸ h rid uid huid head.sid hsid

/-- An event that keeps them out: a kick finds no session of the user in the room, a ping refreshes
no room its user has been kicked out of, and a login gives no session to a user who has been kicked
out of a room it is in. -/
def Keeps (w : World) : Event → Prop
  | .kick head req => w.store.KickOk head req → w.store.Without req.rid req.uid
  | .ping head _ _ => isValid head ∧ w.store.Accepts head →
    ∀ rid ∈ w.store.roomsOf head.sid, ∀ uid ∈ w.kicked rid, ¬w.store.SessionOf uid head.sid
  | .imOnline _ req _ seq =>
    seq → parseInt req.uid ≠ 0 → ∀ rid, parseInt req.uid ∈ w.kicked rid → req.sid ∉ w.store.ridToSid rid
  | _ => True

/-- The world after an event that leads to the store `s'`. -/
def after (w : World) (event : Event) (s' : Store) : World :=
  ⟨s', fun rid => (w.kicked rid ∪ w.victim rid event).filter fun uid => uid ∈ s'.blacklist rid⟩

theorem step_eq (h : w.store.step event = some s') : w.step event = some (w.after event s') := by
  rw [step, h]
  rfl

theorem mem_after : uid ∈ (w.after event s').kicked rid ↔ (uid ∈ w.kicked rid ∨ uid ∈ w.victim rid event) ∧
    uid ∈ s'.blacklist rid := by
  rw [after, Finset.mem_filter, Finset.mem_union]

/-- No one is in the rooms anew, and no one is kicked: whoever is out stays out. -/
theorem after_out (hw : w.Out) (hvictim : ∀ rid, w.victim rid event = ∅) (h : Fewer w.store s') :
    (w.after event s').Out := by
  refine out_iff.2 fun rid uid huid => h.without (hw.sids rid uid ?_)
  simpa [hvictim] using (mem_after.1 huid).1

theorem kick_out_iff {head : MesgHeader} {req : MesgRoom} (hw : w.Out) :
    (w.after (.kick head req) ((chatRoomKickHandler head req).run exec w.store).2).Out ↔ w.Keeps (.kick head req) := by
  by_cases hok : w.store.KickOk head req
  · rw [kick_run_ok hok, Keeps, out_iff]
    constructor
    · intro h _
      refine h req.rid req.uid (mem_after.2 ⟨.inr ?_, ?_⟩)
      · rw [victim, if_pos ⟨hok, rfl⟩]
        exact Finset.mem_singleton_self _
      · simp
    · intro h rid uid huid
      rcases (mem_after.1 huid).1 with hold | hnew
      · exact hw.sids rid uid hold
      · rw [victim] at hnew
        split at hnew
        · rename_i hvictim
          rw [Finset.mem_singleton] at hnew
          rw [hnew, hvictim.2]
          exact h hok
        · exact absurd hnew (Finset.notMem_empty uid)
  · obtain ⟨err, hrun⟩ := kick_run_refused hok
    rw [hrun]
    refine iff_of_true (after_out hw (fun rid => ?_) (.refl _)) fun h => absurd h hok
    rw [victim, if_neg fun h => hok h.1]

theorem ping_out_iff {head : MesgHeader} {now now' : Int} (hw : w.Out)
    (hbl : ∀ rid, w.kicked rid ⊆ w.store.blacklist rid) :
    (w.after (.ping head now now') ((chatRoomPingHandler head now now').run exec w.store).2).Out ↔
    w.Keeps (.ping head now now') := by
  by_cases hok : isValid head ∧ w.store.Accepts head
  · obtain ⟨s', room, href, hrun⟩ := ping_of_accepts now now' hok.1 hok.2
    rw [hrun, Keeps, out_iff]
    constructor
    · intro h _ rid hrid uid huid hsid
      refine h rid uid (mem_after.2 ⟨.inl huid, ?_⟩) head.sid ?_ ((href.ridToSid rid head.sid).2 (.inr ⟨rfl, hrid⟩))
      · rw [href.rest]
        exact hbl rid huid
      · rw [href.rest]
        exact hsid
    · intro h rid uid huid sid hsid hmem
      have hold : uid ∈ w.kicked rid := by simpa [victim] using (mem_after.1 huid).1
      rw [href.rest] at hsid
      rcases (href.ridToSid rid sid).1 hmem with hmem | ⟨rfl, hrid⟩
      · exact hw.sids rid uid hold sid hsid hmem
      · exact h hok rid hrid uid hold hsid
  · exact iff_of_true (after_out hw (fun _ => rfl) (ping_fewer now now' hok)) fun h => absurd h hok

theorem imOnline_out_iff {head : MesgHeader} {req : MesgOnline} {now : Int} {seq : Bool} (hw : w.Out)
    (hbl : ∀ rid, w.kicked rid ⊆ w.store.blacklist rid) :
    (w.after (.imOnline head req now seq) { w.store with im := w.store.im.imOnlineHandler head req now seq }).Out ↔
      w.Keeps (.imOnline head req now seq) := by
  cases seq with
  | false => exact iff_of_true (after_out hw (fun _ => rfl) (imOnline_fewer _ head req now)) fun h => by cases h
  | true =>
    rw [Keeps, out_iff]
    constructor
    · intro h _ huid rid hkicked
      exact h rid _ (mem_after.2 ⟨.inl hkicked, hbl rid hkicked⟩) req.sid (imOnline_gives _ head req now huid)
    · intro h rid uid huid sid hsid hmem
      have hold : uid ∈ w.kicked rid := by simpa [victim] using (mem_after.1 huid).1
      rcases imOnline_sessionOf w.store head req now hsid with ⟨-, hsid⟩ | ⟨rfl, huid, rfl⟩
      · exact hw.sids rid uid hold sid hsid hmem
      · exact h rfl huid rid hold hmem

theorem join_out {head : MesgHeader} {req : MesgRoom} {now now' : Int} (hw : w.Out)
    (hbl : ∀ rid, w.kicked rid ⊆ w.store.blacklist rid) :
    (w.after (.join head req now now') ((chatRoomJoinHandler head req now now').run exec w.store).2).Out := by
  rcases join_run w.store head req now now' with hsame | ⟨⟨huid, hattr, -⟩, hnot, gid, hrun⟩
  · rw [hsame]
    exact after_out hw (fun _ => rfl) (.refl _)
  · rw [hrun, out_iff]
    intro rid uid hkicked sid hsid hmem
    have hold : uid ∈ w.kicked rid := by simpa [victim] using (mem_after.1 hkicked).1
    rcases mem_put_add.1 hmem with hmem | ⟨rfl, rfl⟩
    · exact hw.sids rid uid hold sid hsid hmem
    · -- the session is one of the user of the request, who is not on the blacklist
      obtain rfl : req.uid = uid := hattr.symm.trans hsid.2
      exact hnot (hbl _ hold)

theorem step_out_iff (hw : w.Out) (hbl : ∀ rid, w.kicked rid ⊆ w.store.blacklist rid) (event : Event) :
    ∃ w', w.step event = some w' ∧ (w'.Out ↔ w.Keeps event) ∧ ∀ rid, w'.kicked rid ⊆ w'.store.blacklist rid := by
  suffices h : ∃ s', w.store.step event = some s' ∧ ((w.after event s').Out ↔ w.Keeps event) by
    obtain ⟨s', hs', hout⟩ := h
    exact ⟨_, step_eq hs', hout, fun rid uid huid => (mem_after.1 huid).2⟩
  have hquiet : ∀ {s'}, Fewer w.store s' → (∀ rid, w.victim rid event = ∅) → (w.Keeps event ↔ True) →
      ((w.after event s').Out ↔ w.Keeps event) :=
    fun hf hv hk => iff_of_true (after_out hw hv hf) (hk.2 trivial)
  cases event with
  | imOnline head req now seq => exact ⟨_, rfl, imOnline_out_iff hw hbl⟩
  | imPing head now => exact ⟨_, rfl, hquiet (imPing_fewer _ head now) (fun _ => rfl) Iff.rfl⟩
  | imOffline head => exact ⟨_, rfl, hquiet (imClean_fewer _ _ _ _) (fun _ => rfl) Iff.rfl⟩
  | imSweep ctm =>
    obtain ⟨im, him, herased⟩ := w.store.im.cleanSidZset_erased ctm
    exact ⟨_, by rw [Store.step, him]; rfl, hquiet (fewer_of_erased herased) (fun _ => rfl) Iff.rfl⟩
  | online head req now =>
    exact ⟨_, rfl, hquiet (run_fewer ((onlineHandler_aside head req now).mono aside_quiet) _)
      (fun _ => rfl) Iff.rfl⟩
  | ping head now now' => exact ⟨_, rfl, ping_out_iff hw hbl⟩
  | offline head =>
    exact ⟨_, rfl, hquiet (run_fewer ((chatRoomOfflineHandler_aside head).mono aside_quiet) _)
      (fun _ => rfl) Iff.rfl⟩
  | create rid uid now =>
    exact ⟨_, rfl, hquiet (run_fewer (roomCreateHandler_quiet rid uid now) _) (fun _ => rfl) Iff.rfl⟩
  | join head req now now' => exact ⟨_, rfl, iff_of_true (join_out hw hbl) trivial⟩
  | quit head req =>
    exact ⟨_, rfl, hquiet (run_fewer ((chatRoomQuitHandler_aside head req).mono aside_quiet) _)
      (fun _ => rfl) Iff.rfl⟩
  | kick head req => exact ⟨_, rfl, kick_out_iff hw⟩
  | dismiss head req now =>
    exact ⟨_, rfl, hquiet (run_fewer ((chatRoomDismissHandler_ordinary head req now).mono ordinary_quiet) _)
      (fun _ => rfl) Iff.rfl⟩
  | closeRoom rid now =>
    exact ⟨_, rfl, hquiet (run_fewer ((dismissRoomByRid_ordinary rid now).mono ordinary_quiet) _)
      (fun _ => rfl) Iff.rfl⟩
  | setBlacklist rid uid add =>
    exact ⟨_, rfl, hquiet (run_fewer ((setBlacklist_aside rid uid add).mono aside_quiet) _)
      (fun _ => rfl) Iff.rfl⟩
  | cleanRidSet ctm =>
    obtain ⟨s', hs', hf⟩ := cleanRidSet_fewer w.store ctm
    exact ⟨s', hs', hquiet hf (fun _ => rfl) Iff.rfl⟩

/-- After every event of a run, whoever has been kicked is out. -/
def AllOut : World → List Event → Prop
  | _, [] => True
  | w, event :: events => ∃ w', w.step event = some w' ∧ w'.Out ∧ w'.AllOut events

/-- The world after an event -/
def next (w : World) (event : Event) : World := (w.step event).getD w

theorem allOut_iff (events : List Event) : ∀ {w : World}, w.Out → (∀ rid, w.kicked rid ⊆ w.store.blacklist rid) →
    (w.AllOut events ↔ Guarded next Keeps w events) := by
  induction events with
  | nil => exact fun _ _ => Iff.rfl
  | cons event events ih =>
    intro w hw hbl
    obtain ⟨w', hstep, hout, hbl'⟩ := step_out_iff hw hbl event
    have hnext : w.next event = w' := by rw [next, hstep, Option.getD_some]
    simp only [AllOut, Guarded, hnext, hstep, Option.some.injEq, exists_eq_left']
    rw [← hout]
    exact and_congr_right fun h => ih h hbl'

theorem init_out : init.Out := out_iff.2 fun _ _ h => absurd h (Finset.notMem_empty _)

/-- Users who have been kicked stay out over a run exactly when no event of it finds them inside or
lets a session of theirs back in. -/
theorem kicked_out_iff (events : List Event) : init.AllOut events ↔ Guarded next Keeps init events :=
  allOut_iff events init_out fun _ => Finset.empty_subset _

/-- The user 5 in the room 1 of the user 7 -/
def inside : List Event :=
  [.imOnline ⟨8, 8, 1⟩ ⟨7, 8⟩ 0 true, .online ⟨8, 8, 1⟩ ⟨7, 8⟩ 0, .create 1 7 0, .imOnline ⟨9, 9, 1⟩ ⟨5, 9⟩ 0 true,
    .online ⟨9, 9, 1⟩ ⟨5, 9⟩ 0, .join ⟨9, 9, 1⟩ ⟨5, 1⟩ 0 0]

/-- A user who is not in the room by then -/
example : init.AllOut (inside ++ [.offline ⟨9, 9, 1⟩, .kick ⟨8, 8, 1⟩ ⟨5, 1⟩]) := by
  refine (allOut_iff _ init_out fun _ => Finset.empty_subset _).2
    ⟨fun _ _ _ h => absurd h (Finset.notMem_empty _), trivial, trivial, fun _ _ _ h => absurd h (Finset.notMem_empty _),
    trivial, trivial, trivial, fun _ sid _ hmem => ?_, trivial⟩
  exact List.not_mem_nil (a := sid) hmem

/-- A user who is kicked stays in the room. -/
theorem kick_keeps_session : ¬∀ events, init.AllOut events := by
  intro h
  obtain ⟨-, -, -, -, -, -, hkick, -⟩ :=
    (allOut_iff _ init_out fun _ => Finset.empty_subset _).1 (h (inside ++ [.kick ⟨8, 8, 1⟩ ⟨5, 1⟩]))
  exact hkick (by decide) 9 ⟨by decide, by decide⟩ (by decide)

end World

end BeehiveIm.Room
