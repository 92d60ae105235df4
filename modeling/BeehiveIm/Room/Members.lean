/-
The two sides of the membership of rooms: the rooms of a session (`ROOM_KEY_SID_TO_RID_ZSET`) and
the sessions of a room (`ROOM_KEY_RID_TO_SID_ZSET`). A session of a room always lists the room, so a
clean-up takes a session out of every room and a ping puts it back in those it lists. The other way
round is lost by a quit and by a dismissal, which write the sessions of the room only.
-/
import BeehiveIm.Room.OpenState
import BeehiveIm.Room.Sweeps
import BeehiveIm.Lib.Roll

namespace BeehiveIm.Room

open BeehiveIm.Lib
open BeehiveIm.Session (MesgHeader MesgOnline chatSidTtl chatBatNum parseInt)

namespace Store

variable {s s' t : Store} {uid sid rid : BitVec 64} {head : MesgHeader} {req : MesgRoom}

/-! ## The roll -/

abbrev Op := Roll.Op (BitVec 64) (BitVec 64)

/-- Which rooms a session lists, and which sessions a room has. -/
def roll (s : Store) : Roll (BitVec 64) (BitVec 64) :=
  ⟨fun sid => {rid | rid ∈ s.sidToRid sid}, fun rid => {sid | sid ∈ s.ridToSid rid}⟩

/-- A clean-up that names the session as it is. -/
def Owned (s : Store) (sid cid : BitVec 64) (nid : BitVec 32) : Prop :=
  (s.room.getSidAttr sid).cid = cid ∧ (s.room.getSidAttr sid).nid = nid ∧ (s.room.attr sid).isSome

open Classical in
/-- What a clean-up does to the roll. -/
noncomputable def cleanOps (s : Store) (sid cid : BitVec 64) (nid : BitVec 32) : List Op :=
  if s.Owned sid cid nid then [.leave sid] else []

open Classical in
/-- What an event does to the roll. -/
noncomputable def ops (s : Store) : Event → List Op
  | .online head req _ =>
    let attr := s.room.getSidAttr req.sid
    if Session.Store.conflict attr head req then s.cleanOps head.sid attr.cid attr.nid else []
  | .ping head _ _ =>
    if ¬isValid head then []
    else if s.Accepts head then [.refresh head.sid] else s.cleanOps head.sid head.cid head.nid
  | .offline head => if isValid head then s.cleanOps head.sid head.cid head.nid else []
  | .join head req now _ =>
    if isValid head ∧ s.Joins head req now ∧ req.uid ∉ s.blacklist req.rid then [.enter head.sid req.rid] else []
  | .quit head req => if isValid head ∧ req.uid ≠ 0 ∧ req.rid ≠ 0 then [.quit head.sid req.rid] else []
  | .dismiss head req now => if s.Dismisses head req now then [.empty req.rid] else []
  | .closeRoom rid now => if s.Closes rid now then [.empty rid] else []
  | _ => []

/-- The sweep closes rooms, however many. -/
def Does (s : Store) : Event → List Op → Prop
  | .cleanRidSet _, ops => ∀ op ∈ ops, ∃ rid, op = .close rid
  | event, ops => ops = s.ops event

/-- Rooms have rows, whose ids read back as they are. -/
structure Kept (s : Store) : Prop where
  rows : ∀ rid, (s.info rid).isSome → rid.toNat < 2 ^ 63
  listed : ∀ sid, ∀ rid ∈ s.roll.listed sid, (s.info rid).isSome

/-- The operations lead from one roll to the other. -/
structure Led (s : Store) (ops : List Op) (s' : Store) : Prop where
  leads : s'.roll = ops.foldl (Roll.apply parseInt) s.roll
  kept : s'.Kept

theorem roll_ext {R : Roll (BitVec 64) (BitVec 64)} (hlisted : ∀ sid rid, rid ∈ s.sidToRid sid ↔ rid ∈ R.listed sid)
    (hmembers : ∀ rid sid, sid ∈ s.ridToSid rid ↔ sid ∈ R.members rid) : s.roll = R := by
  apply Roll.ext
  · funext sid
    exact Set.ext (hlisted sid)
  · funext rid
    exact Set.ext (hmembers rid)

theorem Led.of_info (h : s.Kept) {ops : List Op} (hinfo : s'.info = s.info)
    (hroll : s'.roll = ops.foldl (Roll.apply parseInt) s.roll)
    (hops : ∀ op ∈ ops, ∀ sid rid, op = Roll.Op.enter sid rid → (s.info rid).isSome) : s.Led ops s' := by
  refine ⟨hroll, ?_, ?_⟩
  · rw [hinfo]
    exact h.rows
  · rw [hroll, hinfo]
    exact Roll.listed_foldl (fun rid => (s.info rid).isSome) h.listed ops hops

theorem Led.stay (h : s.Kept) (hinfo : s'.info = s.info) (hsid : s'.sidToRid = s.sidToRid)
    (hrid : s'.ridToSid = s.ridToSid) : s.Led [] s' := by
  have hroll : s'.roll = s.roll := by
    rw [roll, hsid, hrid]
    rfl
  exact .of_info h hinfo hroll fun op hop => absurd hop List.not_mem_nil

theorem Kept.mem_roomsOf (h : s.Kept) : rid ∈ s.roomsOf sid ↔ rid ∈ s.sidToRid sid := by
  have hself : ∀ r ∈ s.sidToRid sid, parseInt r = r := fun r hr => (parseInt_eq_self r).2 (h.rows r (h.listed sid r hr))
  rw [roomsOf, List.mem_map, ZSet.exists_range_all fun r => parseInt r = rid]
  constructor
  · rintro ⟨r, hr, rfl⟩
    rwa [hself r hr]
  · exact fun hr => ⟨rid, hr, hself rid hr⟩

/-! ## Sessions that leave, and that are refreshed -/

theorem leave_led (h : s.Kept) (room : Session.Store) (hc : Cleaned uid sid (s.roomsOf sid) s t) :
    s.Led [.leave sid] { t with sidToRid := put t.sidToRid sid fun _ => ∅, room := room } := by
  apply Led.of_info h
  · change t.info = s.info
    rw [hc.rest]
  · apply roll_ext
    · intro x r
      change r ∈ put t.sidToRid sid (fun _ => ∅) x ↔ _
      rw [mem_put_empty, hc.rest]
      rfl
    · intro r x
      refine (hc.ridToSid r x).trans ?_
      rw [h.mem_roomsOf]
      rfl
  · intro op hop x r heq
    rw [List.mem_singleton.1 hop] at heq
    cases heq

theorem clean_led (h : s.Kept) (sid cid : BitVec 64) (nid : BitVec 32) :
    s.Led (s.cleanOps sid cid nid) ((roomCleanSessionData sid cid nid).run exec s).2 := by
  rw [cleanOps, roomCleanSessionData, redo, Prog.issue_bind, Prog.run_issue]
  change s.Led _ ((if (s.room.getSidAttr sid).cid ≠ cid ∨ (s.room.getSidAttr sid).nid ≠ nid then _
    else _ : Redis _).run exec s).2
  by_cases hother : (s.room.getSidAttr sid).cid ≠ cid ∨ (s.room.getSidAttr sid).nid ≠ nid
  · rw [if_pos hother, if_neg fun ho : s.Owned sid cid nid => hother.elim (fun h => h ho.1) fun h => h ho.2.1]
    exact .stay h rfl rfl rfl
  · obtain ⟨hcid, hnid⟩ := not_or.1 hother
    rw [if_neg hother]
    simp only [redo, Prog.issue_bind, Prog.ret_bind, Prog.run_issue, Prog.run_ite]
    cases hattr : s.room.attr sid with
    | none =>
      have hnot : ¬s.Owned sid cid nid := by
        rintro ⟨-, -, hsome⟩
        rw [hattr] at hsome
        cases hsome
      have hdel : ¬(exec (.delAttr sid) s).1 = true := by simp [exec, hattr]
      rw [if_neg hnot, if_neg hdel]
      exact .stay h rfl rfl rfl
    | some attr =>
      have hyes : s.Owned sid cid nid := ⟨not_not.1 hcid, not_not.1 hnid, by rw [hattr]; rfl⟩
      have hdel : (exec (.delAttr sid) s).1 = true := by simp [exec, hattr]
      rw [if_pos hyes, if_pos hdel, Prog.run_bind]
      -- the attributes of the session are gone by then, and its rooms are as they were
      obtain ⟨t, hclean, hrun⟩ := roomCleanBySid_run (exec (.delAttr sid) s).2 (s.room.getSidAttr sid).uid sid
      have hkept : (exec (.delAttr sid) s).2.Kept := ⟨h.rows, h.listed⟩
      have hled := leave_led hkept { t.room with sidZset := t.room.sidZset.rem sid } hclean
      have hend : ((roomCleanBySid (s.room.getSidAttr sid).uid sid).run exec (exec (.delAttr sid) s).2).2 =
        { t with sidToRid := put t.sidToRid sid fun _ => ∅ } := hrun
      change s.Led _ (exec (.zremSidZset sid) ((roomCleanBySid (s.room.getSidAttr sid).uid sid).run exec
        (exec (.delAttr sid) s).2).2).2
      rw [hend]
      exact ⟨hled.leads, hled.kept⟩

theorem update_led (h : s.Kept) (uid sid : BitVec 64) (nid : BitVec 32) (cid : BitVec 64) (now : Int) :
    s.Led [] ((updateOnlineData uid sid nid cid now).run exec s).2 := .stay h rfl rfl rfl

theorem refresh_led (h : s.Kept) {room : Session.Store} (hr : Refreshed uid sid (s.roomsOf sid) s t) :
    s.Led [.refresh sid] { t with room := room } := by
  apply Led.of_info h
  · change t.info = s.info
    rw [hr.rest]
  · apply roll_ext
    · intro x r
      change r ∈ t.sidToRid x ↔ _
      rw [hr.rest]
      rfl
    · intro r x
      refine (hr.ridToSid r x).trans ?_
      rw [h.mem_roomsOf]
      rfl
  · intro op hop x r heq
    rw [List.mem_singleton.1 hop] at heq
    cases heq

/-! ## Rooms that are left -/

theorem empty_led (h : s.Kept) {rid : BitVec 64} {info : RoomInfo} {now : Int} (hinfo : s.info rid = some info) :
    s.Led [.empty rid] (s.withoutRoom rid info now) := by
  have hrows : ∀ r, ((s.withoutRoom rid info now).info r).isSome ↔ (s.info r).isSome := by
    intro r
    change ((put s.info rid fun _ => some (info.close now)) r).isSome ↔ _
    rw [put_apply]
    split
    · rename_i hr
      rw [hr, hinfo]
      exact iff_of_true rfl rfl
    · exact Iff.rfl
  refine ⟨?_, fun r hr => h.rows r ((hrows r).1 hr), fun x r hr => (hrows r).2 (h.listed x r hr)⟩
  apply roll_ext
  · exact fun _ _ => Iff.rfl
  · intro r x
    exact mem_put_empty

theorem expired_led (h : s.Kept) (hexp : Expired rid s t) : s.Led [.close rid] t := by
  apply Led.of_info h hexp.info
  · exact roll_ext hexp.sidToRid hexp.ridToSid
  · intro op hop x r heq
    rw [List.mem_singleton.1 hop] at heq
    cases heq

theorem Led.trans {ops ops' : List Op} (h : s.Led ops t) (h' : t.Led ops' s') : s.Led (ops ++ ops') s' :=
  ⟨by rw [h'.leads, h.leads, List.foldl_append], h'.kept⟩

theorem cleanRidSet_led (h : s.Kept) (ctm : Int) :
    ∃ s' ops, s.cleanRidSet ctm = some s' ∧ (∀ op ∈ ops, ∃ rid, op = Roll.Op.close rid) ∧ s.Led ops s' := by
  obtain ⟨s', hs'⟩ := cleanRidSet_total s ctm
  let Closed : Store → Prop := fun t => ∃ ops, (∀ op ∈ ops, ∃ rid, op = Roll.Op.close rid) ∧ s.Led ops t
  have hclosed : Closed s' := by
    refine paged_keeps Closed (fun t off ht => ?_) _ _ _ _ ⟨[], ?_, .stay h rfl rfl rfl⟩ hs'
    · refine foldl_cleanByRid Closed (fun u v rid hu hv => ?_) _ t ht
      obtain ⟨ops, hops, hled⟩ := hu
      refine ⟨ops ++ [.close rid], fun op hop => ?_, hled.trans (expired_led hled.kept hv)⟩
      rcases List.mem_append.1 hop with hop | hop
      · exact hops op hop
      · exact ⟨rid, List.mem_singleton.1 hop⟩
    · exact fun op hop => absurd hop List.not_mem_nil
  obtain ⟨ops, hops, hled⟩ := hclosed
  exact ⟨s', ops, hs', hops, hled⟩

/-! ## Events -/

theorem join_led (h : s.Kept) (head : MesgHeader) (req : MesgRoom) (now now' : Int) :
    s.Led (s.ops (.join head req now now')) ((chatRoomJoinHandler head req now now').run exec s).2 := by
  rw [ops]
  split
  · rename_i hj
    obtain ⟨gid, s', hrun, hne⟩ := join_outcome now' hj.1 hj.2.1 hj.2.2
    rcases join_run s head req now now' with hsame | ⟨⟨-, -, hrow⟩, -, gid', hent⟩
    · rw [hrun] at hsame
      exact absurd hsame hne
    rw [hent]
    apply Led.of_info h
    · rfl
    · apply roll_ext
      · intro x r
        refine mem_put_add.trans ?_
        rw [and_comm]
        rfl
      · exact fun _ _ => mem_put_add
    · intro op hop x r heq
      rw [List.mem_singleton.1 hop] at heq
      cases heq
      exact hrow
  · rename_i hj
    obtain ⟨err, hrun⟩ : ∃ err, (chatRoomJoinHandler head req now now').run exec s = (.error err, s) := join_refused hj
    rw [hrun]
    exact .stay h rfl rfl rfl

theorem close_led (h : s.Kept) {P : Prop} {_ : Decidable P} {rid : BitVec 64} (now : Int) {p : Redis (Except String Unit)}
    (hyes : P → ∃ info, s.info rid = some info ∧ p.run exec s = (.ok (), s.withoutRoom rid info now))
    (hno : ¬P → ∃ err, p.run exec s = (.error err, s)) : s.Led (if P then [.empty rid] else []) (p.run exec s).2 := by
  split
  · rename_i hP
    obtain ⟨info, hinfo, hrun⟩ := hyes hP
    rw [hrun]
    exact empty_led h hinfo
  · rename_i hP
    obtain ⟨err, hrun⟩ := hno hP
    rw [hrun]
    exact .stay h rfl rfl rfl

theorem create_led (h : s.Kept) (rid uid : BitVec 64) (now : Int) :
    s.Led [] ((roomCreateHandler rid uid now).run exec s).2 := by
  by_cases hins : insertable s rid uid
  · have hstate : ∃ role, ((roomCreateHandler rid uid now).run exec s).2 =
        { s.withRow rid uid now with role := role } := by
      rw [roomCreateHandler, redo, Prog.issue_bind, Prog.run_issue, insertInfo_eq, if_pos hins]
      simp only [redo, Prog.issue_bind, Prog.ret_bind, Prog.run_issue, Bool.not_true, Bool.false_eq_true, if_false,
        exec]
      split
      · exact ⟨_, rfl⟩
      · exact ⟨_, rfl⟩
    obtain ⟨role, hstate⟩ := hstate
    rw [hstate]
    have hnew : ∀ r, (put s.info rid (fun _ => some ⟨roomStatOpen, uid, now⟩) r).isSome ↔
        r = rid ∨ (s.info r).isSome := by
      intro r
      rw [put_apply]
      split
      · rename_i hr
        exact iff_of_true rfl (.inl hr)
      · rename_i hr
        exact ⟨.inr, fun hr' => hr'.resolve_left hr⟩
    refine ⟨rfl, fun r hr => ?_, fun x r hr => (hnew r).2 (.inr (h.listed x r hr))⟩
    rcases (hnew r).1 hr with rfl | hr
    · exact (of_decide_eq_true hins).1
    · exact h.rows r hr
  · obtain ⟨err, hrun⟩ := create_refused now hins
    rw [hrun]
    exact .stay h rfl rfl rfl

/-- Every event does to the two keys what its operations do to the roll. -/
theorem step_led (h : s.Kept) (event : Event) : ∃ s' ops, s.step event = some s' ∧ s.Does event ops ∧ s.Led ops s' := by
  cases event with
  | imOnline head req now seq | imPing head now | imOffline head => exact ⟨_, _, rfl, rfl, .stay h rfl rfl rfl⟩
  | imSweep ctm =>
    obtain ⟨im, him, -⟩ := s.im.cleanSidZset_erased ctm
    refine ⟨{ s with im := im }, [], ?_, rfl, .stay h rfl rfl rfl⟩
    rw [step, him]
    rfl
  | online head req now =>
    refine ⟨_, _, rfl, rfl, ?_⟩
    rw [ops, onlineHandler, redo, Prog.issue_bind, Prog.run_issue]
    change s.Led _ ((if Session.Store.conflict (s.room.getSidAttr req.sid) head req = true then _
      else _ : Redis _).run exec s).2
    dsimp only
    split
    · have hclean := clean_led h head.sid (s.room.getSidAttr req.sid).cid (s.room.getSidAttr req.sid).nid
      rw [Prog.run_bind, ← List.append_nil (cleanOps ..)]
      exact hclean.trans (update_led hclean.kept _ _ _ _ _)
    · exact update_led h _ _ _ _ _
  | ping head now now' =>
    refine ⟨_, _, rfl, rfl, ?_⟩
    rw [ops]
    split
    · rename_i hvalid
      rw [ping_of_not_valid s now now' hvalid]
      exact .stay h rfl rfl rfl
    · rename_i hvalid
      have hvalid := not_not.1 hvalid
      split
      · rename_i haccepts
        obtain ⟨t, room, hr, hrun⟩ := ping_of_accepts now now' hvalid haccepts
        rw [hrun]
        exact refresh_led h hr
      · rename_i haccepts
        rw [ping_of_not_accepts now now' hvalid haccepts]
        exact clean_led h _ _ _
  | offline head =>
    refine ⟨_, _, rfl, rfl, ?_⟩
    rw [ops, chatRoomOfflineHandler]
    split
    · rename_i hvalid
      rw [hvalid]
      exact clean_led h _ _ _
    · rename_i hvalid
      rw [Bool.eq_false_of_not_eq_true hvalid]
      exact .stay h rfl rfl rfl
  | create rid uid now => exact ⟨_, _, rfl, rfl, create_led h rid uid now⟩
  | join head req now now' => exact ⟨_, _, rfl, rfl, join_led h head req now now'⟩
  | quit head req =>
    refine ⟨_, _, rfl, rfl, ?_⟩
    rw [ops]
    split
    · rename_i hq
      rw [quit_outcome hq.1 hq.2.1 hq.2.2]
      apply Led.of_info h
      · rfl
      · apply roll_ext
        · exact fun _ _ => Iff.rfl
        · exact fun _ _ => mem_put_rem
      · intro op hop x r heq
        rw [List.mem_singleton.1 hop] at heq
        cases heq
    · rename_i hq
      obtain ⟨err, hrun⟩ := quit_refused hq
      rw [hrun]
      exact .stay h rfl rfl rfl
  | kick head req =>
    refine ⟨_, _, rfl, rfl, ?_⟩
    by_cases hok : s.KickOk head req
    · rw [kick_run_ok hok]
      exact .stay h rfl rfl rfl
    · obtain ⟨err, hrun⟩ := kick_run_refused hok
      rw [hrun]
      exact .stay h rfl rfl rfl
  | dismiss head req now =>
    refine ⟨_, _, rfl, rfl, close_led h now (fun hd => ?_) fun hd => ?_⟩
    · obtain ⟨info, hinfo, hne⟩ := hd.closes
      obtain ⟨-, s', hok, -⟩ := (s.dismiss_outcome head req now).resolve_right fun hno => hno.1 hd
      rcases s.dismiss_run head req now with ⟨err, herr⟩ | hrun
      · cases hok.symm.trans herr
      · exact ⟨info, hinfo, hrun.trans (dismissRoomByRid_run hinfo hne)⟩
    · exact ((s.dismiss_outcome head req now).resolve_left fun hyes => hd hyes.1).2
  | closeRoom rid now =>
    refine ⟨_, _, rfl, rfl, close_led h now (fun hc => ?_) dismissRoomByRid_of_not_closes⟩
    obtain ⟨info, hinfo, hne⟩ := hc
    exact ⟨info, hinfo, dismissRoomByRid_run hinfo hne⟩
  | setBlacklist rid uid add =>
    refine ⟨_, _, rfl, rfl, ?_⟩
    rw [Room.setBlacklist]
    split
    · cases add with
      | true => exact .stay h rfl rfl rfl
      | false => exact .stay h rfl rfl rfl
    · exact .stay h rfl rfl rfl
  | cleanRidSet ctm =>
    obtain ⟨s', ops, hs', hops, hled⟩ := cleanRidSet_led h ctm
    exact ⟨s', ops, hs', hops, hled⟩

/-! ## Runs -/

theorem empty_kept : Store.empty.Kept :=
  ⟨fun _ h => absurd h Bool.false_ne_true, fun _ _ h => absurd h List.not_mem_nil⟩

theorem empty_exact : Store.empty.roll.Exact :=
  fun _ _ => iff_of_false List.not_mem_nil List.not_mem_nil

/-- In every run the members of a room list it. -/
theorem run_covered (events : List Event) :
    ∃ s, events.foldlM step .empty = some s ∧ s.Kept ∧ s.roll.Covered := by
  refine run_invariant step (fun _ _ => True) (fun s => s.Kept ∧ s.roll.Covered) (fun s event hs _ => ?_) events .empty
    ⟨empty_kept, empty_exact.covered⟩ (guarded_true events _)
  obtain ⟨s', ops, hstep, -, hled⟩ := step_led hs.1 event
  refine ⟨s', hstep, hled.kept, ?_⟩
  rw [hled.leads]
  exact hs.2.foldl ops

/-- After any run, a session that goes offline is in no room and lists none, and one whose ping is
accepted is in the rooms that it lists and in no others. -/
theorem session_rooms (events : List Event) : ∃ s, events.foldlM step .empty = some s ∧
    (∀ rid sid, sid ∈ s.ridToSid rid → rid ∈ s.sidToRid sid) ∧
    (∀ head, isValid head → s.Owned head.sid head.cid head.nid → ∀ rid,
      head.sid ∉ ((chatRoomOfflineHandler head).run exec s).2.ridToSid rid ∧
        rid ∉ ((chatRoomOfflineHandler head).run exec s).2.sidToRid head.sid) ∧
    ∀ head now now', isValid head → s.Accepts head → ∀ rid,
      head.sid ∈ ((chatRoomPingHandler head now now').run exec s).2.ridToSid rid ↔
        rid ∈ ((chatRoomPingHandler head now now').run exec s).2.sidToRid head.sid := by
  obtain ⟨s, hrun, hkept, hcovered⟩ := run_covered events
  refine ⟨s, hrun, fun rid sid => hcovered sid rid, fun head hvalid howned => ?_,
    fun head now now' hvalid haccepts => ?_⟩
  · obtain ⟨s', ops, hstep, hdoes, hled⟩ := step_led hkept (.offline head)
    obtain rfl := Option.some.inj hstep
    rw [hdoes, Store.ops, if_pos hvalid, cleanOps, if_pos howned] at hled
    intro rid
    change head.sid ∉ (Store.roll _).members rid ∧ rid ∉ (Store.roll _).listed head.sid
    rw [hled.leads]
    exact hcovered.leave parseInt head.sid rid
  · obtain ⟨s', ops, hstep, hdoes, hled⟩ := step_led hkept (.ping head now now')
    obtain rfl := Option.some.inj hstep
    rw [hdoes, Store.ops, if_neg (not_not.2 hvalid), if_pos haccepts] at hled
    intro rid
    change head.sid ∈ (Store.roll _).members rid ↔ rid ∈ (Store.roll _).listed head.sid
    rw [hled.leads]
    exact hcovered.refresh parseInt head.sid rid

/-- An event that takes no session out of a room that it lists still. -/
def Even (s : Store) : Event → Prop
  | .quit head req => isValid head → req.uid ≠ 0 → req.rid ≠ 0 → head.sid ∉ s.ridToSid req.rid
  | .dismiss head req now => s.Dismisses head req now → ∀ sid, sid ∉ s.ridToSid req.rid
  | .closeRoom rid now => s.Closes rid now → ∀ sid, sid ∉ s.ridToSid rid
  | _ => True

/-- A session that joins has an id that reads back as it is. -/
def JoinsSmall : Event → Prop
  | .join head _ _ _ => head.sid.toNat < 2 ^ 63
  | _ => True

theorem exact_ite_iff (hexact : s.roll.Exact) {P : Prop} {_ : Decidable P} (op : Op) :
    ((if P then [op] else []).foldl (Roll.apply parseInt) s.roll).Exact ↔ (P → s.roll.Balanced parseInt op) := by
  split
  · rename_i hP
    exact (hexact.apply_iff op).trans ⟨fun h _ => h, fun h => h hP⟩
  · rename_i hP
    exact iff_of_true hexact fun h => absurd h hP

theorem plain_ite (hplain : s.roll.Plain parseInt) {P : Prop} {_ : Decidable P} (op : Op)
    (hop : ∀ sid rid, op = .enter sid rid → parseInt sid = sid) :
    ((if P then [op] else []).foldl (Roll.apply parseInt) s.roll).Plain parseInt := by
  split
  · exact hplain.apply op hop
  · exact hplain

theorem clean_exact (hexact : s.roll.Exact) (hplain : s.roll.Plain parseInt) (sid cid : BitVec 64) (nid : BitVec 32) :
    ((s.cleanOps sid cid nid).foldl (Roll.apply parseInt) s.roll).Exact ∧
      ((s.cleanOps sid cid nid).foldl (Roll.apply parseInt) s.roll).Plain parseInt :=
  ⟨(exact_ite_iff hexact _).2 fun _ => trivial, plain_ite hplain _ fun _ _ heq => by cases heq⟩

/-- The operations of one event keep two sides that agree where the event is an even one. -/
theorem exact_does_iff (hexact : s.roll.Exact) (hplain : s.roll.Plain parseInt) {event : Event}
    (hsmall : JoinsSmall event) {ops : List Op} (hdoes : s.Does event ops) :
    ((ops.foldl (Roll.apply parseInt) s.roll).Exact ↔ s.Even event) ∧
      (ops.foldl (Roll.apply parseInt) s.roll).Plain parseInt := by
  have hsame : ∀ {ops : List Op}, (ops.foldl (Roll.apply parseInt) s.roll).Exact ∧
      (ops.foldl (Roll.apply parseInt) s.roll).Plain parseInt → (s.Even event ↔ True) →
      ((ops.foldl (Roll.apply parseInt) s.roll).Exact ↔ s.Even event) ∧
        (ops.foldl (Roll.apply parseInt) s.roll).Plain parseInt :=
    fun h heven => ⟨iff_of_true h.1 (heven.2 trivial), h.2⟩
  cases event with
  | imOnline head req now seq | imPing head now | imOffline head | imSweep ctm | create rid uid now | kick head req
  | setBlacklist rid uid add =>
    obtain rfl : ops = [] := hdoes
    exact hsame ⟨hexact, hplain⟩ Iff.rfl
  | online head req now =>
    obtain rfl : ops = s.ops (.online head req now) := hdoes
    refine hsame ?_ Iff.rfl
    rw [Store.ops]
    split
    · exact clean_exact hexact hplain _ _ _
    · exact ⟨hexact, hplain⟩
  | ping head now now' =>
    obtain rfl : ops = s.ops (.ping head now now') := hdoes
    refine hsame ?_ Iff.rfl
    rw [Store.ops]
    split
    · exact ⟨hexact, hplain⟩
    split
    · have hrefresh : (s.roll.apply parseInt (.refresh head.sid)).Exact := (hexact.apply_iff _).2 trivial
      exact ⟨hrefresh, hplain.apply (.refresh head.sid) fun _ _ heq => by cases heq⟩
    · exact clean_exact hexact hplain _ _ _
  | offline head =>
    obtain rfl : ops = s.ops (.offline head) := hdoes
    refine hsame ?_ Iff.rfl
    rw [Store.ops]
    split
    · exact clean_exact hexact hplain _ _ _
    · exact ⟨hexact, hplain⟩
  | join head req now now' =>
    obtain rfl : ops = s.ops (.join head req now now') := hdoes
    refine hsame ?_ Iff.rfl
    rw [Store.ops]
    refine ⟨(exact_ite_iff hexact _).2 fun _ => trivial, plain_ite hplain _ fun sid rid heq => ?_⟩
    cases heq
    exact (parseInt_eq_self head.sid).2 hsmall
  | quit head req =>
    obtain rfl : ops = s.ops (.quit head req) := hdoes
    rw [Store.ops]
    refine ⟨(exact_ite_iff hexact _).trans ?_, plain_ite hplain _ fun _ _ heq => by cases heq⟩
    exact ⟨fun h hvalid huid hrid => h ⟨hvalid, huid, hrid⟩, fun h hq => h hq.1 hq.2.1 hq.2.2⟩
  | dismiss head req now =>
    obtain rfl : ops = s.ops (.dismiss head req now) := hdoes
    rw [Store.ops]
    exact ⟨exact_ite_iff hexact _, plain_ite hplain _ fun _ _ heq => by cases heq⟩
  | closeRoom rid now =>
    obtain rfl : ops = s.ops (.closeRoom rid now) := hdoes
    rw [Store.ops]
    exact ⟨exact_ite_iff hexact _, plain_ite hplain _ fun _ _ heq => by cases heq⟩
  | cleanRidSet ctm => exact hsame (hexact.closes hplain ops hdoes) Iff.rfl

/-- The rooms of the sessions and the sessions of the rooms agree all through a run exactly when
nobody quits a room it is in, and no room is dismissed with sessions in it. -/
theorem rooms_agree_iff (events : List Event) (hsmall : ∀ event ∈ events, JoinsSmall event) :
    (∀ before, before <+: events → ∃ s, before.foldlM step .empty = some s ∧
      ∀ rid sid, sid ∈ s.ridToSid rid ↔ rid ∈ s.sidToRid sid) ↔ Along step Even .empty events := by
  let I : Store → Prop := fun s => s.Kept ∧ s.roll.Exact ∧ s.roll.Plain parseInt
  have hinit : I Store.empty := ⟨empty_kept, empty_exact, fun _ _ h => absurd h List.not_mem_nil⟩
  refine along_iff (I := I) (fun s hs rid sid => hs.2.1 sid rid) (fun s event hs hpre => ?_) events hinit
    (along_of_mem events Store.empty hsmall)
  obtain ⟨hkept, hexact, hplain⟩ := hs
  obtain ⟨s', ops, hstep, hdoes, hled⟩ := step_led hkept event
  obtain ⟨hiff, hplain'⟩ := exact_does_iff hexact hplain hpre hdoes
  rw [← hled.leads] at hiff hplain'
  refine ⟨s', hstep, fun hagree => hiff.1 fun sid rid => hagree rid sid, fun heven => ?_⟩
  exact ⟨hled.kept, hiff.2 heven, hplain'⟩

theorem rooms_agree_offline : ∃ s, (World.inside ++ [Event.offline ⟨9, 9, 1⟩]).foldlM step .empty = some s ∧
    ∀ rid sid, sid ∈ s.ridToSid rid ↔ rid ∈ s.sidToRid sid := by
  have hagree := rooms_agree_iff (World.inside ++ [.offline ⟨9, 9, 1⟩]) (by simp [World.inside, JoinsSmall])
  exact hagree.2 (by simp [World.inside, Along, Even]) _ List.prefix_rfl

end Store

end BeehiveIm.Room
