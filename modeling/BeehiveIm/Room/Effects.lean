/-
What the handlers of the chat rooms do to the keys that say who is in which room.
-/
import BeehiveIm.Room

namespace BeehiveIm.Room

open BeehiveIm.Lib
open BeehiveIm.Session (MesgHeader MesgOnline chatSidTtl chatBatNum parseInt)

namespace Store

variable {s s' t : Store} {uid sid rid : BitVec 64} {rids : List (BitVec 64)} {head : MesgHeader} {req : MesgRoom}

/-! ## The loops over the rooms of a session -/

/-- The session, with the user, is in these rooms too. -/
structure Refreshed (uid sid : BitVec 64) (rids : List (BitVec 64)) (s s' : Store) : Prop where
  ridToSid : ∀ rid x, x ∈ s'.ridToSid rid ↔ x ∈ s.ridToSid rid ∨ x = sid ∧ rid ∈ rids
  ridToUidSid : ∀ rid m, m ∈ s'.ridToUidSid rid ↔ m ∈ s.ridToUidSid rid ∨ m = (uid, sid) ∧ rid ∈ rids
  rest : s' = { s with ridToSid := s'.ridToSid, ridToUidSid := s'.ridToUidSid }

theorem Refreshed.refl (uid sid : BitVec 64) (s : Store) : Refreshed uid sid [] s s := ⟨by simp, by simp, rfl⟩

theorem Refreshed.cons (h : Refreshed uid sid [rid] s s') (h' : Refreshed uid sid rids s' t) :
    Refreshed uid sid (rid :: rids) s t where
  ridToSid r x := by
    rw [h'.ridToSid, h.ridToSid, List.mem_singleton, List.mem_cons]
    tauto
  ridToUidSid r m := by
    rw [h'.ridToUidSid, h.ridToUidSid, List.mem_singleton, List.mem_cons]
    tauto
  rest := by
    rw [h'.rest, h.rest]

/-- The rooms of a session, as `ParseInt` reads them. -/
def roomsOf (s : Store) (sid : BitVec 64) : List (BitVec 64) :=
  ((s.sidToRid sid).rangeByScore none none).map fun e => parseInt e.1

theorem roomUpdateBySid_run (s : Store) (uid sid : BitVec 64) (now : Int) :
    Refreshed uid sid (s.roomsOf sid) s ((roomUpdateBySid uid sid now).run exec s).2 := by
  have hloop : ∀ (l : List (BitVec 64 × Int)) (s : Store),
      Refreshed uid sid (l.map fun e => parseInt e.1) s ((l.forM fun e => do
        redo (.zaddSid (parseInt e.1) (now + chatSidTtl) sid)
        redo (.zaddUidSid (parseInt e.1) (now + chatSidTtl) uid sid)).run exec s).2 := by
    intro l
    induction l with
    | nil => exact Refreshed.refl uid sid
    | cons e l ih =>
      intro s
      refine Refreshed.cons ?_ (ih _)
      refine ⟨fun rid x => ?_, fun rid m => ?_, rfl⟩
      · exact mem_put_add.trans (by rw [List.mem_singleton])
      · exact mem_put_add.trans (by rw [List.mem_singleton]; rfl)
  exact hloop ((s.sidToRid sid).rangeByScore none none) s

/-- The session, with the user, is in these rooms no more. -/
structure Cleaned (uid sid : BitVec 64) (rids : List (BitVec 64)) (s s' : Store) : Prop where
  ridToSid : ∀ rid x, x ∈ s'.ridToSid rid ↔ x ∈ s.ridToSid rid ∧ ¬(x = sid ∧ rid ∈ rids)
  ridToUidSid : ∀ rid m, m ∈ s'.ridToUidSid rid ↔ m ∈ s.ridToUidSid rid ∧ ¬(m = (uid, sid) ∧ rid ∈ rids)
  rest : s' = { s with ridToSid := s'.ridToSid, ridToUidSid := s'.ridToUidSid, ridGidToNum := s'.ridGidToNum }

theorem Cleaned.refl (uid sid : BitVec 64) (s : Store) : Cleaned uid sid [] s s := ⟨by simp, by simp, rfl⟩

theorem Cleaned.cons (h : Cleaned uid sid [rid] s s') (h' : Cleaned uid sid rids s' t) :
    Cleaned uid sid (rid :: rids) s t where
  ridToSid r x := by
    rw [h'.ridToSid, h.ridToSid, List.mem_singleton, List.mem_cons]
    tauto
  ridToUidSid r m := by
    rw [h'.ridToUidSid, h.ridToUidSid, List.mem_singleton, List.mem_cons]
    tauto
  rest := by
    rw [h'.rest, h.rest]

/-- `RoomCleanBySid` up to the deletion of the session's rooms -/
theorem roomCleanBySid_run (s : Store) (uid sid : BitVec 64) :
    ∃ s', Cleaned uid sid (s.roomsOf sid) s s' ∧
      ((roomCleanBySid uid sid).run exec s).2 = { s' with sidToRid := put s'.sidToRid sid fun _ => ∅ } := by
  have hloop : ∀ (l : List (BitVec 64 × Int)) (s : Store),
      Cleaned uid sid (l.map fun e => parseInt e.1) s ((l.forM fun e => do
        redo (.zremSid (parseInt e.1) sid)
        redo (.zremUidSid (parseInt e.1) uid sid)
        redo (.zincrbyNum (parseInt e.1) (-1) e.2 sid)).run exec s).2 := by
    intro l
    induction l with
    | nil => exact Cleaned.refl uid sid
    | cons e l ih =>
      intro s
      refine Cleaned.cons ?_ (ih _)
      refine ⟨fun rid x => ?_, fun rid m => ?_, rfl⟩
      · exact mem_put_rem.trans (by rw [List.mem_singleton])
      · exact mem_put_rem.trans (by rw [List.mem_singleton]; rfl)
  have hrun := Prog.run_bind exec (fun _ => redo (.delRid sid))
    (((s.sidToRid sid).rangeByScore none none).forM fun e => do
      redo (.zremSid (parseInt e.1) sid)
      redo (.zremUidSid (parseInt e.1) uid sid)
      redo (.zincrbyNum (parseInt e.1) (-1) e.2 sid)) s
  exact ⟨_, hloop ((s.sidToRid sid).rangeByScore none none) s, congrArg Prod.snd hrun⟩

/-! ## PING -/

/-- A ping that is accepted. -/
def Accepts (s : Store) (head : MesgHeader) : Prop :=
  (s.room.getSidAttr head.sid).uid ≠ 0 ∧ head.nid = (s.room.getSidAttr head.sid).nid ∧
  head.cid = (s.room.getSidAttr head.sid).cid

theorem roomUpdateSessionData_of_accepts (now now' : Int) (h : s.Accepts head) :
    ∃ s' room, Refreshed (s.room.getSidAttr head.sid).uid head.sid (s.roomsOf head.sid) s s' ∧
      (roomUpdateSessionData head.sid head.cid head.nid now now').run exec s = (.ok (), { s' with room := room }) := by
  obtain ⟨huid, hnid, hcid⟩ := h
  have hrun := Prog.run_bind exec (fun _ => do
    redo (.zaddSidZset (now + chatSidTtl) head.sid)
    redo (.zaddUidZset (now + chatSidTtl) (s.room.getSidAttr head.sid).uid)
    return (.ok () : Except String Unit)) (roomUpdateBySid (s.room.getSidAttr head.sid).uid head.sid now') s
  refine ⟨_, _, roomUpdateBySid_run s _ head.sid now', Eq.trans ?_ hrun⟩
  rw [roomUpdateSessionData, redo, Prog.issue_bind, Prog.run_issue]
  rw [Prog.ret_bind, if_neg (show (exec (.hmget head.sid) s).1.uid ≠ 0 from huid),
    if_neg (not_not.2 (show head.nid = (exec (.hmget head.sid) s).1.nid from hnid)),
    if_neg (not_not.2 (show head.cid = (exec (.hmget head.sid) s).1.cid from hcid))]
  rfl

theorem roomUpdateSessionData_of_not_accepts (now now' : Int) (h : ¬s.Accepts head) :
    ∃ err, (roomUpdateSessionData head.sid head.cid head.nid now now').run exec s = (.error err, s) := by
  rw [roomUpdateSessionData, redo, Prog.issue_bind, Prog.run_issue]
  change ∃ err, (if (s.room.getSidAttr head.sid).uid = 0 then _ else _ : Redis _).run exec s = _
  split
  · exact ⟨_, rfl⟩
  · rename_i huid
    split
    · exact ⟨_, rfl⟩
    · rename_i hnid
      split
      · exact ⟨_, rfl⟩
      · rename_i hcid
        exact absurd ⟨huid, not_not.1 hnid, not_not.1 hcid⟩ h

theorem ping_of_accepts (now now' : Int) (hvalid : isValid head) (h : s.Accepts head) :
    ∃ s' room, Refreshed (s.room.getSidAttr head.sid).uid head.sid (s.roomsOf head.sid) s s' ∧
      ((chatRoomPingHandler head now now').run exec s).2 = { s' with room := room } := by
  obtain ⟨s', room, hr, hrun⟩ := roomUpdateSessionData_of_accepts now now' h
  refine ⟨s', room, hr, ?_⟩
  rw [chatRoomPingHandler, if_pos hvalid, Prog.run_bind, hrun]
  rfl

theorem ping_of_not_accepts (now now' : Int) (hvalid : isValid head) (h : ¬s.Accepts head) :
    ((chatRoomPingHandler head now now').run exec s).2 =
    ((roomCleanSessionData head.sid head.cid head.nid).run exec s).2 := by
  obtain ⟨err, hrun⟩ := roomUpdateSessionData_of_not_accepts now now' h
  rw [chatRoomPingHandler, if_pos hvalid, Prog.run_bind, hrun, Prog.run_bind]
  rfl

theorem ping_of_not_valid (s : Store) (now now' : Int) (hvalid : ¬isValid head) :
    ((chatRoomPingHandler head now now').run exec s).2 = s := by
  rw [chatRoomPingHandler, if_neg hvalid]
  rfl

/-! ## ROOM-JOIN -/

theorem allocRoomGid_run (s : Store) (rid : BitVec 64) : ∃ gid, (allocRoomGid rid).run exec s = (gid, s) := by
  simp only [allocRoomGid, redo, Prog.issue_bind, Prog.ret_bind, Prog.run_issue, Prog.run_ite, Prog.run_pure]
  split
  · exact ⟨_, rfl⟩
  · split
    · exact ⟨_, rfl⟩
    · exact ⟨_, rfl⟩

/-- What a join writes. -/
def entered (s : Store) (head : MesgHeader) (req : MesgRoom) (gid : BitVec 32) (ttl : Int) : Store := { s with
  ridGidToNum := put s.ridGidToNum req.rid fun z => z.incrBy 1 gid.toNat
  ridToUidSid := put s.ridToUidSid req.rid fun z => z.add ttl (req.uid, head.sid)
  ridToSid := put s.ridToSid req.rid fun z => z.add ttl head.sid
  ridToNid := put s.ridToNid req.rid fun z => z.add ttl head.nid
  ridZset := s.ridZset.add ttl req.rid
  sidToRid := put s.sidToRid head.sid fun z => z.add ttl req.rid }

theorem validateRoomJoin_run (s : Store) (head : MesgHeader) (req : MesgRoom) (now : Int) :
    ∃ r, (validateRoomJoin head req now).run exec s = (r, s) ∧
      (r = .ok () → req.uid ≠ 0 ∧ (s.im.getSidAttr head.sid).uid = req.uid ∧ (s.info req.rid).isSome) := by
  have hrefused : ∀ (err : String) (P : Prop), ∃ r :
      Except String Unit, (Except.error err, s) = (r, s) ∧ (r = .ok () → P) :=
    fun err P => ⟨_, rfl, fun h => by cases h⟩
  simp only [validateRoomJoin, redo, Prog.issue_bind, Prog.ret_bind, Prog.run_issue, Prog.run_ite, Prog.run_pure]
  split
  · exact hrefused _ _
  rename_i hreq
  split
  · exact hrefused _ _
  split
  · exact hrefused _ _
  rename_i huid
  split
  · exact hrefused _ _
  split
  · exact hrefused _ _
  rename_i info hinfo
  have hjoin : req.uid ≠ 0 ∧ (s.im.getSidAttr head.sid).uid = req.uid ∧ (s.info req.rid).isSome := by
    refine ⟨fun h => hreq (.inl h), not_not.1 huid, ?_⟩
    rw [show s.info req.rid = some info from hinfo]
    rfl
  rw [Prog.run_ite]
  split
  · exact hrefused _ _
  rw [Prog.run_issue]
  split
  · exact ⟨_, rfl, fun _ => hjoin⟩
  rw [Prog.run_ite]
  split
  · exact hrefused _ _
  · exact ⟨_, rfl, fun _ => hjoin⟩

theorem roomJoinHandler_run (s : Store) (head : MesgHeader) (req : MesgRoom) (now : Int) :
    ((roomJoinHandler head req now).run exec s).2 = s ∨ req.uid ∉ s.blacklist req.rid ∧
      ∃ gid, ((roomJoinHandler head req now).run exec s).2 = s.entered head req gid (now + chatSidTtl) := by
  obtain ⟨gid, hgid⟩ := allocRoomGid_run s req.rid
  rw [roomJoinHandler, redo, Prog.issue_bind, Prog.run_issue]
  change ((if decide (req.uid ∈ s.blacklist req.rid) = true then _ else _ : Redis _).run exec s).2 = s ∨ _ ∧
    ∃ gid, ((if decide (req.uid ∈ s.blacklist req.rid) = true then _ else _ : Redis _).run exec s).2 = _
  split
  · exact .inl rfl
  · rename_i hbl
    refine .inr ⟨of_decide_eq_false (Bool.not_eq_true _ ▸ hbl), gid, ?_⟩
    rw [Prog.run_bind, hgid]
    rfl

/-- A join either changes nothing or is that of a session to its own user, who is not banned. -/
theorem join_run (s : Store) (head : MesgHeader) (req : MesgRoom) (now now' : Int) :
    ((chatRoomJoinHandler head req now now').run exec s).2 = s ∨
      (req.uid ≠ 0 ∧ (s.im.getSidAttr head.sid).uid = req.uid ∧ (s.info req.rid).isSome) ∧
      req.uid ∉ s.blacklist req.rid ∧
        ∃ gid, ((chatRoomJoinHandler head req now now').run exec s).2 = s.entered head req gid (now' + chatSidTtl) := by
  obtain ⟨r, hr, hok⟩ := validateRoomJoin_run s head req now
  rw [chatRoomJoinHandler]
  split
  · exact .inl rfl
  · rw [Prog.run_bind, hr]
    cases r with
    | error err => exact .inl rfl
    | ok _ => exact (roomJoinHandler_run s head req now').imp_right fun h => ⟨hok rfl, h⟩

/-! ## Expired rooms -/

/-- Everything about the room is gone, if its sessions read back as they are. -/
structure Expired (rid : BitVec 64) (s s' : Store) : Prop where
  ridToSid : ∀ r x, x ∈ s'.ridToSid r ↔ x ∈ s.ridToSid r ∧ r ≠ rid
  ridToUidSid : ∀ r m, m ∈ s'.ridToUidSid r ↔ m ∈ s.ridToUidSid r ∧ r ≠ rid
  sidToRid : ∀ x r, r ∈ s'.sidToRid x ↔ r ∈ s.sidToRid x ∧ ¬(r = rid ∧ ∃ sid ∈ s.ridToSid rid, parseInt sid = x)
  ridZset : s'.ridZset = s.ridZset.rem rid
  im : s'.im = s.im
  room : s'.room = s.room
  blacklist : s'.blacklist = s.blacklist
  info : s'.info = s.info

/-- `ZREM` of the room for each session of a list -/
def zremRids (rid : BitVec 64) (s : Store) (l : List (BitVec 64 × Int)) : Store :=
  l.foldl (fun s e => { s with sidToRid := put s.sidToRid (parseInt e.1) fun z => z.rem rid }) s

theorem zremRids_rest (rid : BitVec 64) : ∀ (l : List (BitVec 64 × Int)) (s : Store),
    s.zremRids rid l = { s with sidToRid := (s.zremRids rid l).sidToRid }
  | [], _ => rfl
  | e :: l, s => zremRids_rest rid l { s with sidToRid := put s.sidToRid (parseInt e.1) fun z => z.rem rid }

theorem mem_zremRids {x r : BitVec 64} : ∀ {l : List (BitVec 64 × Int)} {s : Store},
    r ∈ (s.zremRids rid l).sidToRid x ↔ r ∈ s.sidToRid x ∧ ¬(r = rid ∧ ∃ e ∈ l, parseInt e.1 = x)
  | [], s => by simp [zremRids]
  | e :: l, s => by
    rw [zremRids, List.foldl_cons, ← zremRids, mem_zremRids, mem_put_rem]
    simp only [List.mem_cons, exists_eq_or_imp]
    constructor
    · rintro ⟨⟨hr, hne⟩, hnot⟩
      refine ⟨hr, ?_⟩
      rintro ⟨rfl, h | h⟩
      · exact hne ⟨rfl, h.symm⟩
      · exact hnot ⟨rfl, h⟩
    · rintro ⟨hr, hnot⟩
      exact ⟨⟨hr, fun h => hnot ⟨h.1, .inl h.2.symm⟩⟩, fun h => hnot ⟨h.1, .inr h.2⟩⟩

/-- The pages are those of the whole list: the loop leaves it as it is. -/
theorem cleanSidByRid_eq (s : Store) (rid : BitVec 64) :
    s.cleanSidByRid rid = some (s.zremRids rid ((s.ridToSid rid).rangeByScore none none)) := by
  have hconst := paged_foldl (show 0 < chatBatNum by decide)
    (fun (s : Store) e => { s with sidToRid := put s.sidToRid (parseInt e.1) fun z => z.rem rid })
    ((s.ridToSid rid).rangeByScore none none) (s.ridToSid rid).card 0 s ((s.ridToSid rid).length_range_le _ _)
  have hrun : ∃ s', s.cleanSidByRid rid = some s' ∧ s' = s.zremRids rid ((s.ridToSid rid).rangeByScore none none) ∧ _ :=
    paged_rel (fun t u : Store => u = t ∧ t.ridToSid = s.ridToSid) (fun t u off h => by rw [h.1, h.2])
      (fun t u page h => ⟨by rw [h.1], by rw [← zremRids, zremRids_rest, h.2]⟩) _ _ s s _ ⟨rfl, rfl⟩ hconst
  obtain ⟨s', hrun, rfl, -⟩ := hrun
  exact hrun

theorem cleanByRid_expired (s : Store) (rid : BitVec 64) : ∃ s', s.cleanByRid rid = some s' ∧ Expired rid s s' := by
  refine ⟨_, by rw [cleanByRid, cleanSidByRid_eq]; rfl, ?_⟩
  rw [zremRids_rest]
  refine ⟨fun r x => mem_put_empty, fun r m => mem_put_empty, fun x r => mem_zremRids.trans ?_, rfl, rfl, rfl, rfl, rfl⟩
  exact and_congr_right fun _ => not_congr (and_congr_right fun _ => ZSet.exists_range_all fun sid => parseInt sid = x)

/-- What holds of a store still holds when rooms have been cleaned, if it does when one has. -/
theorem foldl_cleanByRid (P : Store → Prop) (hP : ∀ s t rid, P s → Expired rid s t → P t) :
    ∀ (page : List (BitVec 64 × Int)) (s : Store), P s → P
    (page.foldl (fun s e => (s.cleanByRid (parseInt e.1)).getD s) s)
  | [], _, hs => hs
  | e :: page, s, hs => by
    obtain ⟨s', hs', hexp⟩ := cleanByRid_expired s (parseInt e.1)
    rw [List.foldl_cons, hs']
    exact foldl_cleanByRid P hP page s' (hP s s' _ hs hexp)

theorem cleanRidSet_total (s : Store) (ctm : Int) : ∃ s', s.cleanRidSet ctm = some s' := by
  refine paged_total chatBatNum (by decide) (fun s : Store => s.ridZset.rangeByScore none (some ctm)) (fun _ _ => rfl)
    (fun s page => ?_) s.ridZset.card 0 s (s.ridZset.length_range_le _ _)
  refine foldl_cleanByRid (fun t => (t.ridZset.rangeByScore none (some ctm)).length ≤
    (s.ridZset.rangeByScore none (some ctm)).length)
    (fun t u rid ht hu => ?_) page s le_rfl
  rw [hu.ridZset]
  exact (t.ridZset.length_range_rem_le rid _ _).trans ht

end Store

end BeehiveIm.Room
