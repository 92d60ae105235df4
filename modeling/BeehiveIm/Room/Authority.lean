/-
On whose behalf the requests to the chat rooms act (`controllers/mesg.go`,
`controllers/room_lifecycle.go`), with what they send to others than the client that asks and what
they put in the mongo tables. A join, a chat and a dismissal ask whose session it is; a kick asks
that of the server's own table; the creation of a room and a quit take the user from the body.
-/
import BeehiveIm.Room.Kicked
import Mathlib.Data.Finset.Sort

namespace BeehiveIm.Room

open BeehiveIm.Lib
open BeehiveIm.Session (MesgHeader chatSidTtl parseInt)

/-! ## Requests -/

/-- A `MesgRoomCreat` without its texts. -/
structure MesgRoomCreat where
  uid : BitVec 64
  deriving DecidableEq

/-- What `proto.Unmarshal` makes of the body; `rid` is what the sequence server allocates. -/
inductive Request where
  | creat (body : Except String MesgRoomCreat) (rid : Except String (BitVec 64))
  | join (body : Except String MesgRoom)
  | quit (body : Except String MesgRoom)
  | kick (body : Except String MesgRoom)
  | dismiss (body : Except String MesgRoom)
  | chat (body : Except String MesgRoomChat)

def cmdRoomKick : Nat := 0x0409
def cmdRoomChat : Nat := 0x040B
def cmdRoomJoinNtf : Nat := 0x0450
def cmdRoomQuitNtf : Nat := 0x0452
def cmdRoomKickNtf : Nat := 0x0454

inductive Body where
  | room (req : MesgRoom)
  | chat (req : MesgRoomChat)

structure Packet where
  cmd : Nat
  head : MesgHeader
  body : Body

/-- What goes into the mongo table of the banned, and into `room_mesg_chan`. -/
inductive Stored where
  | blacklist (rid uid : BitVec 64) (ctm : Int)
  | chat (req : MesgRoomChat)

/-- The clock, which is read twice, the listeners, and the nodes of each room as the
server has them in memory. -/
structure Env where
  now : Int
  now' : Int
  nodes : List (BitVec 32)
  node : BitVec 64 → List (BitVec 32)

/-- What a request leaves of the tables, has sent to others, and has stored. -/
structure Out where
  store : Store
  sent : List Packet
  stored : Option Stored

/-! ## Handlers -/

/-- `ChatRoomCreatHandler` -/
def chatRoomCreatHandler (head : MesgHeader) (req : MesgRoomCreat) (rid : Except String (BitVec 64)) (now : Int) :
    Redis (Except String (BitVec 64)) := do
  if !isValid head then return .error "Header of room-creat failed!"
  match rid with
  | .error err => return .error err
  | .ok rid => roomCreateHandler rid req.uid now

/-- `ChatRoomChatHandler` as far as its checks go. -/
def chatRoomChatHandler (head : MesgHeader) (req : MesgRoomChat) (now : Int) : Redis (Except String Unit) := do
  if !isValid head then return .error "Header is invalid!"
  validateRoomChat head req now

/-- `roomJoinNotify` and `roomKickNotify`, whose packets keep the session of the header. -/
def notify (env : Env) (cmd : Nat) (head : MesgHeader) (req : MesgRoom) : List Packet :=
  env.nodes.map fun nid => ⟨cmd, ⟨head.sid, head.cid, nid⟩, .room req⟩

/-- `roomQuitNotify` -/
def roomQuitNotify (env : Env) (req : MesgRoom) : List Packet :=
  env.nodes.map fun nid => ⟨cmdRoomQuitNtf, ⟨0, 0, nid⟩, .room req⟩

/-- `room_kick_by_uid`; the sessions come in no particular order. -/
def roomKickByUid (s : Store) (req : MesgRoom) : List Packet :=
  (((s.room.uidToSid req.uid).image BitVec.toNat).sort (· ≤ ·)).map fun n =>
    let sid := parseInt (BitVec.ofNat 64 n)
    let attr := s.room.getSidAttr sid
    ⟨cmdRoomKick, ⟨sid, attr.cid, attr.nid⟩, .room req⟩

/-- The packets of `roomChatHandler` -/
def roomChatHandler (env : Env) (head : MesgHeader) (req : MesgRoomChat) : List Packet :=
  (env.node req.rid).map fun nid => ⟨cmdRoomChat, ⟨head.sid, 0, nid⟩, .chat req⟩

/-- A program of commands, and what comes of it when it goes well. -/
def Store.outcome {α : Type} (s : Store) (p : Redis (Except String α)) (sent : List Packet) (stored : Option Stored) :
    Out :=
  match p.run exec s with
  | (.error _, s) => ⟨s, [], none⟩
  | (.ok _, s) => ⟨s, sent, stored⟩

/-- A request whose body cannot be read is answered with an error. -/
def handle (env : Env) (head : MesgHeader) (s : Store) : Request → Out
  | .creat (.ok req) rid => s.outcome (chatRoomCreatHandler head req rid env.now) [] none
  | .join (.ok req) =>
    s.outcome (chatRoomJoinHandler head req env.now env.now') (notify env cmdRoomJoinNtf head req) none
  | .quit (.ok req) => s.outcome (chatRoomQuitHandler head req) (roomQuitNotify env req) none
  | .kick (.ok req) =>
    s.outcome (chatRoomKickHandler head req) (roomKickByUid s req ++ notify env cmdRoomKickNtf head req)
      (some (.blacklist req.rid req.uid env.now))
  | .dismiss (.ok req) => s.outcome (chatRoomDismissHandler head req env.now) [] none
  | .chat (.ok req) =>
    s.outcome (chatRoomChatHandler head req env.now) (roomChatHandler env head req) (some (.chat req))
  | _ => ⟨s, [], none⟩

/-! ## Checks -/

/-- The owner of a room, by its row or by its roles. -/
def Store.Owns (s : Store) (rid uid : BitVec 64) : Prop :=
  (∃ info, s.info rid = some info ∧ info.owner = uid) ∨ (s.role rid).lookup uid = some roomRoleOwner

namespace Store

variable {s : Store} {head : MesgHeader} {now : Int}

/-- A join that `validateRoomJoin` lets through. -/
structure Joins (s : Store) (head : MesgHeader) (req : MesgRoom) (now : Int) : Prop where
  uid : req.uid ≠ 0
  rid : req.rid ≠ 0
  session : (s.im.getSidAttr head.sid).uid = req.uid
  nid : (s.im.getSidAttr head.sid).nid = head.nid
  info : ∃ info, s.info req.rid = some info ∧ info.status = roomStatOpen
  score : ∀ score, (s.sidToRid head.sid).score req.rid = some score → score ≤ now

/-- A check answers, and changes nothing. -/
def Decides (s : Store) (p : Redis (Except String Unit)) (P : Prop) : Prop :=
  ∃ r, p.run exec s = (r, s) ∧ (r = .ok () ↔ P)

theorem refuses {P : Prop} (err : String) (h : ¬P) : ∃ r :
    Except String Unit, (Except.error err, s) = (r, s) ∧ (r = .ok () ↔ P) :=
  ⟨_, rfl, by simpa using h⟩

theorem accepts {P : Prop} (h : P) : ∃ r : Except String Unit, (Except.ok (), s) = (r, s) ∧ (r = .ok () ↔ P) :=
  ⟨_, rfl, by simpa using h⟩

theorem validateRoomJoin_decides (s : Store) (head : MesgHeader) (req : MesgRoom) (now : Int) :
    s.Decides (validateRoomJoin head req now) (s.Joins head req now) := by
  unfold Decides
  simp only [validateRoomJoin, redo, Prog.issue_bind, Prog.ret_bind, Prog.run_issue, Prog.run_ite, Prog.run_pure]
  split
  · rename_i hreq
    exact refuses _ fun h => hreq.elim h.uid h.rid
  rename_i hreq
  split
  · rename_i h0
    exact refuses _ fun h => h.uid (h.session.symm.trans h0)
  split
  · rename_i hne
    exact refuses _ fun h => hne h.session
  rename_i huid
  split
  · rename_i hne
    exact refuses _ fun h => hne h.nid
  rename_i hnid
  split
  · rename_i hinfo
    refine refuses _ fun h => ?_
    obtain ⟨info, hsome, -⟩ := h.info
    cases hsome.symm.trans hinfo
  rename_i info hinfo
  rw [Prog.run_ite]
  split
  · rename_i hclosed
    refine refuses _ fun h => ?_
    obtain ⟨info', hsome, hopen⟩ := h.info
    cases hsome.symm.trans hinfo
    exact hclosed hopen
  rename_i hopen
  rw [Prog.run_issue]
  have hjoins : (∀ score, (s.sidToRid head.sid).score req.rid = some score → score ≤ now) → s.Joins head req now :=
    fun hscore =>
    ⟨fun h0 => hreq (.inl h0), fun h0 => hreq (.inr h0), not_not.1 huid, not_not.1 hnid, ⟨info, hinfo, not_not.1 hopen⟩,
    hscore⟩
  split
  · rename_i hnone
    refine accepts (hjoins fun score hscore => ?_)
    cases hscore.symm.trans hnone
  · rename_i score hscore
    rw [Prog.run_ite]
    split
    · rename_i hlt
      exact refuses _ fun h => absurd hlt (Int.not_lt.2 (h.score score hscore))
    · rename_i hle
      refine accepts (hjoins fun score' hscore' => ?_)
      cases hscore.symm.trans hscore'
      exact Int.not_lt.1 hle

/-- A chat that `validateRoomChat` lets through. -/
structure Chats (s : Store) (head : MesgHeader) (req : MesgRoomChat) (now : Int) : Prop where
  uid : req.uid ≠ 0
  rid : req.rid ≠ 0
  text : req.text.length ≠ 0
  length : req.text.length ≤ roomChatTextMaxLen
  session : (s.im.getSidAttr head.sid).uid = req.uid
  inRoom : ∃ score, (s.ridToSid req.rid).score head.sid = some score ∧ now < score
  info : ∃ info, s.info req.rid = some info ∧ info.status = roomStatOpen

theorem roomSidInRoom_run_eq (s : Store) (rid sid : BitVec 64) (now : Int) :
    (roomSidInRoom rid sid now).run exec s = (((s.ridToSid rid).score sid).any fun score => score > now, s) := by
  simp only [roomSidInRoom, redo, Prog.issue_bind, Prog.ret_bind, Prog.run_issue, exec]
  cases (s.ridToSid rid).score sid with
  | none => rfl
  | some score => rfl

theorem validateRoomChat_decides (s : Store) (head : MesgHeader) (req : MesgRoomChat) (now : Int) :
    s.Decides (validateRoomChat head req now) (s.Chats head req now) := by
  unfold Decides
  simp only [validateRoomChat, redo, Prog.issue_bind, Prog.ret_bind, Prog.run_issue, Prog.run_ite, Prog.run_pure,
    Prog.run_bind]
  rw [show (exec (.hmgetIm head.sid) s).2 = s from rfl, roomSidInRoom_run_eq]
  split
  · rename_i hreq
    exact refuses _ fun h => hreq.elim h.uid h.rid
  rename_i hreq
  split
  · rename_i h0
    exact refuses _ fun h => h.text h0
  rename_i htext
  split
  · rename_i hlong
    exact refuses _ fun h => absurd hlong (Nat.not_lt.2 h.length)
  rename_i hlen
  split
  · rename_i h0
    exact refuses _ fun h => h.uid (h.session.symm.trans h0)
  split
  · rename_i hne
    exact refuses _ fun h => hne h.session
  rename_i huid
  split
  · rename_i hout
    refine refuses _ fun h => ?_
    obtain ⟨score, hscore, hnow⟩ := h.inRoom
    simp [hscore, hnow] at hout
  rename_i hin
  split
  · rename_i hinfo
    refine refuses _ fun h => ?_
    obtain ⟨info, hsome, -⟩ := h.info
    cases hsome.symm.trans hinfo
  rename_i info hinfo
  rw [Prog.run_ite]
  split
  · rename_i hclosed
    refine refuses _ fun h => ?_
    obtain ⟨info', hsome, hopen⟩ := h.info
    cases hsome.symm.trans hinfo
    exact hclosed hopen
  · rename_i hopen
    obtain ⟨score, hscore, hnow⟩ : ∃ score, (s.ridToSid req.rid).score head.sid = some score ∧ now < score := by
      simpa [Option.any_eq_true] using hin
    exact accepts ⟨fun h0 => hreq (.inl h0), fun h0 => hreq (.inr h0), htext, Nat.not_lt.1 hlen, not_not.1 huid,
      ⟨score, hscore, hnow⟩, ⟨info, hinfo, not_not.1 hopen⟩⟩

/-! ## What comes of a request -/

/-- `UPDATE` finds a row, and not as it is to be. -/
def Closes (s : Store) (rid : BitVec 64) (now : Int) : Prop := ∃ info, s.info rid = some info ∧ info.close now ≠ info

/-- The row is closed, and the keys of the room go. -/
theorem dismissRoomByRid_run {rid : BitVec 64} {info : RoomInfo} (hinfo : s.info rid = some info)
    (hne : info.close now ≠ info) : (dismissRoomByRid rid now).run exec s =
      (.ok (), ((roomDismissRedis rid).run exec { s with info := put s.info rid fun _ => some (info.close now) }).2) := by
  have hclose : exec (.closeInfo rid now) s =
      (true, { s with info := put s.info rid fun _ => some (info.close now) }) := by
    simp only [exec, hinfo, decide_eq_true hne]
  rw [dismissRoomByRid, redo, Prog.issue_bind, Prog.run_issue, hclose]
  rfl

theorem dismissRoomByRid_of_closes {rid : BitVec 64} (h : s.Closes rid now) :
    ∃ s', (dismissRoomByRid rid now).run exec s = (.ok (), s') ∧ s' ≠ s := by
  obtain ⟨info, hinfo, hne⟩ := h
  refine ⟨_, dismissRoomByRid_run hinfo hne, fun heq => ?_⟩
  have hrow : put s.info rid (fun _ => some (info.close now)) rid = s.info rid :=
    congrArg (fun s : Store => s.info rid) heq
  rw [put_self, hinfo] at hrow
  exact hne (Option.some.inj hrow)

theorem dismissRoomByRid_of_not_closes {rid : BitVec 64} (h : ¬s.Closes rid now) :
    ∃ err, (dismissRoomByRid rid now).run exec s = (.error err, s) := by
  have hclose : exec (.closeInfo rid now) s = (false, s) := by
    cases hinfo : s.info rid with
    | none => simp only [exec, hinfo]
    | some info =>
      have hsame : info.close now = info := by
        by_contra hne
        exact h ⟨info, hinfo, hne⟩
      have hput : put s.info rid (fun _ => some (info.close now)) = s.info := put_eq_self.2 (by rw [hsame, hinfo])
      simp only [exec, hinfo, hsame, ne_eq, not_true, decide_false]
      rw [hsame] at hput
      rw [hput]
  rw [dismissRoomByRid, redo, Prog.issue_bind, Prog.run_issue, hclose]
  exact ⟨_, rfl⟩

/-- A dismissal that is carried out. -/
structure Dismisses (s : Store) (head : MesgHeader) (req : MesgRoom) (now : Int) : Prop where
  valid : isValid head
  uid : req.uid ≠ 0
  rid : req.rid ≠ 0
  session : (s.im.getSidAttr head.sid).uid = req.uid
  owns : s.Owns req.rid req.uid
  closes : s.Closes req.rid now

theorem dismiss_outcome (s : Store) (head : MesgHeader) (req : MesgRoom) (now : Int) :
    (s.Dismisses head req now ∧ ∃ s', (chatRoomDismissHandler head req now).run exec s = (.ok (), s') ∧ s' ≠ s) ∨
      ¬s.Dismisses head req now ∧ ∃ err, (chatRoomDismissHandler head req now).run exec s = (.error err, s) := by
  have hrefused : ∀ err, ¬s.Dismisses head req now →
    (s.Dismisses head req now ∧ ∃ s', ((.error err, s) : Except String Unit × Store) = (.ok (), s') ∧ s' ≠ s) ∨
      ¬s.Dismisses head req now ∧ ∃ err', ((.error err, s) : Except String Unit × Store) = (.error err', s) :=
      fun err h => .inr ⟨h, err, rfl⟩
  simp only [chatRoomDismissHandler, roomDismissHandler, redo, Prog.issue_bind, Prog.ret_bind, Prog.run_issue,
    Prog.run_ite, Prog.run_pure]
  split
  · rename_i hvalid
    exact hrefused _ fun h => by simp [h.valid] at hvalid
  rename_i hvalid
  split
  · rename_i hreq
    exact hrefused _ fun h => hreq.elim h.uid h.rid
  rename_i hreq
  split
  · rename_i h0
    exact hrefused _ fun h => h.uid (h.session.symm.trans h0)
  split
  · rename_i hne
    exact hrefused _ fun h => hne h.session
  rename_i huid
  split
  · rename_i hinfo
    refine hrefused _ fun h => ?_
    obtain ⟨info, hsome, -⟩ := h.closes
    cases hsome.symm.trans hinfo
  rename_i info hinfo
  have hend : s.Owns req.rid req.uid →
      (s.Dismisses head req now ∧ ∃ s', (dismissRoomByRid req.rid now).run exec s = (.ok (), s') ∧ s' ≠ s) ∨
        ¬s.Dismisses head req now ∧ ∃ err, (dismissRoomByRid req.rid now).run exec s = (.error err, s) := by
    intro howns
    by_cases hcloses : s.Closes req.rid now
    · exact .inl ⟨⟨by simpa using hvalid, fun h0 => hreq (.inl h0), fun h0 => hreq (.inr h0), not_not.1 huid, howns,
        hcloses⟩, dismissRoomByRid_of_closes hcloses⟩
    · exact .inr ⟨fun h => hcloses h.closes, dismissRoomByRid_of_not_closes hcloses⟩
  rw [Prog.run_ite]
  split
  · rename_i hother
    have howns : s.Owns req.rid req.uid → (s.role req.rid).lookup req.uid = some roomRoleOwner := by
      rintro (⟨info', hsome, howner⟩ | hrole)
      · cases hsome.symm.trans hinfo
        exact absurd howner hother
      · exact hrole
    rw [Prog.run_issue]
    split
    · rename_i hnone
      refine hrefused _ fun h => ?_
      cases (howns h.owns).symm.trans hnone
    · rename_i role hrole
      rw [Prog.run_ite]
      split
      · rename_i hne
        refine hrefused _ fun h => ?_
        cases (howns h.owns).symm.trans hrole
        exact hne rfl
      · rename_i heq
        obtain rfl := not_not.1 heq
        exact hend (.inr hrole)
  · rename_i hself
    exact hend (.inl ⟨info, hinfo, not_not.1 hself⟩)

theorem quit_outcome {req : MesgRoom} (hvalid : isValid head) (huid : req.uid ≠ 0) (hrid : req.rid ≠ 0) :
    (chatRoomQuitHandler head req).run exec s = (.ok (), { s with
      ridToSid := put s.ridToSid req.rid fun z => z.rem head.sid
      ridToUidSid := put s.ridToUidSid req.rid fun z => z.rem (req.uid, head.sid) }) := by
  rw [chatRoomQuitHandler, hvalid, if_neg (by decide), if_neg (not_or.2 ⟨huid, hrid⟩)]
  rfl

theorem quit_refused {req : MesgRoom} (h : ¬(isValid head ∧ req.uid ≠ 0 ∧ req.rid ≠ 0)) :
    ∃ err, (chatRoomQuitHandler head req).run exec s = (.error err, s) := by
  rw [chatRoomQuitHandler]
  split
  · exact ⟨_, rfl⟩
  · rename_i hvalid
    split
    · exact ⟨_, rfl⟩
    · rename_i hreq
      exact absurd ⟨by simpa using hvalid, not_or.1 hreq⟩ h

/-- A new room has a row, whether or not somebody has a role in it already. -/
theorem create_outcome {rid uid : BitVec 64} (now : Int) (h : insertable s rid uid) :
    ((roomCreateHandler rid uid now).run exec s).2 ≠ s := by
  have hnone : s.info rid = none := (of_decide_eq_true h).2.2
  have hins : exec (.insertInfo rid uid now) s =
      (true, { s with info := put s.info rid fun _ => some ⟨roomStatOpen, uid, now⟩ }) := by
    rw [exec, if_pos h]
  intro heq
  have hrow : ((roomCreateHandler rid uid now).run exec s).2.info rid = some ⟨roomStatOpen, uid, now⟩ := by
    rw [roomCreateHandler, redo, Prog.issue_bind, Prog.run_issue, hins]
    simp only [redo, Prog.issue_bind, Prog.ret_bind, Prog.run_issue, Prog.run_ite, Prog.run_pure, Bool.not_true,
      Bool.false_eq_true, if_false, exec]
    split
    · simp
    · simp
  rw [heq, hnone] at hrow
  cases hrow

theorem create_refused {rid uid : BitVec 64} (now : Int) (h : ¬insertable s rid uid) :
    ∃ err, (roomCreateHandler rid uid now).run exec s = (.error err, s) := by
  have hins : exec (.insertInfo rid uid now) s = (false, s) := by rw [exec, if_neg h]
  rw [roomCreateHandler, redo, Prog.issue_bind, Prog.run_issue, hins]
  exact ⟨_, rfl⟩

/-- A join that counts another member of a group. -/
theorem entered_ne (s : Store) (head : MesgHeader) (req : MesgRoom) (gid : BitVec 32) (ttl : Int) :
    s.entered head req gid ttl ≠ s := by
  intro heq
  have hput : put s.ridGidToNum req.rid (fun z => z.incrBy 1 gid.toNat) = s.ridGidToNum :=
    congrArg Store.ridGidToNum heq
  have hnum := put_eq_self.1 hput
  have hscore : ((s.ridGidToNum req.rid).incrBy 1 gid.toNat).score gid.toNat =
      some (((s.ridGidToNum req.rid).score gid.toNat).getD 0 + 1) := by
    rw [ZSet.incrBy, ZSet.score_add, if_pos rfl]
  rw [hnum] at hscore
  have hcount := congrArg (fun n => n.getD 0) hscore
  dsimp only [Option.getD_some] at hcount
  omega

theorem join_outcome {req : MesgRoom} (now' : Int) (hvalid : isValid head) (h : s.Joins head req now)
    (hbl : req.uid ∉ s.blacklist req.rid) :
    ∃ gid s', (chatRoomJoinHandler head req now now').run exec s = (.ok gid, s') ∧ s' ≠ s := by
  obtain ⟨r, hr, hok⟩ := validateRoomJoin_decides s head req now
  obtain rfl := hok.2 h
  obtain ⟨gid, hgid⟩ := allocRoomGid_run s req.rid
  refine ⟨gid, s.entered head req gid (now' + chatSidTtl), ?_, s.entered_ne head req gid _⟩
  rw [chatRoomJoinHandler, hvalid, if_neg (by decide), Prog.run_bind, hr]
  have hno : (exec (.sismemberBlacklist req.rid req.uid) s).1 = false := decide_eq_false hbl
  simp only [roomJoinHandler, redo, Prog.issue_bind, Prog.ret_bind, Prog.run_issue, hno, Bool.false_eq_true, if_false]
  rw [Prog.run_bind, show (exec (.sismemberBlacklist req.rid req.uid) s).2 = s from rfl, hgid]
  rfl

theorem join_refused {req : MesgRoom} {now' : Int}
    (h : ¬(isValid head ∧ s.Joins head req now ∧ req.uid ∉ s.blacklist req.rid)) :
    ∃ err, (chatRoomJoinHandler head req now now').run exec s = (.error err, s) := by
  rw [chatRoomJoinHandler]
  split
  · exact ⟨_, rfl⟩
  rename_i hvalid
  obtain ⟨r, hr, hok⟩ := validateRoomJoin_decides s head req now
  rw [Prog.run_bind, hr]
  cases r with
  | error err => exact ⟨_, rfl⟩
  | ok _ =>
    have hbl : (exec (.sismemberBlacklist req.rid req.uid) s).1 = true := by
      refine decide_eq_true ?_
      by_contra hbl
      exact h ⟨by simpa using hvalid, hok.1 rfl, hbl⟩
    simp only [roomJoinHandler, redo, Prog.issue_bind, Prog.ret_bind, Prog.run_issue, hbl, if_true]
    exact ⟨_, rfl⟩

theorem chat_decides (s : Store) (head : MesgHeader) (req : MesgRoomChat) (now : Int) :
    s.Decides (chatRoomChatHandler head req now) (isValid head ∧ s.Chats head req now) := by
  rw [Decides, chatRoomChatHandler]
  cases hvalid : isValid head with
  | false => exact refuses _ (by simp)
  | true => simpa [Decides] using validateRoomChat_decides s head req now

end Store

/-! ## Policy -/

/-- The user who acts according to the body. -/
def Request.actor : Request → Option (BitVec 64)
  | .creat (.ok req) _ => some req.uid
  | .join (.ok req) | .quit (.ok req) | .dismiss (.ok req) => some req.uid
  | .chat (.ok req) => some req.uid
  | _ => none

/-- The role a request needs of the one who acts. -/
def Request.Needs (s : Store) (uid : BitVec 64) : Request → Prop
  | .kick (.ok req) => s.Owns req.rid uid ∨ (s.role req.rid).lookup uid = some roomRoleManager
  | .dismiss (.ok req) => s.Owns req.rid uid
  | _ => True

/-- The user of the session, as the user server has it, is the one on whose behalf the request acts,
and has the role for it. -/
def Authorized (head : MesgHeader) (s : Store) (req : Request) : Prop :=
  ∃ uid, s.im.boundUID head.sid = some uid ∧ (∀ actor, req.actor = some actor → actor = uid) ∧ req.Needs s uid

/-- The tables are changed, or something is sent to others or stored. -/
def Out.Acts (s : Store) (out : Out) : Prop := out.store ≠ s ∨ out.sent ≠ [] ∨ out.stored.isSome

/-- What a request must find to act. -/
def Effective (env : Env) (head : MesgHeader) (s : Store) : Request → Prop
  | .creat (.ok req) rid => isValid head ∧ ∃ r, rid = .ok r ∧ insertable s r req.uid
  | .join (.ok req) => isValid head ∧ s.Joins head req env.now ∧ req.uid ∉ s.blacklist req.rid
  | .quit (.ok req) => isValid head ∧ req.uid ≠ 0 ∧ req.rid ≠ 0 ∧
      (env.nodes ≠ [] ∨ head.sid ∈ s.ridToSid req.rid ∨ (req.uid, head.sid) ∈ s.ridToUidSid req.rid)
  | .kick (.ok req) => s.KickOk head req
  | .dismiss (.ok req) => s.Dismisses head req env.now
  | .chat (.ok req) => isValid head ∧ s.Chats head req env.now
  | _ => False

/-! ## What acts -/

variable {env : Env} {head : MesgHeader} {s s' : Store} {rid uid : BitVec 64}

theorem not_acts_same (s : Store) : ¬(⟨s, [], none⟩ : Out).Acts s := by
  rintro (h | h | h)
  · exact h rfl
  · exact h rfl
  · cases h

theorem outcome_ok {α : Type} {p : Redis (Except String α)} {a : α} {sent : List Packet} {stored : Option Stored}
    (h : p.run exec s = (.ok a, s')) : s.outcome p sent stored = ⟨s', sent, stored⟩ := by
  rw [Store.outcome, h]

theorem outcome_error {α : Type} {p : Redis (Except String α)} {err : String} {sent : List Packet}
    {stored : Option Stored} (h : p.run exec s = (.error err, s')) : s.outcome p sent stored = ⟨s', [], none⟩ := by
  rw [Store.outcome, h]

/-- A request that changes the tables if it is carried out. -/
theorem outcome_acts {α : Type} {p : Redis (Except String α)} {sent : List Packet} {stored : Option Stored} {P : Prop}
    [Decidable P]
    (hok : P → ∃ a s', p.run exec s = (.ok a, s') ∧ (s' ≠ s ∨ stored.isSome))
    (herr : ¬P → ∃ err, p.run exec s = (.error err, s)) : (s.outcome p sent stored).Acts s ↔ P := by
  by_cases h : P
  · obtain ⟨a, s', hrun, hacts⟩ := hok h
    rw [outcome_ok hrun]
    exact iff_of_true (hacts.imp_right .inr) h
  · obtain ⟨err, hrun⟩ := herr h
    rw [outcome_error hrun]
    exact iff_of_false (not_acts_same s) h

theorem creat_acts_iff (req : MesgRoomCreat) (rid : Except String (BitVec 64)) (now : Int) :
    (s.outcome (chatRoomCreatHandler head req rid now) [] none).Acts s ↔
      isValid head ∧ ∃ r, rid = .ok r ∧ insertable s r req.uid := by
  unfold chatRoomCreatHandler
  cases isValid head with
  | false => exact iff_of_false (not_acts_same s) (by simp)
  | true =>
    cases rid with
    | error err => exact iff_of_false (not_acts_same s) (by simp)
    | ok rid =>
      simp only [Bool.not_true, Bool.false_eq_true, if_false, true_and, Except.ok.injEq, exists_eq_left']
      by_cases h : insertable s rid req.uid
      · have hne := s.create_outcome now h
        refine iff_of_true (.inl ?_) h
        unfold Store.outcome
        split
        · rename_i hrun
          rwa [hrun] at hne
        · rename_i hrun
          rwa [hrun] at hne
      · obtain ⟨err, hrun⟩ := s.create_refused now h
        rw [outcome_error hrun]
        exact iff_of_false (not_acts_same s) h

theorem quit_acts_iff (req : MesgRoom) :
    (s.outcome (chatRoomQuitHandler head req) (roomQuitNotify env req) none).Acts s ↔
    isValid head ∧ req.uid ≠ 0 ∧ req.rid ≠ 0 ∧
      (env.nodes ≠ [] ∨ head.sid ∈ s.ridToSid req.rid ∨ (req.uid, head.sid) ∈ s.ridToUidSid req.rid) := by
  by_cases h : isValid head ∧ req.uid ≠ 0 ∧ req.rid ≠ 0
  · rw [outcome_ok (Store.quit_outcome h.1 h.2.1 h.2.2), and_iff_right h.1, and_iff_right h.2.1, and_iff_right h.2.2]
    constructor
    · rintro (hne | hsent | hstored)
      · by_contra hno
        push Not at hno
        have hsid := (put_rem_iff rfl).2 hno.2.1
        have huid := (put_rem_iff rfl).2 hno.2.2
        rw [hsid, huid] at hne
        exact hne rfl
      · exact .inl fun hnil => hsent (by rw [roomQuitNotify, hnil]; rfl)
      · cases hstored
    · rintro (hnodes | hsid | huid)
      · exact .inr (.inl fun hnil => hnodes (List.map_eq_nil_iff.1 hnil))
      · exact .inl fun heq => absurd hsid ((put_rem_iff rfl).1 (congrArg Store.ridToSid heq))
      · exact .inl fun heq => absurd huid ((put_rem_iff rfl).1 (congrArg Store.ridToUidSid heq))
  · obtain ⟨err, hrun⟩ := s.quit_refused h
    rw [outcome_error hrun]
    exact iff_of_false (not_acts_same s) fun h' => h ⟨h'.1, h'.2.1, h'.2.2.1⟩

/-- A request acts exactly when it is effective. -/
theorem handle_acts_iff (env : Env) (head : MesgHeader) (s : Store) (req : Request) :
    (handle env head s req).Acts s ↔ Effective env head s req := by
  classical
  cases req with
  | creat body rid =>
    cases body with
    | error err => exact iff_of_false (not_acts_same s) id
    | ok req => exact creat_acts_iff req rid env.now
  | join body =>
    cases body with
    | error err => exact iff_of_false (not_acts_same s) id
    | ok req =>
      refine outcome_acts (fun h => ?_) Store.join_refused
      obtain ⟨gid, s', hrun, hne⟩ := Store.join_outcome env.now' h.1 h.2.1 h.2.2
      exact ⟨gid, s', hrun, .inl hne⟩
  | quit body =>
    cases body with
    | error err => exact iff_of_false (not_acts_same s) id
    | ok req => exact quit_acts_iff req
  | kick body =>
    cases body with
    | error err => exact iff_of_false (not_acts_same s) id
    | ok req => exact outcome_acts (fun h => ⟨(), _, Store.kick_run_ok h, .inr rfl⟩) Store.kick_run_refused
  | dismiss body =>
    cases body with
    | error err => exact iff_of_false (not_acts_same s) id
    | ok req =>
      rcases s.dismiss_outcome head req env.now with ⟨h, s', hrun, hne⟩ | ⟨h, err, hrun⟩
      · exact outcome_acts (fun _ => ⟨(), s', hrun, .inl hne⟩) fun hno => absurd h hno
      · exact outcome_acts (fun hyes => absurd hyes h) fun _ => ⟨err, hrun⟩
  | chat body =>
    cases body with
    | error err => exact iff_of_false (not_acts_same s) id
    | ok req =>
      obtain ⟨r, hrun, hok⟩ := s.chat_decides head req env.now
      refine outcome_acts (fun h => ⟨(), s, hok.2 h ▸ hrun, .inr rfl⟩) fun h => ?_
      cases r with
      | error err => exact ⟨err, hrun⟩
      | ok _ => exact absurd (hok.1 rfl) h

/-! ## Roles -/

namespace Store

/-- Nobody has a role but the owners. -/
def Ranked (s : Store) : Prop := ∀ rid uid role, (s.role rid).lookup uid = some role → role = roomRoleOwner

theorem Ranked.of_eq (hs : s.Ranked) (h : s'.role = s.role) : s'.Ranked := by rwa [Ranked, h]

theorem exec_ranked {c : Cmd} (hc : Cmd.Ordinary c) (hs : s.Ranked) : (exec c s).2.Ranked := by
  cases c with
  | hsetnxRole rid uid role => exact hc.elim
  | delRole rid =>
    intro r u role hrole
    change (put s.role rid (fun _ => ∅) r).lookup u = some role at hrole
    rw [put_apply] at hrole
    split at hrole
    · cases hrole
    · exact hs r u role hrole
  | insertInfo rid uid now =>
    rw [exec]
    split <;> exact hs
  | closeInfo rid now =>
    rw [exec]
    split <;> exact hs
  | _ => exact hs

theorem run_ranked {α : Type} {p : Redis α} (hp : p.Only Cmd.Ordinary) (hs : s.Ranked) : (p.run exec s).2.Ranked :=
  hp.run (R := fun s s' => s.Ranked → s'.Ranked) exec (fun _ => id) (fun _ _ _ h h' hs => h' (h hs))
  (fun _ hc _ => exec_ranked hc) s hs

theorem create_ranked (rid uid : BitVec 64) (now : Int) (hs : s.Ranked) :
    ((roomCreateHandler rid uid now).run exec s).2.Ranked := by
  have hins : (exec (.insertInfo rid uid now) s).2.Ranked := exec_ranked trivial hs
  rw [roomCreateHandler, redo, Prog.issue_bind, Prog.run_issue, Prog.ret_bind, Prog.run_ite]
  split
  · exact hins
  · generalize (exec (.insertInfo rid uid now) s).2 = t at hins
    rw [redo, Prog.issue_bind, Prog.run_issue, Prog.ret_bind, Prog.run_ite]
    have hset : (exec (.hsetnxRole rid uid roomRoleOwner) t).2.Ranked := by
      rw [exec]
      split
      · exact hins
      · intro r u role hrole
        change (put t.role rid (AList.insert uid roomRoleOwner) r).lookup u = some role at hrole
        rw [put_apply] at hrole
        split at hrole
        · by_cases hu : u = uid
          · subst hu
            rw [AList.lookup_insert] at hrole
            exact (Option.some.inj hrole).symm
          · rw [AList.lookup_insert_ne hu] at hrole
            exact hins r u role hrole
        · exact hins r u role hrole
    split
    · exact hset
    · exact hset

theorem cleanByRid_role (s : Store) (rid : BitVec 64) : ((s.cleanByRid rid).getD s).role = s.role := by
  rw [cleanByRid, cleanSidByRid_eq, zremRids_rest]
  rfl

theorem cleanRidSet_ranked (ctm : Int) (hs : s.Ranked) : ((s.cleanRidSet ctm).getD s).Ranked := by
  obtain ⟨s', hs'⟩ := cleanRidSet_total s ctm
  rw [hs']
  refine paged_keeps Ranked (fun t off ht => ?_) _ _ _ _ hs hs'
  have hpage : ∀ (page : List (BitVec 64 × Int)) (t : Store), t.Ranked →
      (page.foldl (fun s e => (s.cleanByRid (parseInt e.1)).getD s) t).Ranked := by
    intro page
    induction page with
    | nil => exact fun _ ht => ht
    | cons e page ih => exact fun t ht => ih _ (ht.of_eq (cleanByRid_role t _))
  exact hpage _ t ht

/-- The store after an event -/
def next (s : Store) (event : Event) : Store := (s.step event).getD s

theorem next_ranked (hs : s.Ranked) (event : Event) : (s.next event).Ranked := by
  cases event with
  | imOnline head req now seq | imPing head now | imOffline head => exact hs
  | imSweep ctm =>
    obtain ⟨im, him, -⟩ := s.im.cleanSidZset_erased ctm
    rw [next, step, him]
    exact hs
  | online head req now => exact run_ranked ((onlineHandler_aside head req now).mono aside_ordinary) hs
  | ping head now now' =>
    change ((chatRoomPingHandler head now now').run exec s).2.Ranked
    by_cases hvalid : isValid head
    · by_cases h : s.Accepts head
      · obtain ⟨s', room, hr, hrun⟩ := ping_of_accepts now now' hvalid h
        have hrole : s'.role = s.role := by rw [hr.rest]
        rw [hrun]
        exact hs.of_eq hrole
      · rw [ping_of_not_accepts now now' hvalid h]
        exact run_ranked ((roomCleanSessionData_aside _ _ _).mono aside_ordinary) hs
    · rw [ping_of_not_valid s now now' hvalid]
      exact hs
  | offline head => exact run_ranked ((chatRoomOfflineHandler_aside head).mono aside_ordinary) hs
  | create rid uid now => exact create_ranked rid uid now hs
  | join head req now now' =>
    change ((chatRoomJoinHandler head req now now').run exec s).2.Ranked
    rcases join_run s head req now now' with h | ⟨-, -, gid, h⟩
    · rw [h]
      exact hs
    · rw [h]
      exact hs
  | quit head req => exact run_ranked ((chatRoomQuitHandler_aside head req).mono aside_ordinary) hs
  | kick head req => exact run_ranked ((chatRoomKickHandler_aside head req).mono aside_ordinary) hs
  | dismiss head req now => exact run_ranked (chatRoomDismissHandler_ordinary head req now) hs
  | closeRoom rid now => exact run_ranked (dismissRoomByRid_ordinary rid now) hs
  | setBlacklist rid uid add => exact run_ranked ((setBlacklist_aside rid uid add).mono aside_ordinary) hs
  | cleanRidSet ctm => exact cleanRidSet_ranked ctm hs

/-- What some events leave of empty tables. -/
def reached (events : List Event) : Store := events.foldl next empty

theorem foldl_ranked : ∀ (events : List Event) {s : Store}, s.Ranked → (events.foldl next s).Ranked
  | [], _, hs => hs
  | event :: events, _, hs => foldl_ranked events (next_ranked hs event)

theorem reached_ranked (events : List Event) : (reached events).Ranked :=
  foldl_ranked events fun _ _ _ h => by cases h

end Store

/-! ## Who is trusted -/

/-- The session is of the user whom the body names; for a kick, of the user whom the session has in
the table of this server, or of one who has the role himself. -/
def Genuine (head : MesgHeader) (s : Store) : Request → Prop
  | .kick (.ok req) => ∃ uid, s.im.boundUID head.sid = some uid ∧
      ((s.room.getSidAttr head.sid).uid = uid ∨ (Request.kick (.ok req)).Needs s uid)
  | req => ∀ actor, req.actor = some actor → s.im.boundUID head.sid = some actor

theorem actor_authorized_iff {req : Request} {actor : BitVec 64} (hactor : req.actor = some actor)
    (hneeds : req.Needs s actor) :
    Authorized head s req ↔ ∀ actor, req.actor = some actor → s.im.boundUID head.sid = some actor := by
  unfold Authorized
  constructor
  · rintro ⟨u, hu, h, -⟩ a ha
    rw [h a ha]
    exact hu
  · intro h
    exact ⟨actor, h actor hactor, fun a ha => Option.some.inj (ha.symm.trans hactor), hneeds⟩

theorem effective_authorized_iff (hs : s.Ranked) {req : Request} (h : Effective env head s req) :
    Authorized head s req ↔ Genuine head s req := by
  cases req with
  | creat body rid =>
    cases body with
    | error err => cases h
    | ok req => exact actor_authorized_iff rfl trivial
  | join body | quit body =>
    cases body with
    | error err => cases h
    | ok req => exact actor_authorized_iff rfl trivial
  | dismiss body =>
    cases body with
    | error err => cases h
    | ok req => exact actor_authorized_iff rfl h.owns
  | chat body =>
    cases body with
    | error err => cases h
    | ok req => exact actor_authorized_iff rfl trivial
  | kick body =>
    cases body with
    | error err => cases h
    | ok req =>
      obtain ⟨role, hrole⟩ := Option.isSome_iff_exists.1 (AList.lookup_isSome.2 h.2)
      obtain rfl := hs _ _ _ hrole
      constructor
      · rintro ⟨u, hu, -, hneeds⟩
        exact ⟨u, hu, .inr hneeds⟩
      · rintro ⟨u, hu, rfl | hneeds⟩
        · exact ⟨_, hu, by simp [Request.actor], .inl (.inr hrole)⟩
        · exact ⟨u, hu, by simp [Request.actor], hneeds⟩

/-- In every state that the servers come to, a request acts with the authority of its session
exactly when it has no effect, or the session is of the user whom it takes to act. -/
theorem room_authority_iff (events : List Event) (env : Env) (head : MesgHeader) (req : Request) :
    ((handle env head (Store.reached events) req).Acts (Store.reached events) →
    Authorized head (Store.reached events) req) ↔
      (Effective env head (Store.reached events) req → Genuine head (Store.reached events) req) := by
  rw [handle_acts_iff]
  exact forall_congr' (effective_authorized_iff (Store.reached_ranked events))

/-- The session 9 of the user 5 creates a room in the name of the user 7. -/
theorem created_for_another : ¬∀ events env head req,
    (handle env head (Store.reached events) req).Acts (Store.reached events) →
    Authorized head (Store.reached events) req := by
  intro h
  obtain ⟨uid, huid, hactor, -⟩ := h [.imOnline ⟨9, 9, 1⟩ ⟨5, 9⟩ 0 true] ⟨0, 0, [], fun _ => []⟩ ⟨9, 9, 1⟩
    (.creat (.ok ⟨7⟩) (.ok 1))
    ((handle_acts_iff _ _ _ _).2 ⟨by decide, 1, rfl, by decide⟩)
  obtain rfl := hactor 7 rfl
  exact absurd huid (by decide)

end BeehiveIm.Room
