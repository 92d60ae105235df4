/-
Whom a packet about personal relations acts for. FRIEND-ADD and FRIEND-DEL never look at the
session. The others do, but a body with a good header brings their parsers down first: nothing they
would write is ever written.
-/
import BeehiveIm.Relations
import BeehiveIm.Session.Index

namespace BeehiveIm.Relations

open BeehiveIm.Lib
open BeehiveIm.Session (MesgHeader parseInt Stores)
open BeehiveIm.Room (isValid)

/-- A packet for somebody else than the sender. -/
def Message.Notifies (m : Message) : Prop := m.cmd = cmdFriendAdd ∨ m.cmd = cmdFriendDel

/-- The relations change, or somebody is notified. -/
def Out.Acts (s : Store) (out : Out) : Prop := out.store ≠ s ∨ ∃ m ∈ out.sent, m.Notifies

/-- The session of the header is online for the user whom the body names as the acting one. -/
def Authorized (env : Env) (cmd : Cmd) (p : Packet) : Prop :=
  ∃ req, env.unmarshal cmd p.data = .ok req ∧ env.im.boundUID p.head.sid = some req.suid

/-- Whether some session of the user is one to be notified. -/
def Online (im : Session.Store) (uid : BitVec 64) : Prop :=
  ∃ sid ∈ im.uidToSid uid, (im.getSidAttr (parseInt sid)).nid ≠ 0 ∧ (im.getSidAttr (parseInt sid)).uid = uid

/-- What a packet must be to act. -/
def Effective (env : Env) (cmd : Cmd) (p : Packet) : Prop :=
  (cmd = .friendAdd ∨ cmd = .friendDel) ∧ isValid p.head ∧
    ∃ req, env.unmarshal cmd p.data = .ok req ∧ req.suid ≠ 0 ∧ req.duid ≠ 0 ∧ Online env.im req.duid

variable {env : Env} {p : Packet} {s : Store} {cmd : Cmd} {ackCmd ntfCmd : Nat} {req : MesgRelation}

/-- A session that is not online passes the check, whomever the body names. -/
theorem serve_of_absent (handler : Env → MesgRelation → Store → Store) (h : env.im.attr p.head.sid = none) :
    (serve ackCmd handler env p req s).store = handler env req s := by
  have hno : collides env p req = false := by simp [collides, Session.Store.getSidAttr, h]
  rw [serve, hno, if_neg Bool.false_ne_true]

/-! ## What acts -/

theorem not_notifies_ack (h : ackCmd ≠ cmdFriendAdd ∧ ackCmd ≠ cmdFriendDel) (code : Nat) (err : String) :
    ¬(ack ackCmd p code err).Notifies := by
  rintro (h' | h')
  · exact h.1 h'
  · exact h.2 h'

theorem not_acts_refused (ret : Option Int) : ¬(⟨ret, s, 0⟩ : Out).Acts s := by
  rintro (h | ⟨m, hm, -⟩)
  · exact h rfl
  · exact Multiset.notMem_zero m hm

theorem not_acts_acked (hack : ackCmd ≠ cmdFriendAdd ∧ ackCmd ≠ cmdFriendDel) (ret : Option Int) (code : Nat)
    (err : String) : ¬(⟨ret, s, {ack ackCmd p code err}⟩ : Out).Acts s := by
  rintro (h | ⟨m, hm, hn⟩)
  · exact h rfl
  · obtain rfl := Multiset.mem_singleton.1 hm
    exact not_notifies_ack hack code err hn

theorem deliver_isSome (ntfCmd : Nat) (p : Packet) (sid : BitVec 64) : (∃ m, deliver ntfCmd env p req sid = some m) ↔
    (env.im.getSidAttr (parseInt sid)).nid ≠ 0 ∧ (env.im.getSidAttr (parseInt sid)).uid = req.duid := by
  unfold deliver
  dsimp only
  split
  · rename_i h
    simp [← h]
  · rename_i h
    split
    · rename_i h'
      simp [h']
    · rename_i h'
      exact iff_of_true ⟨_, rfl⟩ ⟨Ne.symm h, not_not.1 h'⟩

theorem deliver_cmd {sid : BitVec 64} {m : Message} (h : deliver ntfCmd env p req sid = some m) : m.cmd = ntfCmd := by
  unfold deliver at h
  dsimp only at h
  split at h
  · cases h
  · split at h
    · cases h
    · cases h
      rfl

/-- The parsers of BLACKLIST and GAG bodies get no further than the header. -/
theorem relationParse_eq (cmd : Cmd) (env : Env) (p : Packet) :
    relationParse cmd env p = if isValid p.head then .panic else .nilHead := by
  unfold relationParse
  cases isValid p.head with
  | false => rfl
  | true => rfl

theorem relation_not_acts (handler : Env → MesgRelation → Store → Store) :
    ¬(usrSvrRelationHandler ackCmd (relationParse cmd) handler env p s).Acts s := by
  unfold usrSvrRelationHandler
  rw [relationParse_eq]
  cases isValid p.head with
  | false => exact not_acts_refused _
  | true => exact not_acts_refused _

theorem friend_acts_iff (hack : ackCmd ≠ cmdFriendAdd ∧ ackCmd ≠ cmdFriendDel)
    (hntf : ntfCmd = cmdFriendAdd ∨ ntfCmd = cmdFriendDel) :
    (usrSvrFriendHandler ackCmd (friendParse cmd) (friendHandler ntfCmd) env p s).Acts s ↔
      isValid p.head ∧ ∃ req, env.unmarshal cmd p.data = .ok req ∧ req.suid ≠ 0 ∧ req.duid ≠ 0 ∧
      Online env.im req.duid := by
  unfold usrSvrFriendHandler friendParse unmarshal
  cases isValid p.head with
  | false => exact iff_of_false (not_acts_refused _) (by simp)
  | true =>
    simp only [Bool.not_true, Bool.false_eq_true, if_false, if_true, true_and]
    cases env.unmarshal cmd p.data with
    | error err => exact iff_of_false (not_acts_acked hack _ _ _) (by simp)
    | ok req =>
      dsimp only
      by_cases h : 0 = req.suid ∨ 0 = req.duid
      · rw [if_pos h]
        refine iff_of_false (not_acts_acked hack _ _ _) ?_
        rintro ⟨_, ⟨⟩, hs, hd, -⟩
        exact h.elim (fun h => hs h.symm) fun h => hd h.symm
      · rw [if_neg h]
        rw [not_or] at h
        constructor
        · rintro (hne | ⟨m, hm, hn⟩)
          · exact absurd rfl hne
          · rcases Multiset.mem_cons.1 hm with rfl | hm
            · exact absurd hn (not_notifies_ack hack 0 "Ok")
            · obtain ⟨sid, hsid, hd⟩ := (Multiset.mem_filterMap _ _).1 hm
              exact ⟨req, rfl, Ne.symm h.1, Ne.symm h.2, sid, hsid, (deliver_isSome _ _ sid).1 ⟨m, hd⟩⟩
        · rintro ⟨_, ⟨⟩, -, -, sid, hsid, hon⟩
          obtain ⟨m, hd⟩ := (deliver_isSome ntfCmd p sid).2 hon
          refine .inr ⟨m, Multiset.mem_cons_of_mem ((Multiset.mem_filterMap _ _).2 ⟨sid, hsid, hd⟩), ?_⟩
          unfold Message.Notifies
          rw [deliver_cmd hd]
          exact hntf

theorem handle_acts_iff (cmd : Cmd) : (handle cmd env p s).Acts s ↔ Effective env cmd p := by
  unfold Effective
  cases cmd with
  | friendAdd =>
    rw [and_iff_right (.inl rfl)]
    exact friend_acts_iff (by decide) (.inl rfl)
  | friendDel =>
    rw [and_iff_right (.inr rfl)]
    exact friend_acts_iff (by decide) (.inr rfl)
  | blacklistAdd => exact iff_of_false (relation_not_acts _) (by simp)
  | blacklistDel => exact iff_of_false (relation_not_acts _) (by simp)
  | gagAdd => exact iff_of_false (relation_not_acts _) (by simp)
  | gagDel => exact iff_of_false (relation_not_acts _) (by simp)

/-- A packet acts with the authority of its session exactly when it has no effect, or the session is
bound to the user in the body. -/
theorem relation_authority_iff (env : Env) (cmd : Cmd) (p : Packet) (s : Store) :
    ((handle cmd env p s).Acts s → Authorized env cmd p) ↔
      (Effective env cmd p → ∃ req, env.unmarshal cmd p.data = .ok req ∧
      env.im.boundUID p.head.sid = some req.suid) := by
  rw [handle_acts_iff]
  exact Iff.rfl

/-- The session 8 of the user 5 notifies the user 7 in the name of the user 6. -/
theorem friend_added_for_another : ¬∀ (events : List Session.Event) (env : Env) (cmd : Cmd) (p : Packet) (s : Store),
    env.im = (events.foldl Stores.next Stores.init).im → (handle cmd env p s).Acts s → Authorized env cmd p := by
  intro h
  let events : List Session.Event := [.online ⟨8, 3, 2⟩ ⟨5, 8⟩ 0 true, .online ⟨9, 4, 2⟩ ⟨7, 9⟩ 0 true]
  let body : List (BitVec 8) := [8, 6, 16, 7, 26, 0]
  let env : Env := ⟨(events.foldl Stores.next Stores.init).im, 0, true,
    fun _ data => if data = body then .ok ⟨6, 7⟩ else .error "unexpected EOF"⟩
  have hacts : Effective env .friendAdd ⟨⟨8, 3, 2⟩, 1, 6, body⟩ :=
    ⟨.inl rfl, rfl, ⟨6, 7⟩, rfl, by decide, by decide, 9, by decide, by decide, by decide⟩
  obtain ⟨req, hreq, hbound⟩ := h events env .friendAdd ⟨⟨8, 3, 2⟩, 1, 6, body⟩ .empty rfl ((handle_acts_iff _).2 hacts)
  obtain rfl : (⟨6, 7⟩ : MesgRelation) = req := Except.ok.inj hreq
  exact absurd hbound (by decide)

end BeehiveIm.Relations
