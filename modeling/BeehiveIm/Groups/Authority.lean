/-
On whose behalf the group requests act. The requests for managers look up the user of the session;
the others take the user from the body as it comes, and act for him whoever sent them.
-/
import BeehiveIm.Groups.Owner

namespace BeehiveIm.Groups

open BeehiveIm.Lib
open BeehiveIm.Session (MesgHeader chatSidTtl)
open BeehiveIm.Room (isValid)

namespace Store

variable {s s' : Store} {gid uid sid : BitVec 64}

/-- Two stores that answer alike: the roles are compared as what they say of each user. -/
structure Alike (s s' : Store) : Prop where
  gidZset : s'.gidZset = s.gidZset
  role : ∀ g u, (s'.role g).lookup u = (s.role g).lookup u
  uidToGid : s'.uidToGid = s.uidToGid
  gidToUid : s'.gidToUid = s.gidToUid
  gidToSid : s'.gidToSid = s.gidToSid
  gidToNid : s'.gidToNid = s.gidToNid
  gag : s'.gag = s.gag
  blacklist : s'.blacklist = s.blacklist

theorem Alike.rfl : Alike s s := ⟨Eq.refl _, fun _ _ => Eq.refl _, Eq.refl _, Eq.refl _, Eq.refl _, Eq.refl _,
    Eq.refl _, Eq.refl _⟩

/-! ## Keys that stay as they are -/

theorem hdel_iff (h : s'.role = put s.role gid (AList.erase uid)) :
    (∀ g u, (s'.role g).lookup u = (s.role g).lookup u) ↔ uid ∉ s.role gid := by
  rw [h]
  constructor
  · intro h hmem
    have hrole := h gid uid
    rw [put_apply, if_pos rfl, AList.lookup_erase] at hrole
    exact absurd hmem (AList.lookup_eq_none.1 hrole.symm)
  · intro hno g u
    rw [put_apply]
    split
    · rename_i hg
      subst hg
      by_cases hu : u = uid
      · subst hu
        rw [AList.lookup_erase]
        exact (AList.lookup_eq_none.2 hno).symm
      · exact AList.lookup_erase_ne hu
    · rfl

theorem hset_iff {role : Int} (h : s'.role = put s.role gid (AList.insert uid role)) :
    (∀ g u, (s'.role g).lookup u = (s.role g).lookup u) ↔ (s.role gid).lookup uid = some role := by
  rw [h]
  constructor
  · intro h
    have hrole := h gid uid
    rw [put_apply, if_pos rfl, AList.lookup_insert] at hrole
    exact hrole.symm
  · intro hrole g u
    rw [put_apply]
    split
    · rename_i hg
      subst hg
      by_cases hu : u = uid
      · subst hu
        rw [AList.lookup_insert, hrole]
      · exact AList.lookup_insert_ne hu
    · rfl

/-! ## Calls with nothing to do -/

/-- The user has left no trace in the group. -/
def Absent (s : Store) (gid uid : BitVec 64) : Prop := uid ∉ s.role gid ∧ uid ∉ s.gidToUid gid ∧ gid ∉ s.uidToGid uid

/-- A call on a member that finds nothing to change. -/
def Idle (s : Store) : Call → Prop
  | .quit gid uid sid => sid ∉ s.gidToSid gid ∧ s.Absent gid uid
  | .kick gid uid => s.Absent gid uid ∧ uid ∉ s.gag gid
  | .setManager gid uid manager =>
    ∀ role, (s.role gid).lookup uid = some role → role = groupRoleOwner ∨ promoted role manager = none ∨
      promoted role manager = some role
  | .setGag gid uid true => uid ∈ s.gag gid
  | .setGag gid uid false => uid ∉ s.gag gid
  | .setBlacklist gid uid true => s.Absent gid uid ∧ uid ∉ s.gag gid ∧ uid ∈ s.blacklist gid
  | .setBlacklist gid uid false => uid ∉ s.blacklist gid
  | _ => False

theorem quit_alike_iff : Alike s (s.step (.quit gid uid sid)) ↔ s.Idle (.quit gid uid sid) := by
  constructor
  · intro h
    exact ⟨(put_rem_iff rfl).1 h.gidToSid, (hdel_iff rfl).1 h.role, (put_rem_iff rfl).1 h.gidToUid,
      (put_erase_iff rfl).1 h.uidToGid⟩
  · rintro ⟨hsid, hrole, huid, hgid⟩
    exact ⟨rfl, (hdel_iff rfl).2 hrole, (put_erase_iff rfl).2 hgid, (put_rem_iff rfl).2 huid,
      (put_rem_iff rfl).2 hsid, rfl, rfl, rfl⟩

theorem kick_alike_iff : Alike s (s.step (.kick gid uid)) ↔ s.Idle (.kick gid uid) := by
  constructor
  · intro h
    exact ⟨⟨(hdel_iff rfl).1 h.role, (put_rem_iff rfl).1 h.gidToUid, (put_erase_iff rfl).1 h.uidToGid⟩,
      (put_erase_iff rfl).1 h.gag⟩
  · rintro ⟨⟨hrole, huid, hgid⟩, hgag⟩
    exact ⟨rfl, (hdel_iff rfl).2 hrole, (put_erase_iff rfl).2 hgid, (put_rem_iff rfl).2 huid,
      rfl, rfl, (put_erase_iff rfl).2 hgag, rfl⟩

theorem setGag_alike_iff (gag : Bool) : Alike s (s.step (.setGag gid uid gag)) ↔ s.Idle (.setGag gid uid gag) := by
  cases gag with
  | true =>
    constructor
    · intro h
      exact (put_insert_iff rfl).1 h.gag
    · intro h
      exact ⟨rfl, fun _ _ => rfl, rfl, rfl, rfl, rfl, (put_insert_iff rfl).2 h, rfl⟩
  | false =>
    constructor
    · intro h
      exact (put_erase_iff rfl).1 h.gag
    · intro h
      exact ⟨rfl, fun _ _ => rfl, rfl, rfl, rfl, rfl, (put_erase_iff rfl).2 h, rfl⟩

theorem setBlacklist_alike_iff (add : Bool) :
    Alike s (s.step (.setBlacklist gid uid add)) ↔ s.Idle (.setBlacklist gid uid add) := by
  cases add with
  | true =>
    constructor
    · intro h
      exact ⟨⟨(hdel_iff rfl).1 h.role, (put_rem_iff rfl).1 h.gidToUid, (put_erase_iff rfl).1 h.uidToGid⟩,
        (put_erase_iff rfl).1 h.gag, (put_insert_iff rfl).1 h.blacklist⟩
    · rintro ⟨⟨hrole, huid, hgid⟩, hgag, hbl⟩
      exact ⟨rfl, (hdel_iff rfl).2 hrole, (put_erase_iff rfl).2 hgid, (put_rem_iff rfl).2 huid,
        rfl, rfl, (put_erase_iff rfl).2 hgag, (put_insert_iff rfl).2 hbl⟩
  | false =>
    constructor
    · intro h
      exact (put_erase_iff rfl).1 h.blacklist
    · intro h
      exact ⟨rfl, fun _ _ => rfl, rfl, rfl, rfl, rfl, rfl, (put_erase_iff rfl).2 h⟩

theorem setManager_alike_iff (manager : Bool) :
    Alike s (s.step (.setManager gid uid manager)) ↔ s.Idle (.setManager gid uid manager) := by
  by_cases h : ∀ role, (s.role gid).lookup uid = some role → role = groupRoleOwner
  · obtain ⟨err, herr⟩ := setManager_of_not_member h manager
    rw [step, Call.prog, herr]
    exact iff_of_true Alike.rfl fun role hrole => .inl (h role hrole)
  · push Not at h
    obtain ⟨role, hrole, hno⟩ := h
    have hidle : s.Idle (.setManager gid uid manager) ↔ promoted role manager = none ∨
        promoted role manager = some role := by
      constructor
      · intro h
        exact (h role hrole).resolve_left hno
      · intro h role' hrole'
        obtain rfl := Option.some.inj (hrole.symm.trans hrole')
        exact .inr h
    rw [step, Call.prog, setManager_of_member hrole hno, hidle]
    cases promoted role manager with
    | none => exact iff_of_true Alike.rfl (.inl rfl)
    | some role' =>
      constructor
      · intro h
        exact .inr (hrole ▸ ((hset_iff rfl).1 h.role).symm)
      · rintro (h | h)
        · cases h
        · cases h
          exact ⟨rfl, (hset_iff rfl).2 hrole, rfl, rfl, rfl, rfl, rfl, rfl⟩

end Store

/-! ## Policy -/

/-- The user who acts according to the body. -/
def Request.actor : Request → Option (BitVec 64)
  | .creat (.ok req) => some req.uid
  | .dismiss (.ok req) | .join (.ok req) | .quit (.ok req) => some req.uid
  | .invite (.ok req) => some req.uid
  | .chat (.ok req) => some req.uid
  | _ => none

/-- The user may manage the group, as one of its managers or its owner. -/
def Store.Manages (s : Store) (gid uid : BitVec 64) : Prop :=
  ∃ role, (s.role gid).lookup uid = some role ∧ chatGroupIsManager role

/-- The user has the role that a request needs of the one who acts. -/
def Request.Needs (s : Store) (uid : BitVec 64) : Request → Prop
  | .dismiss (.ok req) => s.Owns req.gid uid
  | .invite (.ok req) => s.Manages req.gid uid
  | .kick (.ok req) | .gag (.ok req) _ | .bl (.ok req) _ => s.Manages req.gid uid
  | .mgr (.ok req) _ => s.Owns req.gid uid
  | _ => True

/-- The user of the session is the one on whose behalf the request acts, and has the role for it. -/
def Authorized (im : Session.Store) (head : MesgHeader) (s : Store) (req : Request) : Prop :=
  ∃ uid, im.boundUID head.sid = some uid ∧ (∀ actor, req.actor = some actor → actor = uid) ∧ req.Needs s uid

/-- Sent to somebody else than the client that asks. -/
def Packet.Forwarded (p : Packet) : Prop :=
  match p.body with
  | .ack .. => False
  | _ => True

/-- The tables are changed or the message is forwarded, to the listeners or to the store of
messages. -/
def Out.Acts (s : Store) (out : Out) : Prop :=
  ¬s.Alike out.world.store ∨ (∃ p ∈ out.sent, p.Forwarded) ∨ out.item.isSome

variable {env : Env} {head : MesgHeader} {w w' : World} {s : Store}

theorem not_acts_fail (cmd code : Nat) (err : String) : ¬(fail w cmd head code err).Acts w.store := by
  rintro (h | ⟨p, hp, hf⟩ | h)
  · exact h .rfl
  · obtain rfl := List.mem_singleton.1 hp
    exact hf
  · cases h

theorem acts_done (cmd : Nat) (msg : String) : (done w' cmd head msg).Acts s ↔ ¬s.Alike w'.store := by
  constructor
  · rintro (h | ⟨p, hp, hf⟩ | h)
    · exact h
    · obtain rfl := List.mem_singleton.1 hp
      exact hf.elim
    · cases h
  · exact .inl

theorem acts_announce (ackCmd ntfCmd : Nat) (uid gid : BitVec 64) (now : Int) :
    (announce w' ackCmd ntfCmd head uid gid now).Acts s ↔ ¬s.Alike w'.store ∨
    groupGetGidToNidSet w'.store gid now ≠ [] := by
  refine or_congr_right ?_
  constructor
  · rintro (⟨p, hp, hf⟩ | h)
    · rcases List.mem_cons.1 hp with rfl | hp
      · exact hf.elim
      · intro hno
        rw [groupBroadcast, hno] at hp
        cases hp
    · cases h
  · intro h
    obtain ⟨nid, hnid⟩ := List.exists_mem_of_ne_nil _ h
    exact .inl ⟨_, List.mem_cons_of_mem _ (List.mem_map_of_mem hnid), trivial⟩

/-- What a request must find to act: the tables as the handler reads them, and something to change
or a node of the group to tell. -/
def Effective (env : Env) (head : MesgHeader) (w : World) : Request → Prop
  | .dismiss (.ok req) => isValid head ∧ w.store.Owns req.gid req.uid
  | .join (.ok req) => isValid head ∧ w.store.Admits req.gid req.uid env.now
  | .quit (.ok req) => isValid head ∧
      (¬w.store.Idle (.quit req.gid req.uid head.sid) ∨ groupGetGidToNidSet w.store req.gid env.now ≠ [])
  | .invite (.ok req) => isValid head ∧ w.store.Manages req.gid req.uid ∧ w.store.Admits req.gid req.toUid env.now ∧
      req.toUid ∉ w.store.role req.gid
  | .kick (.ok req) => isValid head ∧ manages env head w req.gid ∧
      (¬w.store.Idle (.kick req.gid req.uid) ∨ groupGetGidToNidSet w.store req.gid env.now ≠ [])
  | .gag (.ok req) on => isValid head ∧ manages env head w req.gid ∧
      (¬w.store.Idle (.setGag req.gid req.uid on) ∨ groupGetGidToNidSet w.store req.gid env.now ≠ [])
  | .bl (.ok req) add => isValid head ∧ manages env head w req.gid ∧
      (¬w.store.Idle (.setBlacklist req.gid req.uid add) ∨ groupGetGidToNidSet w.store req.gid env.now ≠ [])
  | .mgr (.ok req) add =>
    isValid head ∧ rules env head w req.gid ∧ req.uid ∈ w.store.role req.gid ∧ ¬w.store.Owns req.gid req.uid ∧
      (¬w.store.Idle (.setManager req.gid req.uid add) ∨ groupGetGidToNidSet w.store req.gid env.now ≠ [])
  | .chat (.ok req) => isValid head ∧ req.uid ∈ w.store.role req.gid ∧ req.uid ∉ w.store.gag req.gid ∧ req.text ≠ ""
  | _ => False

/-! ## What acts -/

theorem not_acts_refused (ret : Int) : ¬(⟨ret, w, [], none⟩ : Out).Acts w.store := by
  rintro (h | ⟨p, hp, -⟩ | h)
  · exact h .rfl
  · cases hp
  · cases h

theorem call_eq (call : Call) {r : Except String Unit} {s : Store} (h : call.prog.run exec w.store = (r, s)) :
    w.call call = (r, { w with store := s }) := by
  rw [World.call, Store.step, h]

theorem groupRequireManager_isOk (s : Store) (gid uid : BitVec 64) :
    (groupRequireManager s gid uid).isOk ↔ s.Manages gid uid := by
  unfold groupRequireManager Store.Manages
  cases (s.role gid).lookup uid with
  | none => simp [Except.isOk, Except.toBool]
  | some role =>
    dsimp only
    split
    · rename_i h
      simp [Except.isOk, Except.toBool, h]
    · rename_i h
      simp [Except.isOk, Except.toBool, h]

theorem isOk_iff {ε : Type} {r : Except ε Unit} : r.isOk ↔ r = .ok () := by
  cases r with
  | error err => simp [Except.isOk, Except.toBool]
  | ok _ => simp [Except.isOk, Except.toBool]

/-- An operation that goes well and leaves the nodes of the group as they are. -/
theorem acts_call (call : Call) (failed : String → World → Out) {ackCmd ntfCmd : Nat} {uid gid : BitVec 64} {now : Int}
    (hok : (call.prog.run exec w.store).1 = .ok ()) (hnid : (w.store.step call).gidToNid = w.store.gidToNid) :
    (match w.call call with
      | (.error err, w) => failed err w
      | (.ok (), w) => announce w ackCmd ntfCmd head uid gid now).Acts w.store ↔
      ¬w.store.Alike (w.store.step call) ∨ groupGetGidToNidSet w.store gid now ≠ [] := by
  have hcall : w.call call = (.ok (), { w with store := w.store.step call }) := Prod.ext hok rfl
  rw [hcall]
  refine (acts_announce ackCmd ntfCmd uid gid now).trans ?_
  rw [groupGetGidToNidSet, hnid, groupGetGidToNidSet]

/-- A member of the range as long as its score is not below it. -/
theorem online_nids (s : Store) (gid uid sid : BitVec 64) (nid : BitVec 32) (now : Int) :
    groupGetGidToNidSet (s.online gid uid sid nid (now + chatSidTtl)) gid now ≠ [] := by
  have hscore : ((s.online gid uid sid nid (now + chatSidTtl)).gidToNid gid).score nid = some (now + chatSidTtl) := by
    change ZSet.score (put s.gidToNid gid (fun z => z.add (now + chatSidTtl) nid) gid) nid = _
    rw [put_apply, if_pos rfl, ZSet.score_add, if_pos rfl]
  have hmem : (nid, now + chatSidTtl) ∈ ((s.online gid uid sid nid (now + chatSidTtl)).gidToNid gid).rangeByScore
      (some now) none := by
    refine List.mem_filter.2 ⟨ZSet.score_eq_some.1 hscore, ?_⟩
    have hle : now ≤ now + chatSidTtl := by
      unfold chatSidTtl
      omega
    simp [hle]
  exact List.ne_nil_of_mem (List.mem_map_of_mem hmem)

theorem join_acts_iff (req : MesgGroup) :
    (usrSvrGroupJoinHandler env head (.ok req) w).Acts w.store ↔ Effective env head w (.join (.ok req)) := by
  unfold usrSvrGroupJoinHandler Effective
  dsimp only
  cases isValid head with
  | false => exact iff_of_false (not_acts_refused _) (by simp)
  | true =>
    simp only [Bool.not_true, Bool.false_eq_true, if_false, true_and]
    by_cases h : w.store.Admits req.gid req.uid env.now
    · rw [call_eq (.joinOnline req.gid req.uid head.sid head.nid env.now env.now) (Store.joinOnline_of_admits h)]
      exact iff_of_true ((acts_announce ..).2 (.inr (online_nids _ _ _ _ _ _))) h
    · obtain ⟨err, herr⟩ := Store.joinOnline_of_not_admits head.sid head.nid env.now h
      rw [call_eq (.joinOnline req.gid req.uid head.sid head.nid env.now env.now) herr]
      exact iff_of_false (not_acts_fail _ _ _) h

theorem quit_acts_iff (req : MesgGroup) :
    (usrSvrGroupQuitHandler env head (.ok req) w).Acts w.store ↔ Effective env head w (.quit (.ok req)) := by
  unfold usrSvrGroupQuitHandler Effective
  dsimp only
  cases isValid head with
  | false => exact iff_of_false (not_acts_refused _) (by simp)
  | true =>
    simp only [Bool.not_true, Bool.false_eq_true, if_false, true_and]
    rw [← Store.quit_alike_iff]
    exact acts_call (.quit req.gid req.uid head.sid) (fun err w => fail w cmdGroupQuitAck head errSysSystem err) rfl rfl

theorem invite_acts_iff (req : MesgGroupInvite) :
    (usrSvrGroupInviteHandler env head (.ok req) w).Acts w.store ↔ Effective env head w (.invite (.ok req)) := by
  unfold usrSvrGroupInviteHandler Effective
  dsimp only
  rw [← groupRequireManager_isOk]
  cases isValid head with
  | false => exact iff_of_false (not_acts_refused _) (by simp)
  | true =>
    simp only [Bool.not_true, Bool.false_eq_true, if_false, true_and]
    generalize groupRequireManager w.store req.gid req.uid = r
    cases r with
    | error err => exact iff_of_false (not_acts_fail _ _ _) (by simp [Except.isOk, Except.toBool])
    | ok _ =>
      dsimp only
      by_cases h : w.store.Admits req.gid req.toUid env.now ∧ req.toUid ∉ w.store.role req.gid
      · rw [call_eq (.addMember req.gid req.toUid env.now) (Store.addMember_of_admits h.1 h.2)]
        refine iff_of_true ((acts_announce ..).2 (.inl fun halike => ?_)) ⟨rfl, h⟩
        have hrole := (Store.hset_iff rfl).1 halike.role
        exact h.2 (AList.lookup_isSome.1 (by rw [hrole]; rfl))
      · obtain ⟨err, herr⟩ := Store.addMember_of_not_admits h
        rw [call_eq (.addMember req.gid req.toUid env.now) herr]
        exact iff_of_false (not_acts_fail _ _ _) fun h' => h h'.2

theorem dismiss_acts_iff (req : MesgGroup) :
    (usrSvrGroupDismissHandler env head (.ok req) w).Acts w.store ↔ Effective env head w (.dismiss (.ok req)) := by
  unfold usrSvrGroupDismissHandler Effective
  dsimp only
  cases isValid head with
  | false => exact iff_of_false (not_acts_refused _) (by simp)
  | true =>
    simp only [Bool.not_true, Bool.false_eq_true, if_false, true_and]
    by_cases h : (w.store.role req.gid).lookup req.uid = some groupRoleOwner
    · rw [if_neg (not_not.2 h), call_eq (.dismiss req.gid) (Store.dismiss_run w.store req.gid)]
      refine iff_of_true ((acts_done ..).2 fun halike => ?_) h
      have hrole := halike.role req.gid req.uid
      rw [show AList.lookup req.uid (put w.store.role req.gid (fun _ => ∅) req.gid) =
        none by rw [put_apply, if_pos rfl]; rfl, h] at hrole
      cases hrole
    · rw [if_pos h]
      exact iff_of_false (not_acts_fail _ _ _) h

theorem kick_acts_iff (req : MesgGroup) :
    (usrSvrGroupKickHandler env head (.ok req) w).Acts w.store ↔ Effective env head w (.kick (.ok req)) := by
  unfold usrSvrGroupKickHandler Effective manages
  dsimp only
  cases isValid head with
  | false => exact iff_of_false (not_acts_refused _) (by simp)
  | true =>
    simp only [Bool.not_true, Bool.false_eq_true, if_false, true_and]
    cases groupOperatorUID env.im head with
    | error err => exact iff_of_false (not_acts_fail _ _ _) (by simp [bind, Except.bind, Except.isOk, Except.toBool])
    | ok operator =>
      dsimp only [bind, Except.bind]
      generalize groupRequireManager w.store req.gid operator = r
      cases r with
      | error err => exact iff_of_false (not_acts_fail _ _ _) (by simp [Except.isOk, Except.toBool])
      | ok _ =>
        rw [← Store.kick_alike_iff, and_iff_right (isOk_iff.2 rfl)]
        exact acts_call (.kick req.gid req.uid) (fun err w => fail w cmdGroupKickAck head errSysSystem err) rfl rfl

/-- `ctxGroupGag` and `ctxGroupBL` -/
theorem set_acts_iff (ackCmd ntfCmd : Nat) (call : BitVec 64 → BitVec 64 → Call) (req : MesgGroup)
    (halike : w.store.Alike (w.store.step (call req.gid req.uid)) ↔ w.store.Idle (call req.gid req.uid))
    (hok : ((call req.gid req.uid).prog.run exec w.store).1 = .ok ())
    (hnid : (w.store.step (call req.gid req.uid)).gidToNid = w.store.gidToNid) :
    (ctxGroupSet ackCmd ntfCmd call env head (.ok req) w).Acts w.store ↔ isValid head ∧ manages env head w req.gid ∧
      (¬w.store.Idle (call req.gid req.uid) ∨ groupGetGidToNidSet w.store req.gid env.now ≠ []) := by
  unfold ctxGroupSet manages
  dsimp only
  cases isValid head with
  | false => exact iff_of_false (not_acts_refused _) (by simp)
  | true =>
    simp only [Bool.not_true, Bool.false_eq_true, if_false, true_and]
    generalize groupOperatorUID env.im head >>= groupRequireManager w.store req.gid = r
    cases r with
    | error err => exact iff_of_false (not_acts_fail _ _ _) (by simp [Except.isOk, Except.toBool])
    | ok _ =>
      rw [← halike, and_iff_right (isOk_iff.2 rfl)]
      exact acts_call (call req.gid req.uid) (fun err w => fail w ackCmd head errSysSystem err) hok hnid

theorem gag_acts_iff (req : MesgGroup) (on : Bool) :
    (ctxGroupGag on env head (.ok req) w).Acts w.store ↔ Effective env head w (.gag (.ok req) on) := by
  refine set_acts_iff _ _ _ req (Store.setGag_alike_iff on) ?_ ?_
  · cases on <;> rfl
  · cases on <;> rfl

theorem bl_acts_iff (req : MesgGroup) (add : Bool) :
    (ctxGroupBL add env head (.ok req) w).Acts w.store ↔ Effective env head w (.bl (.ok req) add) := by
  refine set_acts_iff _ _ _ req (Store.setBlacklist_alike_iff add) ?_ ?_
  · cases add <;> rfl
  · cases add <;> rfl

theorem mgr_acts_iff (req : MesgGroup) (add : Bool) :
    (ctxGroupMgr add env head (.ok req) w).Acts w.store ↔ Effective env head w (.mgr (.ok req) add) := by
  unfold ctxGroupMgr Effective rules
  dsimp only
  cases isValid head with
  | false => exact iff_of_false (not_acts_refused _) (by simp)
  | true =>
    simp only [Bool.not_true, Bool.false_eq_true, if_false, true_and]
    cases groupOperatorUID env.im head with
    | error err => exact iff_of_false (not_acts_fail _ _ _) (by simp)
    | ok operator =>
      dsimp only
      by_cases hrole : (w.store.role req.gid).lookup operator = some groupRoleOwner
      · rw [if_neg (not_not.2 hrole), decide_eq_true hrole, and_iff_right rfl]
        by_cases h : ∀ role, (w.store.role req.gid).lookup req.uid = some role → role = groupRoleOwner
        · obtain ⟨err, herr⟩ := Store.setManager_of_not_member h add
          rw [call_eq (.setManager req.gid req.uid add) herr]
          refine iff_of_false (not_acts_fail _ _ _) ?_
          rintro ⟨hmem, hno, -⟩
          obtain ⟨role, hlookup⟩ := Option.isSome_iff_exists.1 (AList.lookup_isSome.2 hmem)
          obtain rfl := h role hlookup
          exact hno hlookup
        · push Not at h
          obtain ⟨role, hlookup, hno⟩ := h
          have hrun := Store.setManager_of_member hlookup hno add
          have hmem : req.uid ∈ w.store.role req.gid := AList.lookup_isSome.1 (by rw [hlookup]; rfl)
          have howns : ¬w.store.Owns req.gid req.uid := fun h => hno (Option.some.inj (hlookup.symm.trans h))
          rw [← Store.setManager_alike_iff, and_iff_right hmem, and_iff_right howns]
          refine acts_call (.setManager req.gid req.uid add) (fun err w => fail w _ head errSvrCheckFail err) ?_ ?_
          · exact congrArg Prod.fst hrun
          · rw [Store.step, Call.prog, hrun]
            dsimp only
            split
            · rfl
            · rfl
      · rw [if_pos hrole, decide_eq_false hrole]
        exact iff_of_false (not_acts_fail _ _ _) (by simp)

theorem chat_acts_iff (req : MesgGroupChat) :
    (msgSvrGroupChatHandler env head (.ok req) w).Acts w.store ↔ Effective env head w (.chat (.ok req)) := by
  unfold msgSvrGroupChatHandler Effective
  dsimp only
  cases isValid head with
  | false => exact iff_of_false (not_acts_refused _) (by simp)
  | true =>
    simp only [Bool.not_true, Bool.false_eq_true, if_false, true_and]
    split
    · rename_i hrole
      refine iff_of_false (not_acts_fail _ _ _) fun h => ?_
      exact AList.lookup_eq_none.1 (Option.isNone_iff_eq_none.1 hrole) h.1
    · rename_i hrole
      split
      · rename_i hgag
        exact iff_of_false (not_acts_fail _ _ _) fun h => h.2.1 hgag
      · rename_i hgag
        split
        · rename_i htext
          exact iff_of_false (not_acts_fail _ _ _) fun h => h.2.2 htext
        · rename_i htext
          refine iff_of_true (.inr (.inr rfl)) ⟨?_, hgag, htext⟩
          by_contra hno
          exact hrole (Option.isNone_iff_eq_none.2 (AList.lookup_eq_none.2 hno))

theorem not_creat_acts (req : MesgGroupCreat) : ¬(usrSvrGroupCreatHandler env head (.ok req) w).Acts w.store := by
  unfold usrSvrGroupCreatHandler
  split
  · exact not_acts_refused _
  · dsimp only
    split
    · exact not_acts_fail _ _ _
    · obtain ⟨err, w', halloc, hw'⟩ := allocGid_error w
      rw [halloc, ← hw']
      exact not_acts_fail _ _ _

/-- A request acts exactly when it is effective. -/
theorem handle_acts_iff (req : Request) :
    (handle env head req w).Acts w.store ↔ Effective env head w req := by
  have hbody : ∀ {cmd code : Nat} {err : String},
      ¬(if !isValid head then (⟨-1, w, [], none⟩ : Out) else fail w cmd head code err).Acts w.store := by
    intro cmd code err
    split
    · exact not_acts_refused _
    · exact not_acts_fail _ _ _
  cases req with
  | creat body =>
    cases body with
    | error err => exact iff_of_false hbody id
    | ok req => exact iff_of_false (not_creat_acts req) id
  | dismiss body =>
    cases body with
    | error err => exact iff_of_false hbody id
    | ok req => exact dismiss_acts_iff req
  | join body =>
    cases body with
    | error err => exact iff_of_false hbody id
    | ok req => exact join_acts_iff req
  | quit body =>
    cases body with
    | error err => exact iff_of_false hbody id
    | ok req => exact quit_acts_iff req
  | invite body =>
    cases body with
    | error err => exact iff_of_false hbody id
    | ok req => exact invite_acts_iff req
  | kick body =>
    cases body with
    | error err => exact iff_of_false hbody id
    | ok req => exact kick_acts_iff req
  | gag body on =>
    cases body with
    | error err => exact iff_of_false hbody id
    | ok req => exact gag_acts_iff req on
  | bl body add =>
    cases body with
    | error err => exact iff_of_false hbody id
    | ok req => exact bl_acts_iff req add
  | mgr body add =>
    cases body with
    | error err => exact iff_of_false hbody id
    | ok req => exact mgr_acts_iff req add
  | chat body =>
    cases body with
    | error err => exact iff_of_false hbody id
    | ok req => exact chat_acts_iff req

/-! ## Who is trusted -/

/-- The session is of the user whom the body names, or, where the body names nobody, of one whom the
server reads as he is or who has the role himself. -/
def Genuine (im : Session.Store) (head : MesgHeader) (s : Store) (req : Request) : Prop :=
  match req.actor with
  | some actor => im.boundUID head.sid = some actor
  | none => ∃ uid, im.boundUID head.sid = some uid ∧ (uid.toNat < 2 ^ 63 ∨ req.Needs s uid)

theorem operator_session {im : Session.Store} {operator : BitVec 64} (h : groupOperatorUID im head = .ok operator) :
    ∃ uid, im.boundUID head.sid = some uid ∧ (uid.toNat < 2 ^ 63 → operator = uid) := by
  unfold groupOperatorUID at h
  dsimp only at h
  split at h
  · cases h
  · rename_i hne
    cases h
    exact im.boundUID_of_read hne

theorem manages_iff {gid : BitVec 64} : manages env head w gid ↔
    ∃ operator, groupOperatorUID env.im head = .ok operator ∧ w.store.Manages gid operator := by
  unfold manages
  cases groupOperatorUID env.im head with
  | error err => simp [bind, Except.bind, Except.isOk, Except.toBool]
  | ok operator => simp [bind, Except.bind, groupRequireManager_isOk]

theorem rules_iff {gid : BitVec 64} : rules env head w gid ↔
    ∃ operator, groupOperatorUID env.im head = .ok operator ∧ w.store.Owns gid operator := by
  unfold rules
  cases groupOperatorUID env.im head with
  | error err => simp
  | ok operator => simp [Store.Owns]

/-- The role is that of the user as the server reads him. -/
theorem operator_authorized_iff {im : Session.Store} {req : Request} (hactor : req.actor = none)
    (h : ∃ operator, groupOperatorUID im head = .ok operator ∧ req.Needs s operator) :
    Authorized im head s req ↔ Genuine im head s req := by
  obtain ⟨operator, hop, hneeds⟩ := h
  obtain ⟨uid, huid, hsmall⟩ := operator_session hop
  unfold Authorized Genuine
  rw [hactor, huid]
  constructor
  · rintro ⟨u, hu, -, hneed⟩
    exact ⟨u, hu, .inr hneed⟩
  · rintro ⟨u, hu, hlt | hneed⟩
    · cases hu
      exact ⟨uid, rfl, by simp, hsmall hlt ▸ hneeds⟩
    · exact ⟨u, hu, by simp, hneed⟩

/-- The role is that of the user whom the body names. -/
theorem actor_authorized_iff {im : Session.Store} {req : Request} {actor : BitVec 64} (hactor : req.actor = some actor)
    (hneeds : req.Needs s actor) : Authorized im head s req ↔ Genuine im head s req := by
  unfold Authorized Genuine
  rw [hactor]
  constructor
  · rintro ⟨u, hu, h, -⟩
    rw [h actor rfl]
    exact hu
  · intro h
    exact ⟨actor, h, fun a ha => (Option.some.inj ha).symm, hneeds⟩

theorem effective_authorized_iff {req : Request} (h : Effective env head w req) :
    Authorized env.im head w.store req ↔ Genuine env.im head w.store req := by
  cases req with
  | creat body => exact h.elim
  | dismiss body =>
    cases body with
    | error err => cases h
    | ok req => exact actor_authorized_iff rfl h.2
  | join body | quit body =>
    cases body with
    | error err => cases h
    | ok req => exact actor_authorized_iff rfl trivial
  | invite body =>
    cases body with
    | error err => cases h
    | ok req => exact actor_authorized_iff rfl h.2.1
  | chat body =>
    cases body with
    | error err => cases h
    | ok req => exact actor_authorized_iff rfl trivial
  | kick body =>
    cases body with
    | error err => cases h
    | ok req => exact operator_authorized_iff rfl (manages_iff.1 h.2.1)
  | gag body on =>
    cases body with
    | error err => cases h
    | ok req => exact operator_authorized_iff rfl (manages_iff.1 h.2.1)
  | bl body add =>
    cases body with
    | error err => cases h
    | ok req => exact operator_authorized_iff rfl (manages_iff.1 h.2.1)
  | mgr body add =>
    cases body with
    | error err => cases h
    | ok req => exact operator_authorized_iff rfl (rules_iff.1 h.2.1)

/-- Whatever state the requests before have led to, a request acts with the authority of its session
exactly when it has no effect, or the session is of the user whom it takes to act. -/
theorem group_authority_iff (w : World) (e : Event) :
    ((handle e.env e.head e.req w).Acts w.store → Authorized e.env.im e.head w.store e.req) ↔
    (Effective e.env e.head w e.req → Genuine e.env.im e.head w.store e.req) := by
  rw [handle_acts_iff]
  exact forall_congr' effective_authorized_iff

/-- The session 8 of the user 5, who has no role in the group 1, dismisses it in the name of its
owner. -/
theorem dismissed_by_another : ¬∀ (events : List Event) (e : Event),
    (handle e.env e.head e.req (events.foldl World.step .founded)).Acts (events.foldl World.step .founded).store →
    Authorized e.env.im e.head (events.foldl World.step .founded).store e.req := by
  intro h
  have hauth := h []
    ⟨⟨Session.Store.empty.updateOnlineData 5 8 2 3 0, 0, fun _ => []⟩, ⟨8, 3, 2⟩, .dismiss (.ok ⟨7, 1⟩)⟩
    ((handle_acts_iff _).2 ⟨by decide, by decide⟩)
  obtain ⟨uid, huid, hactor, -⟩ := hauth
  obtain rfl := hactor 7 rfl
  exact absurd huid (by decide)

end BeehiveIm.Groups
