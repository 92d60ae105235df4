/-
What a call with no other client about returns and leaves, and what that makes of the
roles: one lemma for each call.
-/
import BeehiveIm.Groups.Tables

namespace BeehiveIm.Groups

open BeehiveIm.Lib
open BeehiveIm.Session (chatSidTtl)

namespace Store

variable {s : Store} {gid uid sid g u : BitVec 64} {nid : BitVec 32} {now now' : Int}

/-- What `GroupExists` answers. -/
def lives (s : Store) (gid : BitVec 64) (now : Int) : Bool := (s.gidZset.score gid).any fun score => score > now

theorem groupExists_run_lives (s : Store) (gid : BitVec 64) (now : Int) :
    (groupExists gid now).run exec s = (s.lives gid now, s) := by
  rw [groupExists, Prog.run_bind, lives]
  change Prod.mk _ _ = _
  simp only [redo, Prog.run_issue, Prog.run_ret, exec]
  cases s.gidZset.score gid with
  | none => rfl
  | some score => rfl

theorem mem_of_lives (h : s.lives gid now) : gid ∈ s.gidZset := by
  by_contra hno
  rw [lives, ZSet.score_eq_none.2 hno] at h
  cases h

/-- A user who may join the group. -/
def Admits (s : Store) (gid uid : BitVec 64) (now : Int) : Prop := s.lives gid now ∧ uid ∉ s.blacklist gid

instance (s : Store) (gid uid : BitVec 64) (now : Int) : Decidable (s.Admits gid uid now) :=
  inferInstanceAs (Decidable (_ ∧ _))

/-! ## Joins -/

/-- The store with a member more. -/
def enter (s : Store) (gid uid : BitVec 64) : Store :=
  { s with
    role := put s.role gid (AList.insert uid groupRoleMember)
    uidToGid := put s.uidToGid uid (insert gid) }

/-- The store with a user online in the group. -/
def online (s : Store) (gid uid sid : BitVec 64) (nid : BitVec 32) (ttl : Int) : Store :=
  { s with
    gidToUid := put s.gidToUid gid fun z => z.add ttl uid
    gidToSid := put s.gidToSid gid fun z => z.add ttl sid
    gidToNid := put s.gidToNid gid fun z => z.add ttl nid }

theorem joinOnline_of_admits (h : s.Admits gid uid now) :
    (groupJoinOnline gid uid sid nid now now').run exec s =
      (.ok (), (if uid ∈ s.role gid then s else s.enter gid uid).online gid uid sid nid (now' + chatSidTtl)) := by
  obtain ⟨hlives, hbl⟩ := h
  rw [groupJoinOnline, Prog.run_bind, groupExists_run_lives, hlives]
  cases hrole : (s.role gid).lookup uid with
  | none =>
    have hno : uid ∉ s.role gid := AList.lookup_eq_none.1 hrole
    simp [redo, exec, groupGetRole, hbl, hrole, hno, enter, online]
  | some role =>
    have hmem : uid ∈ s.role gid := AList.lookup_isSome.1 (by rw [hrole]; rfl)
    simp [redo, exec, groupGetRole, hbl, hrole, hmem, online]

theorem joinOnline_of_not_admits (sid : BitVec 64) (nid : BitVec 32) (now' : Int) (h : ¬s.Admits gid uid now) :
    ∃ err, (groupJoinOnline gid uid sid nid now now').run exec s = (.error err, s) := by
  rw [groupJoinOnline, Prog.run_bind, groupExists_run_lives]
  cases hlives : s.lives gid now with
  | false => exact ⟨_, rfl⟩
  | true =>
    have hbl : uid ∈ s.blacklist gid := by
      by_contra hno
      exact h ⟨hlives, hno⟩
    exact ⟨"user is blacklisted", by simp [redo, exec, hbl]⟩

theorem addMember_of_admits (h : s.Admits gid uid now) (hno : uid ∉ s.role gid) :
    (groupAddMember gid uid now).run exec s = (.ok (), s.enter gid uid) := by
  obtain ⟨hlives, hbl⟩ := h
  have hrole : (s.role gid).lookup uid = none := AList.lookup_eq_none.2 hno
  rw [groupAddMember, Prog.run_bind, groupExists_run_lives, hlives]
  simp [redo, exec, groupGetRole, hbl, hrole, enter]

theorem addMember_of_not_admits (h : ¬(s.Admits gid uid now ∧ uid ∉ s.role gid)) :
    ∃ err, (groupAddMember gid uid now).run exec s = (.error err, s) := by
  rw [groupAddMember, Prog.run_bind, groupExists_run_lives]
  cases hlives : s.lives gid now with
  | false => exact ⟨_, rfl⟩
  | true =>
    by_cases hbl : uid ∈ s.blacklist gid
    · exact ⟨"user is blacklisted", by simp [redo, exec, hbl]⟩
    · have hmem : uid ∈ s.role gid := by
        by_contra hno
        exact h ⟨⟨hlives, hbl⟩, hno⟩
      obtain ⟨role, hrole⟩ := Option.isSome_iff_exists.1 (AList.lookup_isSome.2 hmem)
      exact ⟨"already in group", by simp [redo, exec, groupGetRole, hbl, hrole]⟩

/-! ## Dismissals and managers -/

theorem dismiss_run (s : Store) (gid : BitVec 64) : (groupDismiss gid).run exec s = (.ok (),
    { gidZset := s.gidZset.rem gid
      role := put s.role gid fun _ => ∅
      uidToGid := fun uid => if uid ∈ groupRedisUIDs (s.role gid).keys then (s.uidToGid uid).erase gid
        else s.uidToGid uid
      gidToUid := put s.gidToUid gid fun _ => ∅
      gidToSid := put s.gidToSid gid fun _ => ∅
      gidToNid := put s.gidToNid gid fun _ => ∅
      gag := put s.gag gid fun _ => ∅
      blacklist := put s.blacklist gid fun _ => ∅ }) := by
  have hloop := Prog.run_bind exec (fun _ => do
    redo (.delRole gid)
    redo (.delNid gid)
    redo (.delUid gid)
    redo (.delSid gid)
    redo (.delGag gid)
    redo (.delBlacklist gid)
    redo (.zremGid gid)
    return (.ok () : Except String Unit))
    ((groupRedisUIDs (s.role gid).keys).forM fun uid => redo (.hdelUidToGid uid gid)) s
  rw [run_hdelUidToGid] at hloop
  exact hloop

/-- The role a member is to have: `none` where it stays. -/
def promoted (role : Int) (manager : Bool) : Option Int :=
  if manager then some groupRoleManager else if role = groupRoleManager then some groupRoleMember else none

/-- A member who is not the owner. -/
theorem setManager_of_member {role : Int} (hrole : (s.role gid).lookup uid = some role) (hno : role ≠ groupRoleOwner)
    (manager : Bool) : (groupSetManager gid uid manager).run exec s = (.ok (), match promoted role manager with
      | none => s
      | some role => { s with role := put s.role gid (AList.insert uid role) }) := by
  rw [groupSetManager, groupGetRole, Prog.run_bind]
  simp only [redo, exec, hrole, Prog.run_issue, Prog.run_ret, if_neg hno, promoted]
  cases manager with
  | true => rfl
  | false =>
    simp only [Bool.false_eq_true, if_false]
    split
    · rfl
    · rfl

theorem setManager_of_not_member (h : ∀ role, (s.role gid).lookup uid = some role → role = groupRoleOwner)
    (manager : Bool) : ∃ err, (groupSetManager gid uid manager).run exec s = (.error err, s) := by
  rw [groupSetManager, groupGetRole, Prog.run_bind]
  simp only [redo, exec, Prog.run_issue, Prog.run_ret]
  cases hrole : (s.role gid).lookup uid with
  | none => exact ⟨_, rfl⟩
  | some role =>
    obtain rfl := h role hrole
    exact ⟨_, rfl⟩

end Store

end BeehiveIm.Groups
