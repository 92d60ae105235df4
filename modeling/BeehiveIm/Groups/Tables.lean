/-
The roles of each group against the groups of each user, and what a kick leaves, over calls
that are carried out one after another. The tables agree exactly as long as no group is
dismissed in which the user 0 has a role, and a kick is complete exactly when the user has no
session online in the group.
-/
import BeehiveIm.Groups
import Mathlib.Data.Finset.Insert

namespace BeehiveIm.Groups

open BeehiveIm.Lib

/-- The call is to remove the user from the group. -/
def Call.Removes (call : Call) (gid uid : BitVec 64) : Prop := call = .kick gid uid ∨ call = .setBlacklist gid uid true

namespace Store

variable {s s' : Store} {gid uid : BitVec 64}

/-- A user has a role in a group when the group is among those of the user. -/
def Consistent (s : Store) : Prop := ∀ gid uid, uid ∈ s.role gid ↔ gid ∈ s.uidToGid uid

theorem empty_consistent : empty.Consistent := fun gid uid =>
  ⟨fun h => absurd h (AList.notMem_empty uid), fun h => absurd h (Finset.notMem_empty gid)⟩

/-! ## What a call does to the tables -/

/-- Both tables change in the same way. -/
theorem Consistent.both (hs : s.Consistent) (P : BitVec 64 → BitVec 64 → Prop → Prop)
    (hrole : ∀ g u, u ∈ s'.role g ↔ P g u (u ∈ s.role g)) (hgid : ∀ g u, g ∈ s'.uidToGid u ↔ P g u (g ∈ s.uidToGid u)) :
    s'.Consistent := fun g u => by rw [hrole, hgid, hs]

theorem Consistent.same (hs : s.Consistent) (hrole : s'.role = s.role) (hgid : s'.uidToGid = s.uidToGid) :
    s'.Consistent :=
  hs.both (fun _ _ p => p) (fun _ _ => by rw [hrole]) (fun _ _ => by rw [hgid])

/-- A user enters a group. -/
theorem Consistent.enter (hs : s.Consistent) (role : Int) (hrole : s'.role = put s.role gid (AList.insert uid role))
    (hgid : s'.uidToGid = put s.uidToGid uid (insert gid)) : s'.Consistent := by
  refine hs.both (fun g u p => g = gid ∧ u = uid ∨ p) (fun g u => ?_) (fun g u => ?_)
  · rw [hrole, put_apply]
    split
    · rename_i hg
      simp [hg]
    · rename_i hg
      simp [hg]
  · rw [hgid, put_apply]
    split
    · rename_i hu
      simp [hu]
    · rename_i hu
      simp [hu]

/-- A user leaves a group. -/
theorem Consistent.leave (hs : s.Consistent) (hrole : s'.role = put s.role gid (AList.erase uid))
    (hgid : s'.uidToGid = put s.uidToGid uid fun gids => gids.erase gid) : s'.Consistent := by
  refine hs.both (fun g u p => ¬(g = gid ∧ u = uid) ∧ p) (fun g u => ?_) (fun g u => ?_)
  · rw [hrole, put_apply]
    split
    · rename_i hg
      simp [hg]
    · rename_i hg
      simp [hg]
  · rw [hgid, put_apply]
    split
    · rename_i hu
      simp [hu]
    · rename_i hu
      simp [hu]

/-- A role changes that is there already. -/
theorem Consistent.promote (hs : s.Consistent) (role : Int) (huid : uid ∈ s.role gid)
    (hrole : s'.role = put s.role gid (AList.insert uid role)) (hgid : s'.uidToGid = s.uidToGid) : s'.Consistent := by
  refine hs.both (fun _ _ p => p) (fun g u => ?_) (fun g u => by rw [hgid])
  rw [hrole, put_apply]
  split
  · rename_i hg
    rw [AList.mem_insert, or_iff_right_of_imp]
    rintro rfl
    exact hg ▸ huid
  · rfl

/-- `HDEL` of a group for each of some users -/
theorem run_hdelUidToGid (gid : BitVec 64) : ∀ (uids : List (BitVec 64)) (s : Store),
    (uids.forM fun uid => redo (.hdelUidToGid uid gid)).run exec s =
      ((), { s with uidToGid := fun uid => if uid ∈ uids then (s.uidToGid uid).erase gid else s.uidToGid uid })
  | [], s => by simp
  | u :: uids, s => by
    change (redo (.hdelUidToGid u gid) >>= fun _ => uids.forM fun uid => redo (.hdelUidToGid uid gid)).run exec s = _
    rw [Prog.run_bind, run_hdelUidToGid gid uids]
    refine congrArg (Prod.mk ()) ?_
    simp only [redo, Prog.run_issue, Prog.run_ret, exec, put_apply, mk.injEq, true_and, and_true]
    funext uid
    by_cases hu : uid = u
    · simp [hu]
    · simp [hu]

theorem step_dismiss (s : Store) (gid : BitVec 64) :
    (s.step (.dismiss gid)).role = (put s.role gid fun _ => ∅) ∧
      ∀ uid, (s.step (.dismiss gid)).uidToGid uid =
        if uid ∈ groupRedisUIDs (s.role gid).keys then (s.uidToGid uid).erase gid else s.uidToGid uid := by
  have hloop := Prog.run_bind exec (fun _ => do
    redo (.delRole gid)
    redo (.delNid gid)
    redo (.delUid gid)
    redo (.delSid gid)
    redo (.delGag gid)
    redo (.delBlacklist gid)
    redo (.zremGid gid)
    return (.ok () : Except String Unit))
    ((groupRedisUIDs (s.role gid).keys).forM fun uid => redo (.hdelUidToGid uid gid)) s
  rw [run_hdelUidToGid] at hloop
  have hstep : s.step (.dismiss gid) = _ := congrArg Prod.snd hloop
  rw [hstep]
  exact ⟨rfl, fun _ => rfl⟩

theorem mem_groupRedisUIDs {keys : List (BitVec 64)} : uid ∈ groupRedisUIDs keys ↔ uid ∈ keys ∧ uid ≠ 0 := by
  rw [groupRedisUIDs, List.mem_filter, decide_eq_true_eq]
  exact and_congr_right fun _ => BitVec.pos_iff_ne_zero uid

/-- The user 0 is the one that a dismissal does not tell. -/
theorem step_dismiss_consistent_iff (hs : s.Consistent) :
    (s.step (.dismiss gid)).Consistent ↔ 0 ∉ s.role gid := by
  obtain ⟨hrole, hgid⟩ := step_dismiss s gid
  constructor
  · intro hs' hmem
    have hleft : gid ∈ (s.step (.dismiss gid)).uidToGid 0 := by
      rw [hgid, if_neg (by simp [mem_groupRedisUIDs])]
      exact (hs gid 0).1 hmem
    have hrole0 := (hs' gid 0).2 hleft
    rw [hrole, put_apply, if_pos rfl] at hrole0
    exact absurd hrole0 (AList.notMem_empty 0)
  · intro h0
    refine hs.both (fun g _ p => g ≠ gid ∧ p) (fun g u => ?_) (fun g u => ?_)
    · rw [hrole, put_apply]
      split
      · rename_i hg
        simp [hg]
      · rename_i hg
        simp [hg]
    · have huid : u ∈ groupRedisUIDs (s.role gid).keys ↔ gid ∈ s.uidToGid u := by
        rw [← hs, mem_groupRedisUIDs, AList.mem_keys]
        refine and_iff_left_of_imp ?_
        rintro hu rfl
        exact h0 hu
      rw [hgid]
      by_cases hu : gid ∈ s.uidToGid u
      · rw [if_pos (huid.2 hu), Finset.mem_erase]
      · rw [if_neg (mt huid.1 hu)]
        refine (and_iff_right_of_imp fun hg => ?_).symm
        rintro rfl
        exact hu hg

theorem groupExists_run (s : Store) (gid : BitVec 64) (now : Int) :
    ∃ found, (groupExists gid now).run exec s = (found, s) := by
  rw [groupExists, Prog.run_bind]
  split
  · exact ⟨_, rfl⟩
  · exact ⟨_, rfl⟩

theorem step_joinOnline_consistent (hs : s.Consistent) (sid : BitVec 64) (nid : BitVec 32) (now now' : Int) :
    (s.step (.joinOnline gid uid sid nid now now')).Consistent := by
  obtain ⟨found, hfound⟩ := groupExists_run s gid now
  rw [step, Call.prog, groupJoinOnline, Prog.run_bind, hfound]
  cases found with
  | false => exact hs
  | true =>
    by_cases hbl : uid ∈ s.blacklist gid
    · simpa [redo, exec, hbl] using hs
    · cases hrole : (s.role gid).lookup uid with
      | none =>
        simp only [redo, exec, groupGetRole, hbl, hrole, Prog.issue_bind, Prog.ret_bind, Prog.run_issue, decide_false,
          Bool.not_true, Bool.false_eq_true, if_false, Option.isNone_none, if_true]
        exact hs.enter groupRoleMember rfl rfl
      | some role =>
        simp only [redo, exec, groupGetRole, hbl, hrole, Prog.issue_bind, Prog.ret_bind, Prog.run_issue, decide_false,
          Bool.not_true, Bool.false_eq_true, if_false, Option.isNone_some]
        exact hs.same rfl rfl

theorem step_addMember_consistent (hs : s.Consistent) (now : Int) : (s.step (.addMember gid uid now)).Consistent := by
  obtain ⟨found, hfound⟩ := groupExists_run s gid now
  rw [step, Call.prog, groupAddMember, Prog.run_bind, hfound]
  cases found with
  | false => exact hs
  | true =>
    by_cases hbl : uid ∈ s.blacklist gid
    · simpa [redo, exec, hbl] using hs
    · cases hrole : (s.role gid).lookup uid with
      | none =>
        simp only [redo, exec, groupGetRole, hbl, hrole, Prog.issue_bind, Prog.ret_bind, Prog.run_issue, decide_false,
          Bool.not_true, Bool.false_eq_true, if_false, Option.isSome_none]
        exact hs.enter groupRoleMember rfl rfl
      | some role => simpa [redo, exec, groupGetRole, hbl, hrole] using hs

theorem step_setManager_consistent (hs : s.Consistent) (manager : Bool) :
    (s.step (.setManager gid uid manager)).Consistent := by
  rw [step, Call.prog, groupSetManager, groupGetRole, Prog.run_bind]
  cases hrole : (s.role gid).lookup uid with
  | none => simpa [redo, exec, hrole] using hs
  | some role =>
    have huid : uid ∈ s.role gid := AList.lookup_isSome.1 (by rw [hrole]; rfl)
    simp only [redo, exec, hrole, Prog.run_issue, Prog.run_ret]
    split
    · exact hs
    · split
      · exact hs.promote groupRoleManager huid rfl rfl
      · split
        · exact hs.promote groupRoleMember huid rfl rfl
        · exact hs

theorem notMem_kicked (s : Store) (gid uid : BitVec 64) : uid ∉ put s.role gid (AList.erase uid) gid := by
  simp [put_apply]

/-! ## Runs -/

/-- No session of the user is online in the group. -/
def Offline (owner : BitVec 64 → BitVec 64) (s : Store) (gid uid : BitVec 64) : Prop :=
  ∀ sid ∈ s.gidToSid gid, owner sid ≠ uid

instance (owner : BitVec 64 → BitVec 64) (s : Store) (gid uid : BitVec 64) : Decidable (s.Offline owner gid uid) :=
  decidable_of_iff (∀ e ∈ (s.gidToSid gid).list, owner e.1 ≠ uid)
    ⟨fun h sid hsid => by obtain ⟨e, he, rfl⟩ := List.mem_map.1 hsid; exact h e he,
      fun h e he => h e.1 (List.mem_map_of_mem he)⟩

/-- What a call is to do; `owner` is the user of each session. -/
structure Kept (owner : BitVec 64 → BitVec 64) (call : Call) (s' : Store) : Prop where
  consistent : s'.Consistent
  gone : ∀ gid uid, call.Removes gid uid → uid ∉ s'.role gid ∧ s'.Offline owner gid uid

/-- A call that does it. -/
def Keeps (owner : BitVec 64 → BitVec 64) (s : Store) : Call → Prop
  | .dismiss gid => 0 ∉ s.role gid
  | .kick gid uid | .setBlacklist gid uid true => s.Offline owner gid uid
  | _ => True

instance (owner : BitVec 64 → BitVec 64) (s : Store) : ∀ call, Decidable (s.Keeps owner call)
  | .dismiss gid => inferInstanceAs (Decidable (0 ∉ s.role gid))
  | .kick gid uid | .setBlacklist gid uid true => inferInstanceAs (Decidable (s.Offline owner gid uid))
  | .register .. | .joinOnline .. | .addMember .. | .quit .. | .setManager .. | .setGag .. | .setBlacklist _ _ false =>
    inferInstanceAs (Decidable True)

variable {owner : BitVec 64 → BitVec 64} {call : Call}

theorem kept_iff_of_stays (h : ∀ gid uid, ¬call.Removes gid uid) : Kept owner call s' ↔ s'.Consistent :=
  ⟨Kept.consistent, fun hs => ⟨hs, fun gid uid hr => absurd hr (h gid uid)⟩⟩

/-- A user who is removed has no role, and is as much online as before. -/
theorem kept_iff_of_removes (h : ∀ g u, call.Removes g u ↔ g = gid ∧ u = uid) (hs : s'.Consistent)
    (hrole : uid ∉ s'.role gid) (hsid : s'.gidToSid = s.gidToSid) : Kept owner call s' ↔ s.Offline owner gid uid := by
  have hoff : s'.Offline owner gid uid ↔ s.Offline owner gid uid := by rw [Offline, hsid, Offline]
  constructor
  · intro hk
    exact hoff.1 (hk.gone gid uid ((h gid uid).2 ⟨rfl, rfl⟩)).2
  · intro hgone
    refine ⟨hs, fun g u hr => ?_⟩
    obtain ⟨rfl, rfl⟩ := (h g u).1 hr
    exact ⟨hrole, hoff.2 hgone⟩

theorem step_kept_iff (hs : s.Consistent) (call : Call) : Kept owner call (s.step call) ↔ s.Keeps owner call := by
  have hstays : (∀ gid uid, ¬call.Removes gid uid) → (s.step call).Consistent →
      (Kept owner call (s.step call) ↔ True) :=
    fun h hs' => iff_true_intro ((kept_iff_of_stays h).2 hs')
  cases call with
  | register gid ownerUID now => exact hstays (by simp [Call.Removes]) (hs.enter groupRoleOwner rfl rfl)
  | joinOnline gid uid sid nid now now' =>
    exact hstays (by simp [Call.Removes]) (step_joinOnline_consistent hs sid nid now now')
  | addMember gid uid now => exact hstays (by simp [Call.Removes]) (step_addMember_consistent hs now)
  | quit gid uid sid => exact hstays (by simp [Call.Removes]) (hs.leave rfl rfl)
  | dismiss gid => exact (kept_iff_of_stays (by simp [Call.Removes])).trans (step_dismiss_consistent_iff hs)
  | setManager gid uid manager => exact hstays (by simp [Call.Removes]) (step_setManager_consistent hs manager)
  | setGag gid uid gag =>
    refine hstays (by simp [Call.Removes]) ?_
    cases gag with
    | false => exact hs.same rfl rfl
    | true => exact hs.same rfl rfl
  | kick gid uid =>
    exact kept_iff_of_removes (by simp [Call.Removes, eq_comm]) (hs.leave rfl rfl) (notMem_kicked s gid uid) rfl
  | setBlacklist gid uid add =>
    cases add with
    | false => exact hstays (by simp [Call.Removes]) (hs.same rfl rfl)
    | true =>
      exact kept_iff_of_removes (by simp [Call.Removes, eq_comm]) (hs.leave rfl rfl) (notMem_kicked s gid uid) rfl

theorem keptRun_iff (owner : BitVec 64 → BitVec 64) (calls : List Call) : ∀ {s : Store}, s.Consistent →
    (Guarded step (fun s call => Kept owner call (s.step call)) s calls ↔ Guarded step (Keeps owner) s calls) := by
  induction calls with
  | nil => exact fun _ => Iff.rfl
  | cons call calls ih =>
    intro s hs
    rw [Guarded, Guarded, ← step_kept_iff hs]
    exact and_congr_right fun h => ih h.consistent

/-- Every call of a run does what it is to do, and the tables agree after it, exactly when no
call removes a user with a session online in the group and none dismisses a group in which
the user 0 has a role. -/
theorem group_tables_iff (owner : BitVec 64 → BitVec 64) (calls : List Call) :
    Guarded step (fun s call => Kept owner call (s.step call)) empty calls ↔ Guarded step (Keeps owner) empty calls :=
  keptRun_iff owner calls empty_consistent

/-- A user who has quit can be kicked. -/
example : Guarded step (fun s call => Kept (fun _ => 5) call (s.step call)) empty
    [.register 1 5 0, .joinOnline 1 5 9 2 0 0, .quit 1 5 9, .kick 1 5] :=
  (keptRun_iff _ _ empty_consistent).2 (by decide)

/-- The session of a user who is kicked stays online in the group. -/
theorem kick_keeps_sid : ¬∀ owner calls, Guarded step (fun s call => Kept owner call (s.step call)) empty calls := by
  intro h
  have hrun := h (fun _ => 5) [.register 1 5 0, .joinOnline 1 5 9 2 0 0, .kick 1 5]
  exact (hrun.2.2.1.gone 1 5 (.inl rfl)).2 9 (by decide) rfl

end Store

end BeehiveIm.Groups
