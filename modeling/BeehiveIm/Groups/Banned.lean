/-
The operations on groups command by command, several clients at once: a user on the blacklist of a
group has no role in it and is not online in it. That holds as long as no call writes a membership
between the two halves of a ban, or after a check that a ban has overtaken, and no session of the
user is online when the ban is written.
-/
import BeehiveIm.Groups.Tables

namespace BeehiveIm.Groups

open BeehiveIm.Lib

/-- What a call may be about to do for a user of a group: write a membership without an answer that
allows it, or ban the user without having deleted the role, or the user among those online. -/
inductive Risk where
  | enter (gid uid : BitVec 64)
  | banRole (gid uid : BitVec 64)
  | banUid (gid uid : BitVec 64)

namespace Risk

def hit (owner : BitVec 64 → BitVec 64) : Risk → Cmd → Prop
  | .enter gid uid, .hsetRole g u _ | .enter gid uid, .zaddUid g _ u => g = gid ∧ u = uid
  | .enter gid uid, .zaddSid g _ sid => g = gid ∧ owner sid = uid
  | .banRole gid uid, .saddBlacklist g u | .banUid gid uid, .saddBlacklist g u => g = gid ∧ u = uid
  | _, _ => False

/-- The answers that rule it out -/
def stop : Risk → (c : Cmd) → c.Reply → Prop
  | .enter gid uid, .sismemberBlacklist g u, found => g = gid ∧ u = uid ∧ found = false
  | .enter gid uid, .hgetRole g u, role => g = gid ∧ u = uid ∧ role.isSome
  | .banRole gid uid, .hdelRole g u, _ | .banUid gid uid, .zremUid g u, _ => g = gid ∧ u = uid
  | _, _, _ => False

/-- What they tell of the store -/
def fact : Risk → Store → Prop
  | .enter gid uid, s => uid ∉ s.blacklist gid
  | .banRole gid uid, s => uid ∉ s.role gid
  | .banUid gid uid, s => uid ∉ s.gidToUid gid

end Risk

namespace Store

variable {s : Store} {c : Cmd} {gid uid sid : BitVec 64}

/-- Whoever is on the blacklist of a group has no role in it and is not online in it. -/
def Banned (owner : BitVec 64 → BitVec 64) (s : Store) : Prop :=
  ∀ gid, ∀ uid ∈ s.blacklist gid, uid ∉ s.role gid ∧ uid ∉ s.gidToUid gid ∧ s.Offline owner gid uid

/-! ## What a command adds -/

theorem mem_blacklist_exec (h : uid ∈ (exec c s).2.blacklist gid) :
    uid ∈ s.blacklist gid ∨ c = .saddBlacklist gid uid := by
  cases c with
  | saddBlacklist g u =>
    simp only [exec] at h
    rcases put_cases (uid ∈ ·) h with h | ⟨rfl, h⟩
    · exact .inl h
    · rcases Finset.mem_insert.1 h with rfl | h
      · exact .inr rfl
      · exact .inl h
  | sremBlacklist g u =>
    simp only [exec] at h
    rcases put_cases (uid ∈ ·) h with h | ⟨-, h⟩
    · exact .inl h
    · exact .inl (Finset.mem_of_mem_erase h)
  | delBlacklist g =>
    simp only [exec] at h
    rcases put_cases (uid ∈ ·) h with h | ⟨-, h⟩
    · exact .inl h
    · exact absurd h (Finset.notMem_empty uid)
  | _ => exact .inl h

theorem mem_role_exec (h : uid ∈ (exec c s).2.role gid) : uid ∈ s.role gid ∨ ∃ role, c = .hsetRole gid uid role := by
  cases c with
  | hsetRole g u role =>
    simp only [exec] at h
    rcases put_cases (uid ∈ ·) h with h | ⟨rfl, h⟩
    · exact .inl h
    · rcases (AList.mem_insert _).1 h with rfl | h
      · exact .inr ⟨role, rfl⟩
      · exact .inl h
  | hdelRole g u =>
    simp only [exec] at h
    rcases put_cases (uid ∈ ·) h with h | ⟨-, h⟩
    · exact .inl h
    · exact .inl (AList.mem_erase.1 h).2
  | delRole g =>
    simp only [exec] at h
    rcases put_cases (uid ∈ ·) h with h | ⟨-, h⟩
    · exact .inl h
    · exact absurd h (AList.notMem_empty uid)
  | _ => exact .inl h

theorem mem_gidToUid_exec (h : uid ∈ (exec c s).2.gidToUid gid) :
    uid ∈ s.gidToUid gid ∨ ∃ ttl, c = .zaddUid gid ttl uid := by
  cases c with
  | zaddUid g ttl u =>
    simp only [exec] at h
    rcases put_cases (uid ∈ ·) h with h | ⟨rfl, h⟩
    · exact .inl h
    · rcases ZSet.mem_add.1 h with rfl | h
      · exact .inr ⟨ttl, rfl⟩
      · exact .inl h
  | zremUid g u =>
    simp only [exec] at h
    rcases put_cases (uid ∈ ·) h with h | ⟨-, h⟩
    · exact .inl h
    · exact .inl (ZSet.mem_rem.1 h).1
  | delUid g =>
    simp only [exec] at h
    rcases put_cases (uid ∈ ·) h with h | ⟨-, h⟩
    · exact .inl h
    · exact absurd h (ZSet.notMem_empty uid)
  | _ => exact .inl h

theorem mem_gidToSid_exec (h : sid ∈ (exec c s).2.gidToSid gid) :
    sid ∈ s.gidToSid gid ∨ ∃ ttl, c = .zaddSid gid ttl sid := by
  cases c with
  | zaddSid g ttl u =>
    simp only [exec] at h
    rcases put_cases (sid ∈ ·) h with h | ⟨rfl, h⟩
    · exact .inl h
    · rcases ZSet.mem_add.1 h with rfl | h
      · exact .inr ⟨ttl, rfl⟩
      · exact .inl h
  | zremSid g u =>
    simp only [exec] at h
    rcases put_cases (sid ∈ ·) h with h | ⟨-, h⟩
    · exact .inl h
    · exact .inl (ZSet.mem_rem.1 h).1
  | delSid g =>
    simp only [exec] at h
    rcases put_cases (sid ∈ ·) h with h | ⟨-, h⟩
    · exact .inl h
    · exact absurd h (ZSet.notMem_empty sid)
  | _ => exact .inl h

end Store

/-! ## What a call may do -/

variable {owner : BitVec 64 → BitVec 64} {gid uid sid : BitVec 64} {i : Risk}

/-- The call may come to what `i` is about unchecked. -/
def Risky (owner : BitVec 64 → BitVec 64) (i : Risk) (p : Redis (Except String Unit)) : Prop :=
  p.May (i.hit owner) i.stop

-- the walk over the commands of a call, for the lemmas on each call below
attribute [local simp] Risky Risk.hit Risk.stop Prog.May redo pure

/-- Asking whether the group exists risks nothing. -/
theorem groupExists_bind_risky {now : Int} {f : Bool → Redis (Except String Unit)}
    (h : Risky owner i (groupExists gid now >>= f)) : ∃ found, Risky owner i (f found) := by
  rcases Prog.may_bind h with (h | ⟨score, -, h⟩) | h
  · cases i <;> cases h
  · cases score <;> cases h
  · exact h

theorem register_risky {ownerUID : BitVec 64} {now : Int} (h : Risky owner i (groupRegister gid ownerUID now)) :
    i = .enter gid ownerUID := by
  cases i with
  | enter g u =>
    have hu : gid = g ∧ ownerUID = u := by simpa [groupRegister] using h
    rw [hu.1, hu.2]
  | banRole g u | banUid g u => simp [groupRegister] at h

/-- A join risks only the session of another user: its own is asked for. -/
theorem joinOnline_risky {nid : BitVec 32} {now now' : Int}
    (h : Risky owner i (groupJoinOnline gid uid sid nid now now')) : i = .enter gid (owner sid) ∧ owner sid ≠ uid := by
  obtain ⟨found, h⟩ := groupExists_bind_risky h
  cases found with
  | false => cases h
  | true =>
    cases i with
    | enter g u =>
      obtain ⟨hne, role, hrole, h⟩ : (gid = g → ¬uid = u) ∧ ∃ role, _ ∧ _ := by
        simpa [groupGetRole] using h
      have hwrites : gid = g ∧ uid = u ∨ gid = g ∧ owner sid = u := by
        cases role with
        | none => simpa using h
        | some role => simpa using h
      rcases hwrites with ⟨hg, hu⟩ | ⟨rfl, rfl⟩
      · exact absurd hu (hne hg)
      · exact ⟨rfl, Ne.symm (hne rfl)⟩
    | banRole g u | banUid g u =>
      obtain ⟨role, h⟩ : ∃ role, _ := by
        simpa [groupGetRole] using h
      cases role with
      | none => simp at h
      | some role => simp at h

theorem addMember_not_risky (now : Int) : ¬Risky owner i (groupAddMember gid uid now) := by
  intro h
  obtain ⟨found, h⟩ := groupExists_bind_risky h
  cases found with
  | false => cases h
  | true =>
    cases i with
    | enter g u =>
      obtain ⟨hne, role, hrole, h⟩ : (gid = g → ¬uid = u) ∧ ∃ role, _ ∧ _ := by
        simpa [groupGetRole] using h
      cases role with
      | none =>
        obtain ⟨hg, hu⟩ : gid = g ∧ uid = u := by simpa using h
        exact hne hg hu
      | some role => cases h
    | banRole g u | banUid g u =>
      obtain ⟨role, h⟩ : ∃ role, _ := by
        simpa [groupGetRole] using h
      cases role with
      | none => simp at h
      | some role => cases h

theorem quit_not_risky : ¬Risky owner i (groupQuit gid uid sid) := by
  cases i <;> simp [groupQuit]

theorem kick_not_risky : ¬Risky owner i (groupKick gid uid) := by
  cases i <;> simp [groupKick]

theorem setGag_not_risky (gag : Bool) : ¬Risky owner i (groupSetGag gid uid gag) := by
  cases gag <;> cases i <;> simp [groupSetGag]

theorem dismiss_not_risky : ¬Risky owner i (groupDismiss gid) := by
  have hloop : ∀ uids : List (BitVec 64), ¬(uids.forM fun uid => redo (.hdelUidToGid uid gid)).May
      (i.hit owner) i.stop := by
    intro uids
    induction uids with
    | nil => exact id
    | cons uid uids ih =>
      rintro (h | ⟨_, -, h⟩)
      · cases i <;> cases h
      · exact ih h
  rintro (h | ⟨keys, -, h⟩)
  · cases i <;> cases h
  · rcases Prog.may_bind (p := (groupRedisUIDs keys).forM fun uid => redo (.hdelUidToGid uid gid)) h with h | ⟨_, h⟩
    · exact hloop _ h
    · cases i <;> simp at h

/-- A change of role finds a role first. -/
theorem setManager_not_risky (manager : Bool) : ¬Risky owner i (groupSetManager gid uid manager) := by
  rintro (h | ⟨role, hrole, h⟩)
  · cases i <;> cases h
  · cases role with
    | none => cases h
    | some role =>
      have hwrites : ∃ role', i.hit owner (.hsetRole gid uid role') := by
        change (if role = groupRoleOwner then _ else _ : Redis (Except String Unit)).May _ _ at h
        split at h
        · cases h
        · cases manager with
          | true =>
            rcases h with h | ⟨_, -, h⟩
            · exact ⟨_, h⟩
            · cases h
          | false =>
            rw [if_neg Bool.false_ne_true] at h
            split at h
            · rcases h with h | ⟨_, -, h⟩
              · exact ⟨_, h⟩
              · cases h
            · cases h
      obtain ⟨role', hhit⟩ := hwrites
      cases i with
      | enter g u => exact hrole ⟨hhit.1, hhit.2, rfl⟩
      | banRole g u | banUid g u => exact hhit

/-- A ban deletes the role and the user from those online first. -/
theorem setBlacklist_not_risky (add : Bool) : ¬Risky owner i (groupSetBlacklist gid uid add) := by
  cases add with
  | false => cases i <;> simp [groupSetBlacklist]
  | true => cases i <;> simp [groupSetBlacklist, groupKick]

/-! ## Runs -/

abbrev Clients (τ : Type) := Pool Cmd.Reply Store τ (Except String Unit)

variable {τ : Type}

/-- No call in flight may come to what `i` is about unchecked. -/
def NoneRisks (owner : BitVec 64 → BitVec 64) (w : Clients τ) (i : Risk) : Prop :=
  ∀ t p, w.calls t = some p → ¬Risky owner i p

/-- A call that starts writes only memberships it checks. -/
def Start (owner : BitVec 64 → BitVec 64) (w : Clients τ) : Call → Prop
  | .register gid ownerUID _ => ownerUID ∉ w.store.blacklist gid
  | .joinOnline gid uid sid _ _ _ => owner sid ≠ uid → owner sid ∉ w.store.blacklist gid
  | _ => True

/-- A command that crosses no other call: a membership is not written in the middle of a
ban of the user, and the ban is written after every membership that is still allowed,
with no session online. -/
def Apart (owner : BitVec 64 → BitVec 64) (w : Clients τ) : Cmd → Prop
  | .hsetRole gid uid _ => NoneRisks owner w (.banRole gid uid)
  | .zaddUid gid _ uid => NoneRisks owner w (.banUid gid uid)
  | .saddBlacklist gid uid => NoneRisks owner w (.enter gid uid) ∧ w.store.Offline owner gid uid
  | _ => True

theorem start_fact {w : Clients τ} {call : Call} (hw : Start owner w call) (h : Risky owner i call.prog) :
    i.fact w.store := by
  cases call with
  | register gid ownerUID now =>
    obtain rfl := register_risky h
    exact hw
  | joinOnline gid uid sid nid now now' =>
    obtain ⟨rfl, hne⟩ := joinOnline_risky h
    exact hw hne
  | addMember gid uid now => exact absurd h (addMember_not_risky now)
  | quit gid uid sid => exact absurd h quit_not_risky
  | kick gid uid => exact absurd h kick_not_risky
  | dismiss gid => exact absurd h dismiss_not_risky
  | setManager gid uid manager => exact absurd h (setManager_not_risky manager)
  | setGag gid uid gag => exact absurd h (setGag_not_risky gag)
  | setBlacklist gid uid add => exact absurd h (setBlacklist_not_risky add)

/-- An answer that stops a call from being risky is right about the store. -/
theorem stop_fact {s : Store} {c : Cmd} (hs : s.Banned owner) (h : i.stop c (exec c s).1) : i.fact (exec c s).2 := by
  cases i with
  | enter gid uid =>
    cases c with
    | sismemberBlacklist g u =>
      obtain ⟨rfl, rfl, hfound⟩ := h
      exact of_decide_eq_false hfound
    | hgetRole g u =>
      obtain ⟨rfl, rfl, hrole⟩ := h
      exact fun hbl => (hs g u hbl).1 (AList.lookup_isSome.1 hrole)
    | _ => cases h
  | banRole gid uid =>
    cases c with
    | hdelRole g u =>
      obtain ⟨rfl, rfl⟩ := h
      exact s.notMem_kicked g u
    | _ => cases h
  | banUid gid uid =>
    cases c with
    | zremUid g u =>
      obtain ⟨rfl, rfl⟩ := h
      simp [Risk.fact, exec, put_apply]
    | _ => cases h

/-- A command that makes a fact false crosses no call that relies on it. -/
theorem fact_stable {w : Clients τ} {c : Cmd} (hc : Apart owner w c) (hold : i.fact w.store)
    (hnew : ¬i.fact (exec c w.store).2) : NoneRisks owner w i := by
  cases i with
  | enter gid uid =>
    obtain rfl := (Store.mem_blacklist_exec (not_not.1 hnew)).resolve_left hold
    exact hc.1
  | banRole gid uid =>
    obtain ⟨role, rfl⟩ := (Store.mem_role_exec (not_not.1 hnew)).resolve_left hold
    exact hc
  | banUid gid uid =>
    obtain ⟨ttl, rfl⟩ := (Store.mem_gidToUid_exec (not_not.1 hnew)).resolve_left hold
    exact hc

theorem banned_exec {w : Clients τ} {c : Cmd} (hc : Apart owner w c) (hs : w.store.Banned owner)
    (hrely : ∀ i : Risk, i.hit owner c → i.fact w.store) : (exec c w.store).2.Banned owner := by
  intro gid uid hbl
  rcases Store.mem_blacklist_exec hbl with hold | rfl
  · obtain ⟨hrole, huid, hsid⟩ := hs gid uid hold
    -- a membership is written only by a call that relies on the user not being banned
    have hfree : ¬Risk.hit owner (.enter gid uid) c := fun hhit => hrely _ hhit hold
    refine ⟨fun h => ?_, fun h => ?_, fun sid h howner => ?_⟩
    · rcases Store.mem_role_exec h with h | ⟨role, rfl⟩
      · exact hrole h
      · exact hfree ⟨rfl, rfl⟩
    · rcases Store.mem_gidToUid_exec h with h | ⟨ttl, rfl⟩
      · exact huid h
      · exact hfree ⟨rfl, rfl⟩
    · rcases Store.mem_gidToSid_exec h with h | ⟨ttl, rfl⟩
      · exact hsid sid h howner
      · exact hfree ⟨rfl, howner⟩
  · exact ⟨hrely (.banRole gid uid) ⟨rfl, rfl⟩, hrely (.banUid gid uid) ⟨rfl, rfl⟩, hc.2⟩

variable [DecidableEq τ]

/-- Over a run of any number of calls at once, whoever is on the blacklist of a group has no role in
it and is not online in it. -/
theorem blacklist_wins (owner : BitVec 64 → BitVec 64) (s : Store) (hs : s.Banned owner) (ops : List (τ × Act Call))
    (hops : Guarded (Pool.next exec Call.prog) (Pool.Cares (Start owner) (Apart owner)) (Pool.init s) ops) :
    ∃ w, ops.foldlM (Pool.step exec Call.prog) (Pool.init s) = some w ∧ w.store.Banned owner := by
  obtain ⟨w, hrun, hw, -⟩ := Pool.run_inv (Risk.hit owner) Risk.stop Risk.fact (Store.Banned owner) ops
    ⟨hs, Pool.init_relies _ _ _ s⟩ hops (fun _ _ hstart _ hmay => start_fact hstart hmay)
    (fun _ _ _ hs h => stop_fact hs h)
    (fun _ _ _ hc hold hnew => fact_stable hc hold hnew) (fun _ _ hc hs hrely => banned_exec hc hs hrely)
  exact ⟨w, hrun, hw⟩

theorem founded_banned (owner : BitVec 64 → BitVec 64) : founded.Banned owner :=
  fun _ _ h => absurd h (Finset.notMem_empty _)

/-- A join that has not asked yet when the user is banned. -/
theorem blacklist_wins_join : ∃ w : Clients Bool,
    ([(true, .call (.setBlacklist 1 5 true)), (false, .call (.joinOnline 1 5 9 2 0 0)), (true, .go), (true, .go),
      (true, .go), (true, .go), (true, .go), (true, .go), (false, .go), (false, .go), (false, .go)] :
        List (Bool × Act Call)).foldlM
      (Pool.step exec Call.prog) (Pool.init founded) = some w ∧ w.store.Banned fun _ => 5 := by
  refine blacklist_wins (fun _ => 5) founded (founded_banned _) _
    ⟨⟨rfl, trivial⟩, ⟨rfl, fun h => absurd rfl h⟩, ⟨_, rfl, ?_⟩, ⟨_, rfl, ?_⟩, ⟨_, rfl, ?_⟩, ⟨_, rfl, ?_⟩, ⟨_, rfl, ?_⟩,
    ⟨_, rfl, ?_⟩, ⟨_, rfl, ?_⟩, ⟨_, rfl, ?_⟩, ⟨_, rfl, ?_⟩, trivial⟩
  case refine_5 =>
    -- the ban is written while the join is still to ask
    intro c k h
    cases h
    refine ⟨fun t p hp hrisky => ?_, by decide⟩
    cases t with
    | false =>
      cases hp
      exact (joinOnline_risky hrisky).2 rfl
    | true =>
      cases hp
      rcases hrisky with h | ⟨_, -, h⟩
      · cases h
      · cases h
  all_goals
    intro c k h
    cases h
  all_goals trivial

/-- A join that has asked before the user is banned writes the membership afterwards. -/
theorem ban_overtakes_join : ∃ w : Clients Bool,
    ([(true, .call (.joinOnline 1 5 9 2 0 0)), (true, .go), (true, .go), (true, .go),
      (false, .call (.setBlacklist 1 5 true)), (false, .go), (false, .go), (false, .go), (false, .go), (false, .go),
      (false, .go), (true, .go), (true, .go), (true, .go), (true, .go), (true, .go), (true, .go)] :
        List (Bool × Act Call)).foldlM
      (Pool.step exec Call.prog) (Pool.init founded) = some w ∧ (∀ t, w.calls t = none) ∧ founded.Banned (fun _ => 5) ∧
      ¬w.store.Banned fun _ => 5 := by
  refine ⟨_, rfl, fun t => by cases t <;> rfl, founded_banned _, fun h => ?_⟩
  exact (h 1 5 (by decide)).1 (by decide)

end BeehiveIm.Groups
