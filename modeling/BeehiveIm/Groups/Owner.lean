/-
The owners of the groups, over every sequence of requests. A group that has been created and not
dismissed has exactly one owner as long as nobody quits, is kicked or is banned who is the owner of
the group: that is not refused, and no other member becomes the owner. As GROUP-CREAT is refused,
the groups are those that the tables hold already.
-/
import BeehiveIm.Groups.Calls
import BeehiveIm.Groups.Handlers

namespace BeehiveIm.Groups

open BeehiveIm.Lib
open BeehiveIm.Session (MesgHeader)
open BeehiveIm.Room (isValid)

namespace Store

variable {s s' : Store} {gid uid : BitVec 64}

def Owns (s : Store) (gid uid : BitVec 64) : Prop := (s.role gid).lookup uid = some groupRoleOwner

instance (s : Store) (gid uid : BitVec 64) : Decidable (s.Owns gid uid) := inferInstanceAs (Decidable (_ = _))

/-- Every group that is registered has exactly one owner. -/
def Ruled (s : Store) : Prop := ∀ gid ∈ s.gidZset, ∃! uid, s.Owns gid uid

theorem empty_ruled : Store.empty.Ruled := fun gid h => absurd h (ZSet.notMem_empty gid)

theorem Owns.mem (h : s.Owns gid uid) : uid ∈ s.role gid := AList.lookup_isSome.1 (by rw [h]; rfl)

/-- A call that leaves the registrations and the owners as they are. -/
structure Keep (s s' : Store) : Prop where
  gidZset : s'.gidZset = s.gidZset
  owns : ∀ g u, s'.Owns g u ↔ s.Owns g u

theorem Keep.rfl : Keep s s := ⟨Eq.refl _, fun _ _ => Iff.rfl⟩

theorem Keep.same (hz : s'.gidZset = s.gidZset) (hrole : s'.role = s.role) : Keep s s' :=
  ⟨hz, fun g u => by rw [Owns, hrole, Owns]⟩

theorem Keep.ruled (h : Keep s s') : s'.Ruled ↔ s.Ruled := by
  unfold Ruled
  rw [h.gidZset]
  exact forall₂_congr fun g _ => by simp only [h.owns]

/-- A role is written. -/
theorem owns_write {role : Int} (hrole : s'.role = put s.role gid (AList.insert uid role)) (g u : BitVec 64) :
    s'.Owns g u ↔ if g = gid ∧ u = uid then role = groupRoleOwner else s.Owns g u := by
  rw [Owns, hrole, put_apply]
  by_cases hg : g = gid
  · subst hg
    by_cases hu : u = uid
    · subst hu
      simp
    · simp [hu, Owns, AList.lookup_insert_ne hu]
  · simp [hg, Owns]

/-- The role is not the owner's, nor is the user the owner. -/
theorem Keep.write (role : Int) (hz : s'.gidZset = s.gidZset) (hrole : s'.role = put s.role gid (AList.insert uid role))
    (hrole' : role ≠ groupRoleOwner) (hno : ¬s.Owns gid uid) : Keep s s' := by
  refine ⟨hz, fun g u => (owns_write hrole g u).trans ?_⟩
  split
  · rename_i h
    obtain ⟨rfl, rfl⟩ := h
    exact iff_of_false hrole' hno
  · exact Iff.rfl

/-- A user leaves a group. -/
theorem owns_leave (hrole : s'.role = put s.role gid (AList.erase uid)) (g u : BitVec 64) :
    s'.Owns g u ↔ s.Owns g u ∧ ¬(g = gid ∧ u = uid) := by
  rw [Owns, hrole, put_apply]
  by_cases hg : g = gid
  · subst hg
    by_cases hu : u = uid
    · subst hu
      simp [AList.lookup_erase]
    · simp [hu, Owns, AList.lookup_erase_ne hu]
  · simp [hg, Owns]

/-- The owner leaves a group. -/
theorem not_ruled_of_leave (hs : s.Ruled) (hz : s'.gidZset = s.gidZset)
    (hrole : s'.role = put s.role gid (AList.erase uid))
    (hgid : gid ∈ s.gidZset) (howns : s.Owns gid uid) : ¬s'.Ruled := by
  intro hs'
  obtain ⟨u, hu, -⟩ := hs' gid (hz ▸ hgid)
  obtain ⟨hold, hne⟩ := (owns_leave hrole gid u).1 hu
  exact hne ⟨rfl, (hs gid hgid).unique hold howns⟩

/-! ## What each call does -/

theorem joinOnline_keep (sid : BitVec 64) (nid : BitVec 32) (now now' : Int) :
    Keep s (s.step (.joinOnline gid uid sid nid now now')) := by
  by_cases h : s.Admits gid uid now
  · rw [step, Call.prog, joinOnline_of_admits h]
    by_cases hmem : uid ∈ s.role gid
    · rw [if_pos hmem]
      exact Keep.same rfl rfl
    · rw [if_neg hmem]
      exact Keep.write groupRoleMember rfl rfl (by decide) (mt Owns.mem hmem)
  · obtain ⟨err, herr⟩ := joinOnline_of_not_admits sid nid now' h
    rw [step, Call.prog, herr]
    exact Keep.rfl

theorem addMember_keep (now : Int) : Keep s (s.step (.addMember gid uid now)) := by
  by_cases h : s.Admits gid uid now ∧ uid ∉ s.role gid
  · rw [step, Call.prog, addMember_of_admits h.1 h.2]
    exact Keep.write groupRoleMember rfl rfl (by decide) (mt Owns.mem h.2)
  · obtain ⟨err, herr⟩ := addMember_of_not_admits h
    rw [step, Call.prog, herr]
    exact Keep.rfl

theorem setManager_keep (manager : Bool) : Keep s (s.step (.setManager gid uid manager)) := by
  by_cases h : ∀ role, (s.role gid).lookup uid = some role → role = groupRoleOwner
  · obtain ⟨err, herr⟩ := setManager_of_not_member h manager
    rw [step, Call.prog, herr]
    exact Keep.rfl
  · push Not at h
    obtain ⟨role, hrole, hno⟩ := h
    rw [step, Call.prog, setManager_of_member hrole hno]
    have howns : ¬s.Owns gid uid := fun h => hno (Option.some.inj (hrole.symm.trans h))
    unfold promoted
    cases manager with
    | true => exact Keep.write groupRoleManager rfl rfl (by decide) howns
    | false =>
      simp only [Bool.false_eq_true, if_false]
      split
      · exact Keep.rfl
      · rename_i h
        split at h
        · cases h
          exact Keep.write groupRoleMember rfl rfl (by decide) howns
        · cases h

theorem setGag_keep (gag : Bool) : Keep s (s.step (.setGag gid uid gag)) := by
  cases gag with
  | true => exact Keep.same rfl rfl
  | false => exact Keep.same rfl rfl

/-- A group that is registered is ruled unless somebody else has been left as its owner. -/
theorem register_ruled_iff (hs : s.Ruled) (ownerUID : BitVec 64) (now : Int) :
    (s.step (.register gid ownerUID now)).Ruled ↔ ∀ uid, s.Owns gid uid → uid = ownerUID := by
  have howns : ∀ g u, (s.step (.register gid ownerUID now)).Owns g u ↔
      if g = gid ∧ u = ownerUID then groupRoleOwner = groupRoleOwner else s.Owns g u := owns_write rfl
  have hnew : (s.step (.register gid ownerUID now)).Owns gid ownerUID := (howns ..).2 (by simp)
  constructor
  · intro h uid huid
    refine (h gid (ZSet.mem_add.2 (.inl rfl))).unique ((howns ..).2 ?_) hnew
    split
    · rfl
    · exact huid
  · intro honly g hg
    by_cases hgg : g = gid
    · subst hgg
      refine ⟨ownerUID, hnew, fun uid huid => ?_⟩
      have huid := (howns ..).1 huid
      split at huid
      · rename_i h
        exact h.2
      · exact honly uid huid
    · have hold : g ∈ s.gidZset := (ZSet.mem_add.1 hg).resolve_left hgg
      simpa [howns, hgg] using hs g hold

theorem dismiss_gidZset (s : Store) (gid : BitVec 64) : (s.step (.dismiss gid)).gidZset = s.gidZset.rem gid := by
  rw [step, Call.prog, dismiss_run]

theorem dismiss_ruled (hs : s.Ruled) : (s.step (.dismiss gid)).Ruled := by
  intro g hg
  rw [dismiss_gidZset] at hg
  obtain ⟨hold, hne⟩ := ZSet.mem_rem.1 hg
  have howns : ∀ u, (s.step (.dismiss gid)).Owns g u ↔ s.Owns g u := by
    intro u
    rw [Owns, (step_dismiss s gid).1, put_apply, if_neg hne, Owns]
  simpa only [howns] using hs g hold

/-- No registered group gets a second owner, nor loses the one it has. -/
def Spares (s : Store) : Call → Prop
  | .register gid ownerUID _ => ∀ uid, s.Owns gid uid → uid = ownerUID
  | .quit gid uid _ | .kick gid uid | .setBlacklist gid uid true => gid ∈ s.gidZset → ¬s.Owns gid uid
  | _ => True

theorem leave_ruled_iff (hs : s.Ruled) (hz : s'.gidZset = s.gidZset)
    (hrole : s'.role = put s.role gid (AList.erase uid)) : s'.Ruled ↔ (gid ∈ s.gidZset → ¬s.Owns gid uid) := by
  constructor
  · intro hs' hgid howns
    exact not_ruled_of_leave hs hz hrole hgid howns hs'
  · intro hno g hg
    rw [hz] at hg
    have howns : ∀ u, s'.Owns g u ↔ s.Owns g u := by
      intro u
      refine (owns_leave hrole g u).trans (and_iff_left_of_imp ?_)
      rintro h ⟨rfl, rfl⟩
      exact hno hg h
    simpa only [howns] using hs g hg

/-- One call, whichever it is. -/
theorem step_ruled_iff (hs : s.Ruled) (call : Call) : (s.step call).Ruled ↔ s.Spares call := by
  cases call with
  | register gid ownerUID now => exact register_ruled_iff hs ownerUID now
  | joinOnline gid uid sid nid now now' => exact iff_of_true ((joinOnline_keep sid nid now now').ruled.2 hs) trivial
  | addMember gid uid now => exact iff_of_true ((addMember_keep now).ruled.2 hs) trivial
  | quit gid uid sid => exact leave_ruled_iff hs rfl rfl
  | kick gid uid => exact leave_ruled_iff hs rfl rfl
  | dismiss gid => exact iff_of_true (dismiss_ruled hs) trivial
  | setManager gid uid manager => exact iff_of_true ((setManager_keep manager).ruled.2 hs) trivial
  | setGag gid uid gag => exact iff_of_true ((setGag_keep gag).ruled.2 hs) trivial
  | setBlacklist gid uid add =>
    cases add with
    | true => exact leave_ruled_iff hs rfl rfl
    | false => exact iff_of_true ((Keep.same rfl rfl).ruled.2 hs) trivial

/-- Registrations and dismissals alone change which groups there are. -/
theorem mem_step_gidZset (s : Store) (call : Call) (gid : BitVec 64) : gid ∈ (s.step call).gidZset ↔
    (∃ ownerUID now, call = .register gid ownerUID now) ∨ gid ∈ s.gidZset ∧ call ≠ .dismiss gid := by
  have hkeep : (∀ ownerUID now, call ≠ .register gid ownerUID now) → call ≠ .dismiss gid →
    (s.step call).gidZset = s.gidZset →
      (gid ∈ (s.step call).gidZset ↔ (∃ ownerUID now, call = .register gid ownerUID now) ∨ gid ∈ s.gidZset ∧
      call ≠ .dismiss gid) := by
    intro hreg hdis hz
    rw [hz, and_iff_left hdis]
    exact (or_iff_right fun ⟨ownerUID, now, h⟩ => hreg ownerUID now h).symm
  cases call with
  | register g ownerUID now =>
    change gid ∈ s.gidZset.add _ g ↔ _
    rw [ZSet.mem_add]
    simp [eq_comm]
  | joinOnline g uid sid nid now now' => exact hkeep (by simp) (by simp) (joinOnline_keep sid nid now now').gidZset
  | addMember g uid now => exact hkeep (by simp) (by simp) (addMember_keep now).gidZset
  | quit g uid sid => exact hkeep (by simp) (by simp) rfl
  | kick g uid => exact hkeep (by simp) (by simp) rfl
  | dismiss g =>
    rw [dismiss_gidZset, ZSet.mem_rem]
    simp [eq_comm]
  | setManager g uid manager => exact hkeep (by simp) (by simp) (setManager_keep manager).gidZset
  | setGag g uid gag => exact hkeep (by simp) (by simp) (setGag_keep gag).gidZset
  | setBlacklist g uid add =>
    cases add with
    | true => exact hkeep (by simp) (by simp) rfl
    | false => exact hkeep (by simp) (by simp) rfl

end Store

/-! ## Requests -/

variable {env : Env} {head : MesgHeader} {w : World}

/-- A request that does not remove the owner of a group. -/
def Spares (env : Env) (head : MesgHeader) (w : World) : Request → Prop
  | .quit (.ok req) => isValid head → req.gid ∈ w.store.gidZset → ¬w.store.Owns req.gid req.uid
  | .kick (.ok req) | .bl (.ok req) true =>
    isValid head → manages env head w req.gid → req.gid ∈ w.store.gidZset → ¬w.store.Owns req.gid req.uid
  | _ => True

theorem spares_iff (req : Request) : Spares env head w req ↔ ∀ call ∈ req.call env head w, w.store.Spares call := by
  have hone : ∀ {p : Prop} [Decidable p] {call : Call}, (∀ c ∈ if p then some call else none, w.store.Spares c) ↔
      (p → w.store.Spares call) := by
    intro p _ call
    by_cases hp : p
    · simp [hp]
    · simp [hp]
  cases req with
  | creat body => cases body <;> simp [Spares, Request.call]
  | quit body =>
    cases body with
    | error err => simp [Spares, Request.call]
    | ok req =>
      rw [Request.call, hone]
      exact Iff.rfl
  | kick body =>
    cases body with
    | error err => simp [Spares, Request.call]
    | ok req =>
      rw [Request.call, hone, and_imp]
      exact Iff.rfl
  | bl body add =>
    cases body with
    | error err => cases add <;> simp [Spares, Request.call]
    | ok req =>
      rw [Request.call, hone, and_imp]
      cases add with
      | true => exact Iff.rfl
      | false => exact iff_of_true trivial fun _ _ => trivial
  | chat body => cases body <;> simp [Spares, Request.call]
  | dismiss body | join body | invite body | gag body on | mgr body add =>
    cases body with
    | error err => simp [Spares, Request.call]
    | ok req =>
      rw [Request.call, hone]
      exact iff_of_true trivial fun _ => trivial

theorem handle_ruled_iff (hw : w.store.Ruled) (req : Request) :
    (handle env head req w).world.store.Ruled ↔ Spares env head w req := by
  rw [handle_store, spares_iff]
  cases req.call env head w with
  | none => simpa using hw
  | some call => simpa using Store.step_ruled_iff hw call

/-! ## Runs -/

/-- A request as a server gets it. -/
structure Event where
  env : Env
  head : MesgHeader
  req : Request

def World.step (w : World) (e : Event) : World := (handle e.env e.head e.req w).world

/-- From tables in which each group that is registered has exactly one owner: that is so after every
request of a run exactly when none of them removes the owner of a group. -/
theorem one_owner_iff (events : List Event) : ∀ {w : World}, w.store.Ruled →
    (Guarded World.step (fun w e => (w.step e).store.Ruled) w events ↔
      Guarded World.step (fun w e => Spares e.env e.head w e.req) w events) := by
  induction events with
  | nil => exact fun _ => Iff.rfl
  | cons e events ih =>
    intro w hw
    -- what the request leaves is ruled, so the rest of the run may start from it
    rw [Guarded, Guarded, ← handle_ruled_iff hw e.req]
    exact and_congr_right ih

def World.founded : World := ⟨Groups.founded, 1⟩

theorem founded_ruled : Groups.founded.Ruled :=
  (Store.step_ruled_iff Store.empty_ruled (.register 1 7 0)).2 fun uid huid => absurd huid.mem (AList.notMem_empty uid)

/-- The user 5 joins the group 1 and quits it again, which leaves the owner alone. -/
theorem one_owner_founded :
    Guarded World.step (fun w e => (w.step e).store.Ruled) World.founded
      [⟨⟨.empty, 0, fun _ => []⟩, ⟨8, 3, 2⟩, .join (.ok ⟨5, 1⟩)⟩,
        ⟨⟨.empty, 0, fun _ => []⟩, ⟨8, 3, 2⟩, .quit (.ok ⟨5, 1⟩)⟩] := by
  refine (one_owner_iff _ (w := World.founded) founded_ruled).2 ⟨trivial, fun _ _ => ?_, trivial⟩
  decide

/-- The owner quits the group. -/
theorem owner_quits : ¬∀ events : List Event,
    Guarded World.step (fun w e => (w.step e).store.Ruled) World.founded events := by
  intro h
  have hrun := h [⟨⟨.empty, 0, fun _ => []⟩, ⟨9, 4, 2⟩, .quit (.ok ⟨7, 1⟩)⟩]
  obtain ⟨uid, huid, -⟩ := hrun.1 1 (by decide)
  have hkeys : uid ∈ ([] : List (BitVec 64)) := AList.mem_keys.1 huid.mem
  exact List.not_mem_nil hkeys

end BeehiveIm.Groups
