/-
What the sweeps of expired sessions, users and rooms leave behind: `clean_sid_zset` and
`clean_uid_zset` of the tasker, and `cleanRidSet` of the chat room server.
-/
import BeehiveIm.Lib.Sweep
import BeehiveIm.Room.Effects

namespace BeehiveIm.Room

open BeehiveIm.Lib
open BeehiveIm.Session (chatBatNum parseInt)

/-- What has expired is one batch, of ids that are read back as they are. -/
def OneBatch (z : ZSet (BitVec 64)) (ctm : Int) : Prop :=
  (∀ e ∈ z.expired ctm, e.1.toNat < 2 ^ 63) ∧ (z.expired ctm).length ≤ chatBatNum

theorem chatBatNum_pos : 0 < chatBatNum := by decide

theorem parseInt_eq_self (id : BitVec 64) : parseInt id = id ↔ id.toNat < 2 ^ 63 := by
  unfold parseInt
  split
  · rename_i h
    exact ⟨fun _ => h, fun _ => rfl⟩
  · rename_i h
    refine ⟨fun h0 => ?_, fun hlt => absurd hlt h⟩
    rw [← h0] at h
    exact absurd (by decide) h

theorem parseInt_parseInt (id : BitVec 64) : parseInt (parseInt id) = parseInt id := by
  rw [parseInt_eq_self]
  unfold parseInt
  split
  · assumption
  · decide

theorem sweep_iff_oneBatch (z : ZSet (BitVec 64)) (ctm : Int) :
    (∃ z', z.sweep chatBatNum parseInt ctm = some z' ∧ z.Unexpired ctm z') ↔ OneBatch z ctm := by
  rw [ZSet.sweep_iff chatBatNum_pos parseInt_parseInt, OneBatch]
  simp only [parseInt_eq_self]

/-- A loop that is a sweep of one of the sorted sets. -/
theorem swept_iff {σ : Type} {z : ZSet (BitVec 64)} {ctm : Int} {run : Option σ} {s' : σ} (zs : σ → ZSet (BitVec 64))
    (hrun : run = some s') (hsweep : z.sweep chatBatNum parseInt ctm = some (zs s')) :
    (∃ s', run = some s' ∧ z.Unexpired ctm (zs s')) ↔ OneBatch z ctm := by
  rw [← sweep_iff_oneBatch, hrun, hsweep]
  simp only [Option.some.injEq, exists_eq_left']

theorem cleanSidZset_iff (s : Session.Store) (ctm : Int) :
    (∃ s', s.cleanSidZset ctm = some s' ∧ s.sidZset.Unexpired ctm s'.sidZset) ↔ OneBatch s.sidZset ctm := by
  obtain ⟨s', hrun, hsweep⟩ := ZSet.sweep_of chatBatNum_pos parseInt ctm Session.Store.sidZset
    Session.Store.cleanSessionDataBySid (fun _ _ => rfl) s
  exact swept_iff Session.Store.sidZset hrun hsweep

theorem cleanUidZset_iff (s : Session.Store) (ctm : Int) :
    (∃ s', s.cleanUidZset ctm = some s' ∧ s.uidZset.Unexpired ctm s'.uidZset) ↔ OneBatch s.uidZset ctm := by
  obtain ⟨s', hrun, hsweep⟩ := ZSet.sweep_of chatBatNum_pos parseInt ctm Session.Store.uidZset
    Session.Store.cleanByUid (fun _ _ => rfl) s
  exact swept_iff Session.Store.uidZset hrun hsweep

theorem ridZset_cleanByRid (s : Store) (rid : BitVec 64) : ((s.cleanByRid rid).getD s).ridZset = s.ridZset.rem rid := by
  obtain ⟨s', hs', hexp⟩ := s.cleanByRid_expired rid
  rw [hs']
  exact hexp.ridZset

theorem cleanRidSet_iff (s : Store) (ctm : Int) :
    (∃ s', s.cleanRidSet ctm = some s' ∧ s.ridZset.Unexpired ctm s'.ridZset) ↔ OneBatch s.ridZset ctm := by
  obtain ⟨s', hrun, hsweep⟩ := ZSet.sweep_of chatBatNum_pos parseInt ctm Store.ridZset
    (fun s rid => (s.cleanByRid rid).getD s) ridZset_cleanByRid s
  exact swept_iff Store.ridZset hrun hsweep

/-- Each of the sweeps removes what has expired, and no more, exactly where that is one batch. -/
theorem sweeps_complete_iff (im : Session.Store) (s : Store) (ctm : Int) :
    ((∃ im', im.cleanSidZset ctm = some im' ∧ im.sidZset.Unexpired ctm im'.sidZset) ↔ OneBatch im.sidZset ctm) ∧
      ((∃ im', im.cleanUidZset ctm = some im' ∧ im.uidZset.Unexpired ctm im'.uidZset) ↔ OneBatch im.uidZset ctm) ∧
      ((∃ s', s.cleanRidSet ctm = some s' ∧ s.ridZset.Unexpired ctm s'.ridZset) ↔ OneBatch s.ridZset ctm) :=
  ⟨cleanSidZset_iff im ctm, cleanUidZset_iff im ctm, cleanRidSet_iff s ctm⟩

/-- The sessions below `n`, all of which expired at 0. -/
def expiredSids (n : Nat) (hn : n ≤ 2 ^ 64) : ZSet (BitVec 64) where
  list := (List.range n).map fun k => (BitVec.ofNat 64 k, 0)
  nodup := by
    rw [List.map_map]
    refine List.nodup_range.map_on fun j hj k hk h => ?_
    rw [List.mem_range] at hj hk
    have h : j % 2 ^ 64 = k % 2 ^ 64 := congrArg BitVec.toNat h
    omega

theorem length_expiredSids (n : Nat) (hn : n ≤ 2 ^ 64) : ((expiredSids n hn).expired 0).length = n := by
  have hall : (expiredSids n hn).expired 0 = (expiredSids n hn).list := by
    rw [ZSet.expired, ZSet.rangeByScore, List.filter_eq_self]
    intro e he
    obtain ⟨k, -, rfl⟩ := List.mem_map.1 he
    simp
  rw [hall, expiredSids, List.length_map, List.length_range]

/-- One session more than a batch: the sweep ends without the last of them. -/
theorem sweep_leaves_last : ¬∀ (im : Session.Store) (ctm : Int),
    ∃ im', im.cleanSidZset ctm = some im' ∧ im.sidZset.Unexpired ctm im'.sidZset := by
  intro h
  let im : Session.Store := { Session.Store.empty with sidZset := expiredSids 1001 (by decide) }
  have hbatch : OneBatch (expiredSids 1001 (by decide)) 0 := (cleanSidZset_iff im 0).1 (h im 0)
  have hlen := hbatch.2
  rw [length_expiredSids] at hlen
  exact absurd hlen (by decide)

end BeehiveIm.Room
