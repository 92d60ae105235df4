/-
Runs of insertions and removals in which allocations fail. An insertion that needs memory for a tree
with a root has written its key before it asks for it, so that a run is right as long as only the
first key of a tree is refused.
-/
import BeehiveIm.Core.Btree.Removal
import BeehiveIm.Lib.Run

namespace BeehiveIm.Core.Btree

open BeehiveIm.Lib

variable {δ : Type}

/-- A call, and for an insertion how many nodes there is memory for -/
inductive Op (δ : Type) where
  | insert (avail : Nat) (key : Int) (data : δ)
  | remove (key : Int)

def step (T : Btree δ) : Op δ → Option (Btree δ)
  | .insert avail key data => (T.btreeInsert avail key data).map (·.1)
  | .remove key => (T.btreeRemove key).map (·.1)

/-- The nodes that the pointers lead to from the root -/
inductive InTree (T : Btree δ) : Nat → Prop where
  | root {r : Nat} : T.root = some r → InTree T r
  | child {n c : Nat} : InTree T n → c ∈ (T.mem n).child → InTree T c

/-- No node of the tree has too many keys, and no insertion writes behind the arrays of one. -/
def Right (m : Nat) (T : Btree δ) : Prop :=
  (∀ n, T.InTree n → (T.mem n).kv.length ≤ m - 1) ∧ ∀ avail key data, ∃ r, T.btreeInsert avail key data = some r

/-- A call that is refused a node fails and changes nothing. -/
def Atomic (m : Nat) (T : Btree δ) : Op δ → Prop
  | .insert avail key data => avail < T.needs key → ∃ T' code, T.btreeInsert avail key data = some (T', code) ∧
      code ≠ 0 ∧ (∀ k, T'.btreeQuery k = T.btreeQuery k) ∧ Right m T'
  | .remove _ => True

/-- The tree is empty, or there is memory for what the call needs. -/
def Meets (T : Btree δ) : Op δ → Prop
  | .insert avail key _ => T.root = none ∨ T.needs key ≤ avail
  | .remove _ => True

variable {T : Btree δ} {m : Nat}

theorem Shape.live_of_inTree {live : Nat → Prop} {level : Nat → Nat} {height n : Nat} {cur : Option Nat}
    (h : Shape m T live level height cur) (hn : T.InTree n) : live n := by
  induction hn with
  | root hr => exact (h.wired.root _ hr).1
  | child _ hc ih => exact (h.down ih hc).1

theorem Sound.right (h : Sound m T) : Right m T := by
  refine ⟨fun n hn => ?_, fun avail key data => ?_⟩
  · obtain ⟨live, level, height, hshape, -⟩ := h
    have hmax := hshape.order.max
    have hsize := hshape.size n (hshape.live_of_inTree hn) (Option.some_ne_none n)
    omega
  · obtain ⟨T', code, hrun, -⟩ := h.insert avail key data
    exact ⟨(T', code), hrun⟩

theorem insert_refused {avail : Nat} {key : Int} (data : δ) (hroot : T.root = none) (hneeds : avail < T.needs key) :
    T.btreeInsert avail key data = some (T, -1) := by
  have hone : T.needs key = 1 := by simp only [needs, hroot]
  obtain rfl : avail = 0 := by omega
  unfold btreeInsert
  rw [hroot]

/-- A step whose condition holds is right, and keeps the tree sound. -/
theorem Sound.step (h : Sound m T) {o : Op δ} (ho : Meets T o) :
    Atomic m T o ∧ ∃ T', T.step o = some T' ∧ Sound m T' := by
  cases o with
  | remove key =>
    obtain ⟨T', data, hrun, hsound⟩ := h.remove key
    exact ⟨trivial, T', congrArg (Option.map Prod.fst) hrun, hsound⟩
  | insert avail key data =>
    obtain ⟨T', code, hrun, hok, -⟩ := h.insert avail key data
    by_cases hneeds : T.needs key ≤ avail
    · exact ⟨fun hlt => absurd hlt (Nat.not_lt.mpr hneeds), T', congrArg (Option.map Prod.fst) hrun, (hok hneeds).2.2⟩
    · have hrefused := insert_refused data (ho.resolve_right hneeds) (Nat.not_le.mp hneeds)
      exact ⟨fun _ => ⟨T, -1, hrefused, by decide, fun _ => rfl, h.right⟩, T, congrArg (Option.map Prod.fst) hrefused, h⟩

theorem btreeCreat_sound (h : btreeCreat δ m = some T) : Sound m T := by
  unfold btreeCreat at h
  split at h
  · exact absurd h.symm (Option.some_ne_none T)
  · cases h
    refine ⟨fun _ => False, fun _ => 0, 0, ⟨⟨by omega, by dsimp only; omega, ?_, rfl⟩, ?_, fun n hn => hn.elim,
      fun n hn => hn.elim, fun n hn => hn.elim, fun n hn => hn.elim⟩, Nat.le_refl 0⟩
    · dsimp only
      split <;> omega
    · exact ⟨fun n hn => hn.elim, fun n hn => hn.elim, fun n hn => hn.elim, fun n hn => hn.elim,
        fun r hr => absurd hr.symm (Option.some_ne_none r)⟩

/-- In a run whose steps all meet the condition, every call that is refused a node changes nothing,
and every state is right. -/
theorem btree_run_right (hT : btreeCreat δ m = some T) (ops : List (Op δ)) (hmeets : Along Btree.step Meets T ops) :
    Along Btree.step (Atomic m) T ops ∧ ∀ before, before <+: ops →
      ∃ T', before.foldlM Btree.step T = some T' ∧ Right m T' := by
  have hsound := btreeCreat_sound hT
  constructor
  · refine along_imp (Sound m) (fun T o h ho => (h.step ho).1) (fun T o T' h ho hrun => ?_) ops hsound hmeets
    obtain ⟨T'', hrun', hsound'⟩ := (h.step ho).2
    cases hrun.symm.trans hrun'
    exact hsound'
  · intro before hbefore
    have hstep : ∀ (T : Btree δ) (o : Op δ), Sound m T → Meets T o → ∃ T', T.step o = some T' ∧ Sound m T' :=
      fun T o h ho => (h.step ho).2
    obtain ⟨T', hrun, hsound'⟩ := along_run hstep before hsound (hmeets.initial hbefore)
    exact ⟨T', hrun, hsound'.right⟩

/-- The first key is refused, and then there is memory for all: the third one splits the root. -/
theorem btree_run_right_three : ∃ T : Btree Unit, btreeCreat Unit 3 = some T ∧
    (Along Btree.step (Atomic 3) T [.insert 0 1 (), .insert 1 1 (), .insert 0 2 (), .insert 2 3 (), .remove 1] ∧
      ∀ before, before <+: [.insert 0 1 (), .insert 1 1 (), .insert 0 2 (), .insert 2 3 (), .remove 1] →
        ∃ T', before.foldlM Btree.step T = some T' ∧ Right 3 T') := by
  refine ⟨_, rfl, btree_run_right rfl _ ⟨Or.inl rfl, fun T hT => ?_⟩⟩
  cases hT
  refine ⟨Or.inl rfl, fun T hT => ?_⟩
  cases hT
  refine ⟨Or.inr (by decide), fun T hT => ?_⟩
  cases hT
  refine ⟨Or.inr (by decide), fun T hT => ?_⟩
  cases hT
  exact ⟨trivial, fun T hT => trivial⟩

/-- The third key of a tree of order 3 is refused a node: it is found all the same, in a
node with three keys, and the next one is written behind them. When the new root is refused,
the second key is lost. -/
theorem insert_not_atomic : ∃ T T' T'' : Btree Unit,
    (btreeCreat Unit 3).bind (fun T => [Op.insert 1 1 (), .insert 0 2 ()].foldlM Btree.step T) = some T ∧
    T.btreeInsert 0 3 () = some (T', -1) ∧ T.btreeQuery 3 = some none ∧ T'.btreeQuery 3 = some (some ()) ∧
    T'.InTree 0 ∧ (T'.mem 0).kv.length = 3 ∧ T'.btreeInsert 5 4 () = none ∧
    T.btreeInsert 1 3 () = some (T'', -1) ∧ T.btreeQuery 2 = some (some ()) ∧ T''.btreeQuery 2 = some none ∧
    ¬T.Atomic 3 (.insert 0 3 ()) := by
  refine ⟨_, _, _, rfl, rfl, rfl, rfl, .root rfl, rfl, rfl, rfl, rfl, rfl, fun hatomic => ?_⟩
  obtain ⟨T', code, hrun, -, hquery, -⟩ := hatomic (by decide)
  cases hrun
  exact absurd (hquery 3) (by decide)

end BeehiveIm.Core.Btree
