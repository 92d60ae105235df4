/-
Runs of a machine whose step may fail, against runs of a total abstract machine. A condition on the
abstract state and the operation may guard each step.
-/
import Mathlib.Data.List.Basic

namespace BeehiveIm.Lib

variable {σ τ ο : Type}

/-- Every step of the abstract run from `a` meets the condition `ok`. -/
def Guarded (astep : τ → ο → τ) (ok : τ → ο → Prop) : τ → List ο → Prop
  | _, [] => True
  | a, o :: ops => ok a o ∧ Guarded astep ok (astep a o) ops

instance instDecidableGuarded {astep : τ → ο → τ} {ok : τ → ο → Prop} [∀ a o, Decidable (ok a o)] :
    ∀ a ops, Decidable (Guarded astep ok a ops)
  | _, [] => inferInstanceAs (Decidable True)
  | a, o :: ops =>
    have : Decidable (Guarded astep ok (astep a o) ops) := instDecidableGuarded (astep a o) ops
    inferInstanceAs (Decidable (ok a o ∧ Guarded astep ok (astep a o) ops))

variable {step : σ → ο → Option σ} {ok : τ → ο → Prop} {astep : τ → ο → τ} {R : σ → τ → Prop}

/-- A step-by-step simulation is a simulation of runs; guarded steps do not fail. -/
theorem simulate (h : ∀ s a o, R s a → ok a o → ∃ s', step s o = some s' ∧ R s' (astep a o)) :
    ∀ (ops : List ο) (s : σ) (a : τ), R s a → Guarded astep ok a ops →
      ∃ s', ops.foldlM step s = some s' ∧ R s' (ops.foldl astep a)
  | [], s, _, hR, _ => ⟨s, rfl, hR⟩
  | o :: ops, s, a, hR, hg => by
    obtain ⟨s₁, h₁, hR₁⟩ := h s a o hR hg.1
    obtain ⟨s', h', hR'⟩ := simulate h ops s₁ (astep a o) hR₁ hg.2
    exact ⟨s', by rw [List.foldlM_cons, h₁]; exact h', hR'⟩

/-- An invariant that guarded steps keep; the condition is on the state the step starts from. -/
theorem run_invariant (step : σ → ο → Option σ) (ok : σ → ο → Prop) (Inv : σ → Prop)
    (h : ∀ s o, Inv s → ok s o → ∃ s', step s o = some s' ∧ Inv s') :
    ∀ (ops : List ο) (s : σ), Inv s → Guarded (fun s o => (step s o).getD s) ok s ops →
      ∃ s', ops.foldlM step s = some s' ∧ Inv s'
  | [], s, hs, _ => ⟨s, rfl, hs⟩
  | o :: ops, s, hs, hops => by
    obtain ⟨s₁, h₁, hs₁⟩ := h s o hs hops.1
    have hrest : Guarded (fun s o => (step s o).getD s) ok s₁ ops := by simpa [h₁] using hops.2
    obtain ⟨s', hrun, hs'⟩ := run_invariant step ok Inv h ops s₁ hs₁ hrest
    exact ⟨s', by rw [List.foldlM_cons, h₁]; exact hrun, hs'⟩

/-- An invariant over a run that has not failed, every step of which meets the condition. -/
theorem run_kept (step : σ → ο → Option σ) (ok : σ → ο → Prop) (Inv : σ → Prop)
    (h : ∀ s o s', Inv s → ok s o → step s o = some s' → Inv s') :
    ∀ (ops : List ο) (s s' : σ), Inv s → Guarded (fun s o => (step s o).getD s) ok s ops →
      ops.foldlM step s = some s' → Inv s'
  | [], s, s', hs, _, hrun => by
    cases hrun
    exact hs
  | o :: ops, s, s', hs, hops, hrun => by
    rw [List.foldlM_cons, Option.bind_eq_bind, Option.bind_eq_some_iff] at hrun
    obtain ⟨s₁, h₁, hrun⟩ := hrun
    have hrest : Guarded (fun s o => (step s o).getD s) ok s₁ ops := by simpa [h₁] using hops.2
    exact run_kept step ok Inv h ops s₁ s' (h s o s₁ hs hops.1 h₁) hrest hrun

/-- Two conditions that agree as long as an invariant holds guard the same runs. -/
theorem guarded_congr {ok' : τ → ο → Prop} (Inv : τ → Prop) (hstep : ∀ a o, Inv a → Inv (astep a o))
    (h : ∀ a o, Inv a → (ok a o ↔ ok' a o)) :
    ∀ (ops : List ο) (a : τ), Inv a → (Guarded astep ok a ops ↔ Guarded astep ok' a ops)
  | [], _, _ => Iff.rfl
  | o :: ops, a, ha => and_congr (h a o ha) (guarded_congr Inv hstep h ops (astep a o) (hstep a o ha))

/-- Every step of the run from `s` meets the condition, as far as the run gets. -/
def Along (step : σ → ο → Option σ) (P : σ → ο → Prop) : σ → List ο → Prop
  | _, [] => True
  | s, o :: ops => P s o ∧ ∀ s', step s o = some s' → Along step P s' ops

theorem along_of_forall {P : σ → ο → Prop} (h : ∀ s o, P s o) : ∀ (ops : List ο) (s : σ), Along step P s ops
  | [], _ => trivial
  | o :: ops, s => ⟨h s o, fun s' _ => along_of_forall h ops s'⟩

theorem along_of_mem {P : ο → Prop} : ∀ (ops : List ο) (s : σ), (∀ o ∈ ops, P o) → Along step (fun _ o => P o) s ops
  | [], _, _ => trivial
  | o :: ops, _, h => ⟨h o List.mem_cons_self, fun s' _ => along_of_mem ops s' fun o' ho' => h o' (.tail _ ho')⟩

theorem along_congr {P Q : σ → ο → Prop} (h : ∀ s o, P s o ↔ Q s o) :
    ∀ (ops : List ο) (s : σ), Along step P s ops ↔ Along step Q s ops
  | [], _ => Iff.rfl
  | o :: ops, s => and_congr (h s o) (forall_congr' fun s' => imp_congr_right fun _ => along_congr h ops s')

/-- Two conditions that agree as long as an invariant holds do so all along. -/
theorem along_congr_inv {P Q : σ → ο → Prop} (Inv : σ → Prop) (hstep : ∀ s o s', Inv s → step s o = some s' → Inv s')
    (h : ∀ s o, Inv s → (P s o ↔ Q s o)) :
    ∀ (ops : List ο) (s : σ), Inv s → (Along step P s ops ↔ Along step Q s ops)
  | [], _, _ => Iff.rfl
  | o :: ops, s, hs => and_congr (h s o hs) (forall_congr' fun s' => forall_congr' fun hs' =>
      along_congr_inv Inv hstep h ops s' (hstep s o s' hs hs'))

/-- What an invariant and the condition of a step give holds all along a run whose
steps meet the condition. -/
theorem along_of_guarded {ok P : σ → ο → Prop} (I : σ → Prop) (hP : ∀ s o, I s → ok s o → P s o)
    (hstep : ∀ s o s', I s → ok s o → step s o = some s' → I s') :
    ∀ (ops : List ο) (s : σ), I s → Guarded (fun s o => (step s o).getD s) ok s ops → Along step P s ops
  | [], _, _, _ => trivial
  | o :: ops, s, hs, hops => by
    refine ⟨hP s o hs hops.1, fun s' hs' => ?_⟩
    have hrest : Guarded (fun s o => (step s o).getD s) ok s' ops := by simpa [hs'] using hops.2
    exact along_of_guarded I hP hstep ops s' (hstep s o s' hs hops.1 hs') hrest

/-- What holds all along holds where a part of the run ends. -/
theorem Along.reached {P : σ → ο → Prop} {o : ο} {rest : List ο} : ∀ (ops : List ο) {s s' : σ},
    Along step P s (ops ++ o :: rest) → ops.foldlM step s = some s' → P s' o
  | [], _, _, h, hrun => by
    cases hrun
    exact h.1
  | o' :: ops, s, s', h, hrun => by
    rw [List.foldlM_cons] at hrun
    obtain ⟨s₁, hs₁, hrun⟩ := Option.bind_eq_some_iff.1 hrun
    exact Along.reached ops (h.2 s₁ hs₁) hrun

theorem Along.and {P Q : σ → ο → Prop} : ∀ {ops : List ο} {s : σ}, Along step P s ops → Along step Q s ops →
    Along step (fun s o => P s o ∧ Q s o) s ops
  | [], _, _, _ => trivial
  | _ :: _, _, h, h' => ⟨⟨h.1, h'.1⟩, fun s' hs' => (h.2 s' hs').and (h'.2 s' hs')⟩

theorem Along.initial {P : σ → ο → Prop} : ∀ {before ops : List ο} {s : σ}, Along step P s ops → before <+: ops →
    Along step P s before
  | [], _, _, _, _ => trivial
  | _ :: _, [], _, _, hbefore => absurd (List.prefix_nil.1 hbefore) (List.cons_ne_nil _ _)
  | _ :: _, _ :: _, _, h, hbefore => by
    obtain ⟨rfl, htail⟩ := List.cons_prefix_cons.1 hbefore
    exact ⟨h.1, fun s' hs' => (h.2 s' hs').initial htail⟩

/-- An invariant that steps which meet the condition keep. -/
theorem along_run {ok : σ → ο → Prop} {I : σ → Prop} (h : ∀ s o, I s → ok s o → ∃ s', step s o = some s' ∧ I s') :
    ∀ (ops : List ο) {s : σ}, I s → Along step ok s ops → ∃ s', ops.foldlM step s = some s' ∧ I s'
  | [], s, hs, _ => ⟨s, rfl, hs⟩
  | o :: ops, s, hs, hops => by
    obtain ⟨s₁, h₁, hs₁⟩ := h s o hs hops.1
    obtain ⟨s', hrun, hs'⟩ := along_run h ops hs₁ (hops.2 s₁ h₁)
    exact ⟨s', by rw [List.foldlM_cons, h₁]; exact hrun, hs'⟩

/-- What an invariant and the condition of a step give holds all along with the condition. -/
theorem along_imp {ok P : σ → ο → Prop} (I : σ → Prop) (hP : ∀ s o, I s → ok s o → P s o)
    (hstep : ∀ s o s', I s → ok s o → step s o = some s' → I s') :
    ∀ (ops : List ο) {s : σ}, I s → Along step ok s ops → Along step P s ops
  | [], _, _, _ => trivial
  | o :: ops, s, hs, hops =>
    ⟨hP s o hs hops.1, fun s' hs' => along_imp I hP hstep ops (hstep s o s' hs hops.1 hs') (hops.2 s' hs')⟩

/-- A condition on the operations alone -/
theorem guarded_forall {ok : ο → Prop} :
    ∀ (ops : List ο) (a : τ), Guarded astep (fun _ o => ok o) a ops ↔ ∀ o ∈ ops, ok o
  | [], _ => by simp [Guarded]
  | o :: ops, a => by
    rw [List.forall_mem_cons]
    exact and_congr_right fun _ => guarded_forall ops (astep a o)

theorem guarded_true : ∀ (ops : List ο) (a : τ), Guarded astep (fun _ _ => True) a ops
  | [], _ => trivial
  | _ :: ops, _ => ⟨trivial, guarded_true ops _⟩

/-- `P` holds all through a run just where each step meets the condition, if that is what `P` after
the step takes and what keeps the invariant behind it; the runs are those whose steps meet a
condition `pre` of their own. -/
theorem always_iff_guarded_of {pre : τ → ο → Prop} {P I : τ → Prop} (hP : ∀ a, I a → P a)
    (hok : ∀ a o, I a → pre a o → P (astep a o) → ok a o) (hkeep : ∀ a o, I a → pre a o → ok a o → I (astep a o)) :
    ∀ (ops : List ο) {a : τ}, I a → Guarded astep pre a ops →
      ((∀ before, before <+: ops → P (before.foldl astep a)) ↔ Guarded astep ok a ops)
  | [], a, ha, _ => by
    refine iff_of_true (fun before hbefore => ?_) trivial
    rw [List.prefix_nil.mp hbefore]
    exact hP a ha
  | o :: ops, a, ha, ⟨hpre, hpres⟩ => by
    constructor
    · intro hall
      have ho : ok a o := hok a o ha hpre (hall [o] (by simp))
      refine ⟨ho, (always_iff_guarded_of hP hok hkeep ops (hkeep a o ha hpre ho) hpres).mp fun before hbefore => ?_⟩
      exact hall (o :: before) (List.cons_prefix_cons.mpr ⟨rfl, hbefore⟩)
    · rintro ⟨ho, hrest⟩ before hbefore
      cases before with
      | nil => exact hP a ha
      | cons o' before =>
        obtain ⟨rfl, htail⟩ := List.cons_prefix_cons.mp hbefore
        exact (always_iff_guarded_of hP hok hkeep ops (hkeep a o' ha hpre ho) hpres).mpr hrest before htail

/-- The same for a machine whose step may fail, against a total one; a run is right as long as it
goes on and its state fits the abstract one. -/
theorem simulate_iff {pre : τ → ο → Prop} {P : σ → τ → Prop} (hP : ∀ s a, R s a → P s a)
    (hstep : ∀ s a o, R s a → pre a o →
      ∃ s', step s o = some s' ∧ (P s' (astep a o) → ok a o) ∧ (ok a o → R s' (astep a o))) :
    ∀ (ops : List ο) {s : σ} {a : τ}, R s a → Guarded astep pre a ops →
      ((∀ before, before <+: ops → ∃ s', before.foldlM step s = some s' ∧ P s' (before.foldl astep a)) ↔
        Guarded astep ok a ops)
  | [], s, a, hR, _ => by
    refine iff_of_true (fun before hbefore => ?_) trivial
    rw [List.prefix_nil.mp hbefore]
    exact ⟨s, rfl, hP s a hR⟩
  | o :: ops, s, a, hR, ⟨hpre, hpres⟩ => by
    obtain ⟨s₁, hs₁, hok, hkeep⟩ := hstep s a o hR hpre
    have hrun : ∀ before : List ο, (o :: before).foldlM step s = before.foldlM step s₁ := fun before => by
      rw [List.foldlM_cons, hs₁]
      rfl
    constructor
    · intro hall
      obtain ⟨s', hs', hfits⟩ := hall [o] (by simp)
      rw [hrun] at hs'
      cases hs'
      have ho := hok hfits
      refine ⟨ho, (simulate_iff hP hstep ops (hkeep ho) hpres).mp fun before hbefore => ?_⟩
      obtain ⟨s', hs', hfits⟩ := hall (o :: before) (List.cons_prefix_cons.mpr ⟨rfl, hbefore⟩)
      exact ⟨s', (hrun before).symm.trans hs', hfits⟩
    · rintro ⟨ho, hrest⟩ before hbefore
      cases before with
      | nil => exact ⟨s, rfl, hP s a hR⟩
      | cons o' before =>
        obtain ⟨rfl, htail⟩ := List.cons_prefix_cons.mp hbefore
        rw [hrun]
        exact (simulate_iff hP hstep ops (hkeep ho) hpres).mpr hrest before htail

/-- The same where the conditions are on the state of the machine itself. -/
theorem along_iff {pre ok : σ → ο → Prop} {P I : σ → Prop} (hP : ∀ s, I s → P s)
    (hstep : ∀ s o, I s → pre s o → ∃ s', step s o = some s' ∧ (P s' → ok s o) ∧ (ok s o → I s')) :
    ∀ (ops : List ο) {s : σ}, I s → Along step pre s ops →
      ((∀ before, before <+: ops → ∃ s', before.foldlM step s = some s' ∧ P s') ↔ Along step ok s ops)
  | [], s, hs, _ => by
    refine iff_of_true (fun before hbefore => ?_) trivial
    rw [List.prefix_nil.mp hbefore]
    exact ⟨s, rfl, hP s hs⟩
  | o :: ops, s, hs, ⟨hpre, hpres⟩ => by
    obtain ⟨s₁, hs₁, hok, hkeep⟩ := hstep s o hs hpre
    have hrun : ∀ before : List ο, (o :: before).foldlM step s = before.foldlM step s₁ := fun before => by
      rw [List.foldlM_cons, hs₁]
      rfl
    constructor
    · intro hall
      obtain ⟨s', hs', hfits⟩ := hall [o] (by simp)
      rw [hrun] at hs'
      cases hs'
      have ho := hok hfits
      refine ⟨ho, fun s' hs' => ?_⟩
      cases hs₁.symm.trans hs'
      refine (along_iff hP hstep ops (hkeep ho) (hpres s₁ hs₁)).mp fun before hbefore => ?_
      obtain ⟨s', hs', hfits⟩ := hall (o :: before) (List.cons_prefix_cons.mpr ⟨rfl, hbefore⟩)
      exact ⟨s', (hrun before).symm.trans hs', hfits⟩
    · rintro ⟨ho, hrest⟩ before hbefore
      cases before with
      | nil => exact ⟨s, rfl, hP s hs⟩
      | cons o' before =>
        obtain ⟨rfl, htail⟩ := List.cons_prefix_cons.mp hbefore
        rw [hrun]
        exact (along_iff hP hstep ops (hkeep ho) (hpres s₁ hs₁)).mpr (hrest s₁ hs₁) before htail

/-- The same for all runs. -/
theorem always_iff_guarded {P I : τ → Prop} (hP : ∀ a, I a → P a) (hok : ∀ a o, I a → P (astep a o) → ok a o)
    (hkeep : ∀ a o, I a → ok a o → I (astep a o)) (ops : List ο) {a : τ} (ha : I a) :
    (∀ before, before <+: ops → P (before.foldl astep a)) ↔ Guarded astep ok a ops :=
  always_iff_guarded_of hP (fun a o ha _ => hok a o ha) (fun a o ha _ => hkeep a o ha) ops ha (guarded_true ops a)

end BeehiveIm.Lib
