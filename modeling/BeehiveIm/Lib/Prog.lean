/-
Programs that talk to a store in commands. A program alone runs to its end; several at once take
turns command by command, each a client of the store.
-/
import Mathlib.Logic.Function.Basic
import BeehiveIm.Lib.Run

namespace BeehiveIm.Lib

variable {κ σ τ α β C : Type} {ρ : κ → Type}

/-- `ρ c` is what the command `c` is answered. -/
inductive Prog (ρ : κ → Type) (α : Type) where
  | ret (a : α)
  | issue (c : κ) (k : ρ c → Prog ρ α)

namespace Prog

def bind : Prog ρ α → (α → Prog ρ β) → Prog ρ β
  | .ret a, f => f a
  | .issue c k, f => .issue c fun r => (k r).bind f

instance : Monad (Prog ρ) where
  pure := .ret
  bind := .bind

@[simp] theorem ret_bind (a : α) (f : α → Prog ρ β) : (Prog.ret a >>= f) = f a := rfl

@[simp] theorem pure_bind (a : α) (f : α → Prog ρ β) : (pure a >>= f) = f a := rfl

@[simp] theorem issue_bind (c : κ) (k : ρ c → Prog ρ α) (f : α → Prog ρ β) :
    (Prog.issue c k >>= f) = .issue c fun r => k r >>= f := rfl

variable (exec : (c : κ) → σ → ρ c × σ)

/-- What the program returns and leaves of the store. -/
def run : Prog ρ α → σ → α × σ
  | .ret a, s => (a, s)
  | .issue c k, s => (k (exec c s).1).run (exec c s).2

@[simp] theorem run_ret (a : α) (s : σ) : (Prog.ret (ρ := ρ) a).run exec s = (a, s) := rfl

@[simp] theorem run_pure (a : α) (s : σ) : (pure a : Prog ρ α).run exec s = (a, s) := rfl

@[simp] theorem run_issue (c : κ) (k : ρ c → Prog ρ α) (s : σ) :
    (Prog.issue c k).run exec s = (k (exec c s).1).run exec (exec c s).2 := rfl

theorem run_ite {b : Prop} [Decidable b] (p q : Prog ρ α) (s : σ) :
    (if b then p else q).run exec s = if b then p.run exec s else q.run exec s := by split <;> rfl

theorem run_bind (f : α → Prog ρ β) : ∀ (p : Prog ρ α) (s : σ),
    (p >>= f).run exec s = (f (p.run exec s).1).run exec (p.run exec s).2
  | .ret _, _ => rfl
  | .issue c k, s => run_bind f (k (exec c s).1) (exec c s).2

section

variable {κ' σ' : Type} {ρ' : κ' → Type}

/-- The program over other commands: `g` reads what `f c` is answered as the answer to `c`. -/
def lift (f : κ → κ') (g : ∀ c, ρ' (f c) → ρ c) : Prog ρ α → Prog ρ' α
  | .ret a => .ret a
  | .issue c k => .issue (f c) fun r => (k (g c r)).lift f g

/-- Where each command does in one part of a store what it did in a store of its own, so does the
program. -/
theorem run_lift (exec : (c : κ) → σ → ρ c × σ) (exec' : (c : κ') → σ' → ρ' c × σ') (f : κ → κ')
    (g : ∀ c, ρ' (f c) → ρ c) (R : σ → σ' → Prop)
    (h : ∀ c s s', R s s' → g c (exec' (f c) s').1 = (exec c s).1 ∧ R (exec c s).2 (exec' (f c) s').2) :
    ∀ (p : Prog ρ α) (s : σ) (s' : σ'), R s s' →
      ((p.lift f g).run exec' s').1 = (p.run exec s).1 ∧ R (p.run exec s).2 ((p.lift f g).run exec' s').2
  | .ret _, _, _, hR => ⟨rfl, hR⟩
  | .issue c k, s, s', hR => by
    obtain ⟨hr, hR'⟩ := h c s s' hR
    rw [lift, run_issue, run_issue, hr]
    exact run_lift exec exec' f g R h (k (exec c s).1) _ _ hR'

end

/-- Whatever it is answered, the program issues no commands but those of `P`. -/
def Only (P : κ → Prop) : Prog ρ α → Prop
  | .ret _ => True
  | .issue c k => P c ∧ ∀ r, (k r).Only P

@[simp] theorem only_ret {P : κ → Prop} (a : α) : (Prog.ret a : Prog ρ α).Only P := trivial

@[simp] theorem only_pure {P : κ → Prop} (a : α) : (pure a : Prog ρ α).Only P := trivial

@[simp] theorem only_issue {P : κ → Prop} {c : κ} {k : ρ c → Prog ρ α} :
    (Prog.issue c k).Only P ↔ P c ∧ ∀ r, (k r).Only P := Iff.rfl

@[simp] theorem only_ite {P : κ → Prop} {b : Prop} [Decidable b] {p q : Prog ρ α} :
    (if b then p else q).Only P ↔ (b → p.Only P) ∧ (¬b → q.Only P) := by
  split
  · rename_i hb
    simp [hb]
  · rename_i hb
    simp [hb]

theorem Only.bind {P : κ → Prop} {f : α → Prog ρ β} (hf : ∀ a, (f a).Only P) :
    ∀ {p : Prog ρ α}, p.Only P → (p >>= f).Only P
  | .ret a, _ => hf a
  | .issue _ _, hp => ⟨hp.1, fun r => Only.bind hf (hp.2 r)⟩

theorem Only.mono {P Q : κ → Prop} (h : ∀ {c}, P c → Q c) : ∀ {p : Prog ρ α}, p.Only P → p.Only Q
  | .ret _, _ => trivial
  | .issue _ _, hp => ⟨h hp.1, fun r => Only.mono h (hp.2 r)⟩

theorem Only.forM {ι : Type} {P : κ → Prop} {f : ι → Prog ρ PUnit} (hf : ∀ a, (f a).Only P) : ∀ l :
    List ι, (l.forM f).Only P
  | [] => trivial
  | a :: l => Only.bind (fun _ => Only.forM hf l) (hf a)

theorem Only.lift {κ' : Type} {ρ' : κ' → Type} {P : κ' → Prop} (f : κ → κ') (g : ∀ c, ρ' (f c) → ρ c)
    (h : ∀ c, P (f c)) : ∀ p : Prog ρ α, (p.lift f g).Only P
  | .ret _ => trivial
  | .issue c k => ⟨h c, fun r => Only.lift f g h (k (g c r))⟩

/-- What each command does to the store at most, the program does at most. -/
theorem Only.run {P : κ → Prop} {R : σ → σ → Prop} (hrefl : ∀ s, R s s) (htrans : ∀ s t u, R s t → R t u → R s u)
    (hR : ∀ c, P c → ∀ s, R s (exec c s).2) : ∀ {p : Prog ρ α}, p.Only P → ∀ s, R s (p.run exec s).2
  | .ret _, _, s => hrefl s
  | .issue c _, hp, s => htrans s _ _ (hR c hp.1 s) (Only.run hrefl htrans hR (hp.2 _) _)

/-- The program may come to a command of `hit` with no answer before it that `stop` names. -/
def May (hit : κ → Prop) (stop : (c : κ) → ρ c → Prop) : Prog ρ α → Prop
  | .ret _ => False
  | .issue c k => hit c ∨ ∃ r, ¬stop c r ∧ (k r).May hit stop

theorem may_bind {hit : κ → Prop} {stop : (c : κ) → ρ c → Prop} {f : α → Prog ρ β} :
    ∀ {p : Prog ρ α}, (p >>= f).May hit stop → p.May hit stop ∨ ∃ a, (f a).May hit stop
  | .ret a, h => .inr ⟨a, h⟩
  | .issue c k, h => by
    rcases h with h | ⟨r, hr, h⟩
    · exact .inl (.inl h)
    · rcases may_bind h with h | h
      · exact .inl (.inr ⟨r, hr, h⟩)
      · exact .inr h

end Prog

/-! ## Several at once -/

/-- The store, and what is left to do of the call each client is in. -/
structure Pool (ρ : κ → Type) (σ τ α : Type) where
  store : σ
  calls : τ → Option (Prog ρ α)

inductive Act (C : Type) where
  | call (c : C)
  | go

namespace Pool

def init (s : σ) : Pool ρ σ τ α := ⟨s, fun _ => none⟩

variable [DecidableEq τ] (exec : (c : κ) → σ → ρ c × σ) (prog : C → Prog ρ α)

def step (w : Pool ρ σ τ α) : τ × Act C → Option (Pool ρ σ τ α)
  | (t, .call c) =>
    match w.calls t with
    | none => some { w with calls := Function.update w.calls t (some (prog c)) }
    | some _ => none
  | (t, .go) =>
    match w.calls t with
    | none => none
    | some (.ret _) => some { w with calls := Function.update w.calls t none }
    | some (.issue c k) => some ⟨(exec c w.store).2, Function.update w.calls t (some (k (exec c w.store).1))⟩

/-- The pool after a step -/
def next (w : Pool ρ σ τ α) (o : τ × Act C) : Pool ρ σ τ α := (w.step exec prog o).getD w

/-- Where a step of the pool may go wrong: at the start of a call, and at a command. -/
def Cares (start : Pool ρ σ τ α → C → Prop) (care : Pool ρ σ τ α → κ → Prop) (w : Pool ρ σ τ α) : τ × Act C → Prop
  | (t, .call c) => w.calls t = none ∧ start w c
  | (t, .go) => ∃ p, w.calls t = some p ∧ ∀ c k, p = .issue c k → care w c

variable {ι : Type} (hit : ι → κ → Prop) (stop : ι → (c : κ) → ρ c → Prop) (fact : ι → σ → Prop)

/-- What each program in flight relies on: `fact i`, as long as it may come to
`hit i` before `stop i`. -/
def Relies (w : Pool ρ σ τ α) : Prop :=
  ∀ t p, w.calls t = some p → ∀ i, p.May (hit i) (stop i) → fact i w.store

omit [DecidableEq τ] in
theorem init_relies (s : σ) : (init s : Pool ρ σ τ α).Relies hit stop fact := by
  intro t p h
  cases h

section

variable {exec prog}

theorem step_call {w : Pool ρ σ τ α} {t : τ} (c : C) (h : w.calls t = none) :
    w.step exec prog (t, .call c) = some { w with calls := Function.update w.calls t (some (prog c)) } := by
  simp [step, h]

theorem step_ret {w : Pool ρ σ τ α} {t : τ} {a : α} (h : w.calls t = some (.ret a)) :
    w.step exec prog (t, .go) = some { w with calls := Function.update w.calls t none } := by
  simp [step, h]

theorem step_issue {w : Pool ρ σ τ α} {t : τ} {c : κ} {k : ρ c → Prog ρ α} (h : w.calls t = some (.issue c k)) :
    w.step exec prog (t, .go) =
      some ⟨(exec c w.store).2, Function.update w.calls t (some (k (exec c w.store).1))⟩ := by
  simp [step, h]

/-- What a step comes to: nothing, a call that begins or ends, or a command. -/
theorem next_cases (exec : (c : κ) → σ → ρ c × σ) (prog : C → Prog ρ α) (w : Pool ρ σ τ α) (o : τ × Act C) :
    w.next exec prog o = w ∨
    (∃ c, w.calls o.1 = none ∧ w.next exec prog o = { w with calls := Function.update w.calls o.1 (some (prog c)) }) ∨
    (∃ a, w.calls o.1 = some (.ret a) ∧ w.next exec prog o = { w with calls := Function.update w.calls o.1 none }) ∨
    ∃ c k, o.2 = .go ∧ w.calls o.1 = some (.issue c k) ∧
      w.next exec prog o = ⟨(exec c w.store).2, Function.update w.calls o.1 (some (k (exec c w.store).1))⟩ := by
  obtain ⟨t, act⟩ := o
  unfold next
  cases hcall : w.calls t with
  | none =>
    cases act with
    | call c => exact .inr (.inl ⟨c, rfl, by rw [step_call c hcall]; rfl⟩)
    | go => exact .inl (by simp [step, hcall])
  | some p =>
    cases act with
    | call c => exact .inl (by simp [step, hcall])
    | go =>
      cases p with
      | ret a => exact .inr (.inr (.inl ⟨a, rfl, by rw [step_ret hcall]; rfl⟩))
      | issue c k => exact .inr (.inr (.inr ⟨c, k, rfl, rfl, by rw [step_issue hcall]; rfl⟩))

variable {hit stop fact} {w : Pool ρ σ τ α} {start : Pool ρ σ τ α → C → Prop} {care : Pool ρ σ τ α → κ → Prop}

theorem Relies.call {t : τ} {c : C} (hw : w.Relies hit stop fact)
    (hc : ∀ i, (prog c).May (hit i) (stop i) → fact i w.store) :
    Relies hit stop fact { w with calls := Function.update w.calls t (some (prog c)) } := by
  intro t' p hp i hmay
  rcases eq_or_ne t' t with rfl | hne
  · obtain rfl : prog c = p := by simpa using hp
    exact hc i hmay
  · exact hw t' p (by simpa [Function.update_of_ne hne] using hp) i hmay

theorem Relies.ret {t : τ} (hw : w.Relies hit stop fact) :
    Relies hit stop fact { w with calls := Function.update w.calls t none } := by
  intro t' p hp i hmay
  rcases eq_or_ne t' t with rfl | hne
  · simp at hp
  · exact hw t' p (by simpa [Function.update_of_ne hne] using hp) i hmay

/-- A command keeps what the programs rely on when it makes true what its answer stops, and what it
may make false no program in flight relies on. -/
theorem Relies.issue {t : τ} {c : κ} {k : ρ c → Prog ρ α} (hw : w.Relies hit stop fact)
    (ht : w.calls t = some (.issue c k)) (hstop : ∀ i, stop i c (exec c w.store).1 → fact i (exec c w.store).2)
    (hstable : ∀ i, fact i w.store → ¬fact i (exec c w.store).2 → ∀ t p, w.calls t = some p → ¬p.May (hit i) (stop i)) :
    Relies hit stop fact ⟨(exec c w.store).2, Function.update w.calls t (some (k (exec c w.store).1))⟩ := by
  have hold : ∀ t' p i, w.calls t' = some p → p.May (hit i) (stop i) → fact i (exec c w.store).2 := by
    intro t' p i hp hmay
    by_contra hbroken
    exact hstable i (hw t' p hp i hmay) hbroken t' p hp hmay
  intro t' p hp i hmay
  rcases eq_or_ne t' t with rfl | hne
  · obtain rfl : k (exec c w.store).1 = p := by simpa using hp
    by_cases hs : stop i c (exec c w.store).1
    · exact hstop i hs
    · exact hold t' _ i ht (.inr ⟨_, hs, hmay⟩)
  · exact hold t' p i (by simpa [Function.update_of_ne hne] using hp) hmay

variable (hit stop fact) in
/-- An invariant of the store over a run: it may take for granted what the program that
issues a command relies on. -/
theorem run_inv (Inv : σ → Prop) (ops : List (τ × Act C)) (hw : Inv w.store ∧ w.Relies hit stop fact)
    (hops : Guarded (next exec prog) (Cares start care) w ops)
    (hstart : ∀ (w : Pool ρ σ τ α) c, start w c → ∀ i, (prog c).May (hit i) (stop i) → fact i w.store)
    (hstop : ∀ i c s, Inv s → stop i c (exec c s).1 → fact i (exec c s).2)
    (hstable : ∀ (w : Pool ρ σ τ α) c i, care w c → fact i w.store → ¬fact i (exec c w.store).2 →
      ∀ t p, w.calls t = some p → ¬p.May (hit i) (stop i))
    (hinv : ∀ (w : Pool ρ σ τ α) c, care w c → Inv w.store → (∀ i, hit i c → fact i w.store) → Inv (exec c w.store).2) :
    ∃ w', ops.foldlM (step exec prog) w = some w' ∧ Inv w'.store ∧ w'.Relies hit stop fact := by
  refine run_invariant (step exec prog) (Cares start care)
    (fun w => Inv w.store ∧ w.Relies hit stop fact) ?_ ops w hw hops
  rintro w ⟨t, a⟩ ⟨hs, hr⟩ hok
  cases a with
  | call c =>
    obtain ⟨hidle, hc⟩ := hok
    exact ⟨_, step_call c hidle, hs, hr.call (hstart w c hc)⟩
  | go =>
    obtain ⟨p, hp, hcmd⟩ := hok
    cases p with
    | ret a => exact ⟨_, step_ret hp, hs, hr.ret⟩
    | issue c k =>
      have hc := hcmd c k rfl
      refine ⟨_, step_issue hp, ?_, hr.issue hp (fun i => hstop i c w.store hs) fun i => hstable w c i hc⟩
      exact hinv w c hc hs fun i hi => hr t _ hp i (.inl hi)

end

end Pool

end BeehiveIm.Lib
