/-
Programs that take locks and give them back. A program says which locks it takes and gives back, in
their order; each lock counts how often it is held, and one that is not held must not be given back.
-/
import Mathlib.Logic.Function.Basic
import Mathlib.Algebra.Group.Nat.Defs

namespace BeehiveIm.Lib

inductive LockEvent (ι : Type) where
  | acquire (l : ι)
  | release (l : ι)

/-! ## What is held -/

section Holds

variable {ι : Type} [DecidableEq ι] {l : ι} {es es' es₁ es₁' : List (LockEvent ι)} {held held' : ι → Nat}

/-- How often each lock is held after an event; `none` if one is given back that is not held. -/
def LockEvent.apply (held : ι → Nat) : LockEvent ι → Option (ι → Nat)
  | acquire l => some (Function.update held l (held l + 1))
  | release l => if held l = 0 then none else some (Function.update held l (held l - 1))

def holds (es : List (LockEvent ι)) (held : ι → Nat) : Option (ι → Nat) := es.foldlM LockEvent.apply held

/-- Whoever holds nothing before the events holds nothing after them, and gives back only what is
held. -/
def Balanced (es : List (LockEvent ι)) : Prop := holds es (fun _ => 0) = some fun _ => 0

/-- The events come to the same, whatever is held before. -/
def SameHolds (es es' : List (LockEvent ι)) : Prop := ∀ held, holds es held = holds es' held

theorem holds_append : holds (es ++ es') held = (holds es held).bind (holds es') := List.foldlM_append

theorem holds_cons (e : LockEvent ι) : holds (e :: es) held = (e.apply held).bind (holds es) := List.foldlM_cons

namespace SameHolds

theorem refl (es : List (LockEvent ι)) : SameHolds es es := fun _ => rfl

theorem trans (h : SameHolds es es') (h' : SameHolds es' es₁) : SameHolds es es₁ := fun held => (h held).trans (h' held)

theorem append (h : SameHolds es es') (h₁ : SameHolds es₁ es₁') : SameHolds (es ++ es₁) (es' ++ es₁') := by
  intro held
  rw [holds_append, holds_append, h held]
  congr 1
  exact funext h₁

theorem acquire_release (l : ι) : SameHolds [.acquire l, .release l] [] := by
  intro held
  simp [holds, LockEvent.apply]

theorem acquire_cons (l : ι) (es : List (LockEvent ι)) : SameHolds (.acquire l :: .release l :: es) es :=
  (acquire_release l).append (.refl es)

end SameHolds

/-- What is held besides stays held. -/
theorem LockEvent.apply_frame (extra : ι → Nat) {e : LockEvent ι} (h : e.apply held = some held') :
    e.apply (fun l => held l + extra l) = some fun l => held' l + extra l := by
  cases e with
  | acquire l =>
    cases h
    refine congrArg some (funext fun i => ?_)
    simp only [Function.update_apply]
    split
    · rename_i hi
      rw [hi]
      omega
    · rfl
  | release l =>
    simp only [apply] at h ⊢
    by_cases hl : held l = 0
    · rw [if_pos hl] at h
      cases h
    rw [if_neg hl] at h
    cases h
    rw [if_neg (by omega)]
    refine congrArg some (funext fun i => ?_)
    simp only [Function.update_apply]
    split
    · rename_i hi
      rw [hi]
      omega
    · rfl

theorem holds_frame (extra : ι → Nat) : ∀ {es : List (LockEvent ι)} {held held' : ι → Nat}, holds es held = some held' →
    holds es (fun l => held l + extra l) = some fun l => held' l + extra l
  | [], _, _, h => by
    cases h
    rfl
  | e :: es, held, held', h => by
    rw [holds_cons] at h ⊢
    obtain ⟨held₁, he, hes⟩ := Option.bind_eq_some_iff.1 h
    rw [e.apply_frame extra he]
    exact holds_frame extra hes

theorem balanced_iff : Balanced es ↔ SameHolds es [] := by
  constructor
  · intro h held
    have hframe := holds_frame held h
    simp only [Nat.zero_add] at hframe
    exact hframe
  · intro h
    exact h _

theorem SameHolds.balanced_iff (h : SameHolds es es') : Balanced es ↔ Balanced es' := by
  unfold Balanced
  rw [h]

/-- A lock that is taken besides stays taken. -/
theorem not_balanced_acquire (h : SameHolds es []) : ¬Balanced (.acquire l :: es) := by
  intro hb
  unfold Balanced at hb
  rw [holds_cons] at hb
  change holds es (Function.update (fun _ => 0) l (0 + 1)) = _ at hb
  rw [h] at hb
  have heq : Function.update (fun _ => 0) l (0 + 1) = fun _ : ι => 0 := Option.some.inj hb
  have hl := congrFun heq l
  rw [Function.update_self] at hl
  cases hl

/-- A lock that was not taken must not be given back. -/
theorem not_balanced_release {l' : ι} (hne : l ≠ l') : ¬Balanced (.acquire l' :: .release l :: es) := by
  intro hb
  unfold Balanced at hb
  rw [holds_cons] at hb
  change holds (.release l :: es) (Function.update (fun _ => 0) l' (0 + 1)) = _ at hb
  rw [holds_cons, LockEvent.apply, Function.update_of_ne hne, if_pos rfl] at hb
  cases hb

end Holds

/-! ## Programs -/

/-- What a program answers and what it did to the locks; `none` if it does not return. -/
def Locked (ι α : Type) := Option (α × List (LockEvent ι))

namespace Locked

variable {ι α β : Type}

instance : Monad (Locked ι) where
  pure a := some (a, [])
  bind p f := Option.bind p fun q => Option.map (fun q' => (q'.1, q.2 ++ q'.2)) (f q.1)

def acquire (l : ι) : Locked ι Unit := some ((), [.acquire l])

def release (l : ι) : Locked ι Unit := some ((), [.release l])

/-- What has nothing to do with the locks. -/
def lift (o : Option α) : Locked ι α := o.map (·, [])

/-- Under lock `l`. -/
def under (l : ι) (o : Option α) : Locked ι α := do
  acquire l
  let a ← lift o
  release l
  return a

/-- A query keeps its lock if it finds something. -/
def query (l : ι) (o : Option (Option α)) : Locked ι (Option α) := do
  acquire l
  match ← lift o with
  | none =>
    release l
    return none
  | some a => return some a

/-- The program without the locks. -/
def forget (p : Locked ι α) : Option α := Option.map Prod.fst p

section Forget

variable (l : ι) (p : Locked ι α) (f : α → Locked ι β) (o : Option α)

@[simp] theorem forget_pure (a : α) : forget (pure a : Locked ι α) = some a := rfl

@[simp] theorem forget_bind : forget (p >>= f) = (forget p).bind fun a => forget (f a) := by
  cases p with
  | none => rfl
  | some q =>
    cases hf : f q.1 with
    | none => simp [forget, bind, hf]
    | some q' => simp [forget, bind, hf]

@[simp] theorem forget_acquire : forget (acquire l) = some () := rfl

@[simp] theorem forget_release : forget (release l) = some () := rfl

@[simp] theorem forget_lift : forget (lift o : Locked ι α) = o := by
  unfold forget lift
  rw [Option.map_map]
  exact Option.map_id'

@[simp] theorem forget_under : forget (under l o) = o := by
  cases o <;> simp [under]

@[simp] theorem forget_query (o : Option (Option α)) : forget (query l o) = o := by
  unfold query
  rcases o with - | - | a <;> simp

theorem forget_foldlM {γ : Type} (f : β → γ → Locked ι β) (g : β → γ → Option β) (h : ∀ b c, forget (f b c) = g b c) :
    ∀ (cs : List γ) (b : β), forget (cs.foldlM f b) = cs.foldlM g b
  | [], _ => rfl
  | c :: cs, b => by
    rw [List.foldlM_cons, List.foldlM_cons, forget_bind, h]
    exact congrArg (Option.bind (g b c)) (funext (forget_foldlM f g h cs))

end Forget

/-! ## What a program leaves -/

section Leaves

variable [DecidableEq ι] {l : ι} {p : Locked ι α} {f : α → Locked ι β} {o : Option α} {es : List (LockEvent ι)}

/-- If the program returns, it has done to the locks what `es` does. -/
def Leaves (p : Locked ι α) (es : List (LockEvent ι)) : Prop := ∀ q, p = some q → SameHolds q.2 es

/-- If the program returns, it has given back what it took, and nothing else. -/
theorem Leaves.balanced {q : α × List (LockEvent ι)} (h : Leaves p []) (hp : p = some q) : Balanced q.2 :=
  balanced_iff.2 (h q hp)

theorem leaves_pure (a : α) : Leaves (pure a : Locked ι α) [] := by
  rintro q hq
  cases hq
  exact .refl _

omit [DecidableEq ι] in
theorem bind_eq_some {q : β × List (LockEvent ι)} (h : p >>= f = some q) :
    ∃ q₁ q₂, p = some q₁ ∧ f q₁.1 = some q₂ ∧ q = (q₂.1, q₁.2 ++ q₂.2) := by
  obtain ⟨q₁, hp, h⟩ := Option.bind_eq_some_iff.1 h
  obtain ⟨q₂, hf, rfl⟩ := Option.map_eq_some_iff.1 h
  exact ⟨q₁, q₂, hp, hf, rfl⟩

theorem Leaves.bind {es' : List (LockEvent ι)} (hp : Leaves p es) (hf : ∀ a, Leaves (f a) es') :
    Leaves (p >>= f) (es ++ es') := by
  intro q hq
  obtain ⟨q₁, q₂, h₁, h₂, rfl⟩ := bind_eq_some hq
  exact (hp q₁ h₁).append (hf q₁.1 q₂ h₂)

/-- A first part that has given everything back. -/
theorem Leaves.then (hp : Leaves p []) (hf : ∀ a, Leaves (f a) es) : Leaves (p >>= f) es := hp.bind hf

theorem leaves_acquire (l : ι) : Leaves (acquire l) [.acquire l] := by
  rintro q hq
  cases hq
  exact .refl _

theorem leaves_release (l : ι) : Leaves (release l) [.release l] := by
  rintro q hq
  cases hq
  exact .refl _

theorem leaves_lift (o : Option α) : Leaves (lift o : Locked ι α) [] := by
  intro q hq
  obtain ⟨a, -, rfl⟩ := Option.map_eq_some_iff.1 hq
  exact .refl _

theorem Leaves.release {f : Unit → Locked ι β} (hf : Leaves (f ()) es) :
    Leaves (Locked.release l >>= f) (.release l :: es) :=
  (leaves_release l).bind fun _ => hf

/-- What a first part has taken is given back by the rest. -/
theorem Leaves.taken (hp : Leaves p [.acquire l]) (hf : ∀ a, Leaves (f a) (.release l :: es)) : Leaves (p >>= f) es :=
  fun q hq => (hp.bind hf q hq).trans (.acquire_cons l es)

theorem Leaves.acquire {f : Unit → Locked ι β} (hf : Leaves (f ()) (.release l :: es)) :
    Leaves (Locked.acquire l >>= f) es :=
  (leaves_acquire l).taken fun _ => hf

theorem leaves_under (l : ι) (o : Option α) : Leaves (under l o) [] :=
  .acquire ((leaves_lift o).then fun a => .release (leaves_pure a))

/-- What follows a query that finds something starts with its lock. -/
theorem Leaves.query_same {o : Option (Option α)} {f : Option α → Locked ι β} {es' : List (LockEvent ι)}
    (hnone : o = some none → Leaves (f none) es) (hsome : ∀ a, o = some (some a) → Leaves (f (some a)) es')
    (hsame : SameHolds (.acquire l :: es') es) : Leaves (Locked.query l o >>= f) es := by
  intro q hq
  obtain ⟨q₁, q₂, h₁, h₂, rfl⟩ := bind_eq_some hq
  rcases o with - | - | a
  · cases h₁
  · cases h₁
    exact (SameHolds.acquire_release l).append (hnone rfl q₂ h₂)
  · cases h₁
    exact ((SameHolds.refl [.acquire l]).append (hsome a rfl q₂ h₂)).trans hsame

theorem Leaves.query {o : Option (Option α)} {f : Option α → Locked ι β} (hnone : Leaves (f none) es)
    (hsome : ∀ a, o = some (some a) → Leaves (f (some a)) (.release l :: es)) : Leaves (Locked.query l o >>= f) es :=
  .query_same (fun _ => hnone) hsome (.acquire_cons l es)

theorem Leaves.query_none {o : Option (Option α)} {f : Option α → Locked ι β} (ho : o = some none)
    (hf : Leaves (f none) es) : Leaves (Locked.query l o >>= f) es := by
  subst ho
  refine .query_same (fun _ => hf) (fun a ha => ?_) (.acquire_cons l es)
  cases ha

theorem Leaves.query_some {o : Option (Option α)} {f : Option α → Locked ι β} {a : α} (ho : o = some (some a))
    (hf : Leaves (f (some a)) es) : Leaves (Locked.query l o >>= f) (.acquire l :: es) := by
  refine .query_same (fun hnone => ?_) (fun b hb => ?_) (.refl _)
  · rw [ho] at hnone
    cases hnone
  · rw [ho] at hb
    cases hb
    exact hf

/-- A query whose lock is kept. -/
theorem Leaves.query_taken {o : Option (Option α)} {f : Option α → Locked ι β} (hnone : Leaves (f none) [.acquire l])
    (hsome : ∀ a, Leaves (f (some a)) []) : Leaves (Locked.query l o >>= f) [.acquire l] :=
  .query_same (fun _ => hnone) (fun a _ => hsome a) (.refl _)

theorem leaves_foldlM {γ : Type} {f : β → γ → Locked ι β} (h : ∀ b c, Leaves (f b c) []) :
    ∀ (cs : List γ) (b : β), Leaves (cs.foldlM f b) []
  | [], b => leaves_pure b
  | c :: cs, b => by
    rw [List.foldlM_cons]
    exact (h b c).then fun b => leaves_foldlM h cs b

end Leaves

end Locked

end BeehiveIm.Lib
