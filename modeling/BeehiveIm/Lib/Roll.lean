/-
Who is where, kept from both sides: the places that each visitor lists, and the members that each
place has. The two sides are written by different operations, and some of them write only one.
-/
import Mathlib.Data.Set.Basic
import Mathlib.Tactic

namespace BeehiveIm.Lib

/-- The places of each visitor, and the members of each place. -/
@[ext] structure Roll (σ ρ : Type) where
  listed : σ → Set ρ
  members : ρ → Set σ

namespace Roll

variable {σ ρ : Type} {R R' : Roll σ ρ} {s : σ} {r : ρ}

inductive Op (σ ρ : Type) where
  | enter (s : σ) (r : ρ)
  /-- the visitor is a member of every place it lists -/
  | refresh (s : σ)
  /-- the visitor is out of every place it lists, and lists none -/
  | leave (s : σ)
  /-- the visitor is a member no more, and lists the place still -/
  | quit (s : σ) (r : ρ)
  /-- the place has no members, and is listed still -/
  | empty (r : ρ)
  /-- the place has no members, and is not listed by what is read of each of them -/
  | close (r : ρ)

/-- `read` is what becomes of a visitor that is read back. -/
def apply (read : σ → σ) (R : Roll σ ρ) : Op σ ρ → Roll σ ρ
  | .enter s r =>
    ⟨fun x => {p | p ∈ R.listed x ∨ x = s ∧ p = r}, fun p => {x | x ∈ R.members p ∨ x = s ∧ p = r}⟩
  | .refresh s => ⟨R.listed, fun p => {x | x ∈ R.members p ∨ x = s ∧ p ∈ R.listed s}⟩
  | .leave s =>
    ⟨fun x => {p | p ∈ R.listed x ∧ x ≠ s}, fun p => {x | x ∈ R.members p ∧ ¬(x = s ∧ p ∈ R.listed s)}⟩
  | .quit s r => ⟨R.listed, fun p => {x | x ∈ R.members p ∧ ¬(x = s ∧ p = r)}⟩
  | .empty r => ⟨R.listed, fun p => {x | x ∈ R.members p ∧ p ≠ r}⟩
  | .close r =>
    ⟨fun x => {p | p ∈ R.listed x ∧ ¬(p = r ∧ ∃ y ∈ R.members r, read y = x)}, fun p => {x | x ∈ R.members p ∧ p ≠ r}⟩

/-- Members list the places they are in. -/
def Covered (R : Roll σ ρ) : Prop := ∀ s r, s ∈ R.members r → r ∈ R.listed s

/-- The two sides agree. -/
def Exact (R : Roll σ ρ) : Prop := ∀ s r, s ∈ R.members r ↔ r ∈ R.listed s

theorem Exact.covered (h : R.Exact) : R.Covered := fun s r => (h s r).1

variable {read : σ → σ}

theorem Covered.apply (h : R.Covered) (op : Op σ ρ) : (R.apply read op).Covered := by
  intro x p hx
  cases op with
  | enter s r => exact hx.imp_left (h x p)
  | refresh s =>
    rcases hx with hx | ⟨rfl, hp⟩
    · exact h x p hx
    · exact hp
  | leave s =>
    refine ⟨h x p hx.1, ?_⟩
    rintro rfl
    exact hx.2 ⟨rfl, h x p hx.1⟩
  | quit s r => exact h x p hx.1
  | empty r => exact h x p hx.1
  | close r => exact ⟨h x p hx.1, fun hp => hx.2 hp.1⟩

theorem Covered.foldl (h : R.Covered) (ops : List (Op σ ρ)) : (ops.foldl (Roll.apply read) R).Covered := by
  induction ops generalizing R with
  | nil => exact h
  | cons op ops ih => exact ih (h.apply op)

/-- What is so of every place that is listed, and of those that are entered, stays so. -/
theorem listed_foldl (P : ρ → Prop) (h : ∀ s, ∀ r ∈ R.listed s, P r) (ops : List (Op σ ρ))
    (hops : ∀ op ∈ ops, ∀ s r, op = .enter s r → P r) : ∀ s, ∀ r ∈ (ops.foldl (Roll.apply read) R).listed s, P r := by
  induction ops generalizing R with
  | nil => exact h
  | cons op ops ih =>
    refine ih (fun x p hp => ?_) fun op' hop' => hops op' (.tail _ hop')
    cases op with
    | enter s r =>
      rcases hp with hp | ⟨-, rfl⟩
      · exact h x p hp
      · exact hops _ List.mem_cons_self s p rfl
    | refresh s => exact h x p hp
    | leave s => exact h x p hp.1
    | quit s r => exact h x p hp
    | empty r => exact h x p hp
    | close r => exact h x p hp.1

/-- Who leaves is nowhere, if it was nowhere without listing it. -/
theorem Covered.leave (h : R.Covered) (read : σ → σ) (s : σ) (r : ρ) :
    s ∉ (R.apply read (.leave s)).members r ∧ r ∉ (R.apply read (.leave s)).listed s :=
  ⟨fun hs => hs.2 ⟨rfl, h s r hs.1⟩, fun hr => hr.2 rfl⟩

/-- Who is refreshed is where it lists. -/
theorem Covered.refresh (h : R.Covered) (read : σ → σ) (s : σ) (r : ρ) :
    s ∈ (R.apply read (.refresh s)).members r ↔ r ∈ (R.apply read (.refresh s)).listed s := by
  constructor
  · rintro (hs | ⟨-, hr⟩)
    · exact h s r hs
    · exact hr
  · exact fun hr => .inr ⟨rfl, hr⟩

/-- The operations that do not write one side where the other is to change too. -/
def Balanced (read : σ → σ) (R : Roll σ ρ) : Op σ ρ → Prop
  | .quit s r => s ∉ R.members r
  | .empty r => ∀ s, s ∉ R.members r
  | .close r => ∀ s ∈ R.members r, ∃ y ∈ R.members r, read y = s
  | _ => True

theorem Exact.apply_iff (h : R.Exact) (op : Op σ ρ) : (R.apply read op).Exact ↔ R.Balanced read op := by
  cases op with
  | enter s r => exact iff_of_true (fun x p => or_congr_left (h x p)) trivial
  | refresh s =>
    refine iff_of_true (fun x p => ?_) trivial
    constructor
    · rintro (hx | ⟨rfl, hp⟩)
      · exact (h x p).1 hx
      · exact hp
    · exact fun hp => .inl ((h x p).2 hp)
  | leave s =>
    refine iff_of_true (fun x p => ?_) trivial
    constructor
    · exact (h.covered.apply (.leave s)) x p
    · rintro ⟨hp, hne⟩
      exact ⟨(h x p).2 hp, fun hx => hne hx.1⟩
  | quit s r =>
    constructor
    · intro hexact hs
      exact ((hexact s r).2 ((h s r).1 hs)).2 ⟨rfl, rfl⟩
    · intro hs x p
      refine ⟨fun hx => (h x p).1 hx.1, fun hp => ⟨(h x p).2 hp, ?_⟩⟩
      rintro ⟨rfl, rfl⟩
      exact hs ((h x p).2 hp)
  | empty r =>
    constructor
    · intro hexact s hs
      exact ((hexact s r).2 ((h s r).1 hs)).2 rfl
    · intro hs x p
      refine ⟨fun hx => (h x p).1 hx.1, fun hp => ⟨(h x p).2 hp, ?_⟩⟩
      rintro rfl
      exact hs x ((h x p).2 hp)
  | close r =>
    constructor
    · intro hexact s hs
      by_contra hnot
      exact ((hexact s r).2 ⟨(h s r).1 hs, fun hp => hnot hp.2⟩).2 rfl
    · intro hs x p
      constructor
      · exact fun hx => ⟨(h x p).1 hx.1, fun hp => hx.2 hp.1⟩
      · rintro ⟨hp, hnot⟩
        refine ⟨(h x p).2 hp, ?_⟩
        rintro rfl
        exact hnot ⟨rfl, hs x ((h x p).2 hp)⟩

/-- Every visitor is read back as it is. -/
def Plain (read : σ → σ) (R : Roll σ ρ) : Prop := ∀ s r, r ∈ R.listed s → read s = s

theorem Exact.balanced_close (h : R.Exact) (hplain : R.Plain read) (r : ρ) : R.Balanced read (.close r) :=
  fun s hs => ⟨s, hs, hplain s r ((h s r).1 hs)⟩

/-- Only a visitor that enters is new. -/
theorem Plain.apply (h : R.Plain read) (op : Op σ ρ) (hop : ∀ s r, op = .enter s r → read s = s) :
    (R.apply read op).Plain read := by
  intro x p hp
  cases op with
  | enter s r =>
    rcases hp with hp | ⟨rfl, -⟩
    · exact h x p hp
    · exact hop x r rfl
  | refresh s => exact h x p hp
  | leave s => exact h x p hp.1
  | quit s r => exact h x p hp
  | empty r => exact h x p hp
  | close r => exact h x p hp.1

/-- Closing places keeps both. -/
theorem Exact.closes (h : R.Exact) (hplain : R.Plain read) (ops : List (Op σ ρ))
    (hops : ∀ op ∈ ops, ∃ r, op = .close r) :
    (ops.foldl (Roll.apply read) R).Exact ∧ (ops.foldl (Roll.apply read) R).Plain read := by
  induction ops generalizing R with
  | nil => exact ⟨h, hplain⟩
  | cons op ops ih =>
    obtain ⟨r, rfl⟩ := hops op List.mem_cons_self
    have hexact := (h.apply_iff (.close r)).2 (h.balanced_close hplain r)
    refine ih hexact (hplain.apply _ fun s r' heq => ?_) fun op' hop' => hops op' (.tail _ hop')
    cases heq

end Roll

end BeehiveIm.Lib
