/-
One section on any number of `seqsvr` instances, each with any number of goroutines. The row
of the section in IM_SEQ_GEN_TAB is shared; the map entry and the items belong to an
instance. The functions take a copy of the section list, lock included, so the lock of a
section orders nothing and only the lock of an item counts: the look-up in the map and the
write to it are steps of their own.

Who may hand out which sequence numbers. The ranges the database gives out tile the numbers from the
first one on. An item ends where some range of its instance ends, and lies in the ranges of its
instance as long as no `section_find` merges a range over one of another instance.
-/
import BeehiveIm.Lib.PtrTree
import BeehiveIm.Lib.Run
import Mathlib.Logic.Function.Basic
import Mathlib.Data.Fintype.Defs

namespace BeehiveIm.Seqsvr

open BeehiveIm.Lib

/-- `SectionItem`; `locked` is held by an `update_seq`. -/
structure SectionItem where
  min : Nat
  max : Nat
  locked : Bool := false

/-- What a call returned last. -/
inductive Ret where
  | nil
  | seqs (min max : Nat)
  | err

/-- Where a goroutine stands. `s` is the start of the range it has from the database, `p`
the item it looked up. -/
inductive Pc where
  | idle (last : Ret)
  /-- `section_add`: the look-up at `AGAIN` -/
  | add
  | addAlloc
  | addLook (s : Nat)
  | addPut (s : Nat)
  | addMerge (s : Nat) (p : Ptr)
  /-- `section_find`: the look-up -/
  | find
  | findAlloc
  | findLook (s : Nat)
  | findPut (s : Nat)
  | findMerge (s : Nat) (p : Ptr)
  /-- `item.RLock()` and the reads of `min` and `max` -/
  | findRead (p : Ptr)
  /-- `update_seq`: the look-up -/
  | update (seq : Nat)
  | updateLock (seq : Nat) (p : Ptr)
  /-- `item.max < seq` at `AGAIN` -/
  | updateTest (seq : Nat) (p : Ptr)
  | updateAlloc (seq : Nat) (p : Ptr)
  | updateMerge (seq s : Nat) (p : Ptr)

/-- An instance: `section.item[secid]`, the items it made and its goroutines. -/
structure SeqSvr (τ : Type) where
  item : Option Ptr
  heap : Ptr → SectionItem
  brk : Ptr
  pc : τ → Pc
  /-- The starts of the ranges it got from the database. -/
  given : List Nat

inductive Act where
  | add
  | find
  | update (seq : Nat)
  | go
  /-- The transaction with the database fails. -/
  | dbErr

/-- `alloc_seq_from_db` when no statement fails (a `seq` that leaves its column makes the UPDATE
fail): the start of the range, and what the row holds then. A row that is missing is inserted
with 100 and read again. -/
def allocSeqFromDb (row : Option Nat) : Nat × Option Nat :=
  let seq := row.getD 100
  (seq, some (seq + 1000))

section

variable {ι τ : Type} [DecidableEq ι] [DecidableEq τ]

namespace SeqSvr

def init (τ : Type) : SeqSvr τ := ⟨none, fun _ => ⟨0, 0, false⟩, 0, fun _ => .idle .nil, []⟩

def goto (S : SeqSvr τ) (t : τ) (pc : Pc) : SeqSvr τ := { S with pc := Function.update S.pc t pc }

/-- `section.item[secid] = &SectionItem{min: min, max: max}` -/
def put (S : SeqSvr τ) (s : Nat) : SeqSvr τ :=
  { S with item := some S.brk, heap := Function.update S.heap S.brk ⟨s, s + 1000, false⟩, brk := S.brk + 1 }

def store (S : SeqSvr τ) (p : Ptr) (item : SectionItem) : SeqSvr τ :=
  { S with heap := Function.update S.heap p item }

/-- How `section_add` brings a range into an item. -/
def addMerge (item : SectionItem) (s : Nat) : SectionItem :=
  if item.max < s + 1000 then
    { item with min := if s ≠ item.max then s else item.min, max := s + 1000 }
  else item

/-- How `section_find` does: 无需更新min值. -/
def findMerge (item : SectionItem) (s : Nat) : SectionItem :=
  if item.max < s + 1000 then { item with max := s + 1000 } else item

/-- How `update_seq` does. -/
def updateMerge (item : SectionItem) (s : Nat) : SectionItem :=
  if item.max < s + 1000 then { item with min := s, max := s + 1000 } else item

/-- The database gives the goroutine a range, with which it goes on. -/
def alloc (row : Option Nat) (S : SeqSvr τ) (t : τ) (next : Nat → Pc) : Option Nat × SeqSvr τ :=
  let (s, row') := allocSeqFromDb row
  (row', { S.goto t (next s) with given := S.given ++ [s] })

/-- The next step of a goroutine in a call; it waits for an item that is locked. -/
def go (row : Option Nat) (S : SeqSvr τ) (t : τ) : Option (Option Nat × SeqSvr τ) :=
  match S.pc t with
  | .idle _ => none
  | .add => some (row, S.goto t (if S.item.isSome then .idle .nil else .addAlloc))
  | .addAlloc => some (alloc row S t .addLook)
  | .addLook s =>
    match S.item with
    | none => some (row, S.goto t (.addPut s))
    | some p => some (row, S.goto t (.addMerge s p))
  | .addPut s => some (row, (S.put s).goto t .add)
  | .addMerge s p =>
    if (S.heap p).locked then none
    else some (row, (S.store p (addMerge (S.heap p) s)).goto t .add)
  | .find =>
    match S.item with
    | none => some (row, S.goto t .findAlloc)
    | some p => some (row, S.goto t (.findRead p))
  | .findAlloc => some (alloc row S t .findLook)
  | .findLook s =>
    match S.item with
    | none => some (row, S.goto t (.findPut s))
    | some p => some (row, S.goto t (.findMerge s p))
  | .findPut s => some (row, (S.put s).goto t (.idle (.seqs s (s + 1000))))
  | .findMerge s p =>
    if (S.heap p).locked then none
    else some (row, (S.store p (findMerge (S.heap p) s)).goto t (.idle (.seqs s (s + 1000))))
  | .findRead p =>
    if (S.heap p).locked then none
    else some (row, S.goto t (.idle (.seqs (S.heap p).min (S.heap p).max)))
  | .update seq =>
    match S.item with
    | none => some (row, S.goto t (.idle .err))
    | some p => some (row, S.goto t (.updateLock seq p))
  | .updateLock seq p =>
    if (S.heap p).locked then none
    else some (row, (S.store p { S.heap p with locked := true }).goto t (.updateTest seq p))
  | .updateTest seq p =>
    if (S.heap p).max < seq then some (row, S.goto t (.updateAlloc seq p))
    else some (row, (S.store p { S.heap p with locked := false }).goto t (.idle .nil))
  | .updateAlloc seq p => some (alloc row S t (.updateMerge seq · p))
  | .updateMerge seq s p =>
    some (row, (S.store p (updateMerge (S.heap p) s)).goto t (.updateTest seq p))

/-- A step of one goroutine of an instance. -/
def step (row : Option Nat) (S : SeqSvr τ) (t : τ) : Act → Option (Option Nat × SeqSvr τ)
  | .add => match S.pc t with
    | .idle _ => some (row, S.goto t .add)
    | _ => none
  | .find => match S.pc t with
    | .idle _ => some (row, S.goto t .find)
    | _ => none
  | .update seq => match S.pc t with
    | .idle _ => some (row, S.goto t (.update seq))
    | _ => none
  | .go => S.go row t
  | .dbErr => match S.pc t with
    | .addAlloc | .findAlloc => some (row, S.goto t (.idle .err))
    | .updateAlloc _ p => some (row, (S.store p { S.heap p with locked := false }).goto t (.idle .err))
    | _ => none

/-- The item the instance keeps for the section. -/
def kept (S : SeqSvr τ) : Option SectionItem := S.item.map S.heap

end SeqSvr

structure World (ι τ : Type) where
  /-- The `seq` of the section's row, if there is one. -/
  row : Option Nat
  svr : ι → SeqSvr τ

namespace World

def init (ι τ : Type) (row : Option Nat) : World ι τ := ⟨row, fun _ => SeqSvr.init τ⟩

/-- A step of goroutine `t` of instance `i`. -/
def step (W : World ι τ) : ι × τ × Act → Option (World ι τ)
  | (i, t, a) => ((W.svr i).step W.row t a).map fun (row, S) => ⟨row, Function.update W.svr i S⟩

/-- Where `section_find` merges into an item, no other instance was given a range in between. -/
def NoGap (W : World ι τ) (i : ι) (t : τ) : Prop :=
  match (W.svr i).pc t with
  | .findMerge s p => ∀ j ≠ i, ∀ r ∈ (W.svr j).given, ((W.svr i).heap p).max ≤ r → s ≤ r
  | _ => True

/-- A step that exists, and not a merge over a range of another instance. -/
def Allowed (W : World ι τ) (o : ι × τ × Act) : Prop := (W.step o).isSome ∧ W.NoGap o.1 o.2.1

instance [Fintype ι] (W : World ι τ) (i : ι) (t : τ) : Decidable (W.NoGap i t) := by
  unfold NoGap
  split <;> infer_instance

instance [Fintype ι] (W : World ι τ) (o : ι × τ × Act) : Decidable (W.Allowed o) :=
  inferInstanceAs (Decidable ((W.step o).isSome ∧ W.NoGap o.1 o.2.1))

end World

end

variable {ι τ : Type}

/-! ## The invariant -/

/-- `x` lies in one of the ranges that start at `given`. -/
def InRanges (given : List Nat) (x : Nat) : Prop := ∃ s ∈ given, s ≤ x ∧ x < s + 1000

/-- The item ends with a range of the instance, and holds nothing but ranges of the instance. -/
structure SectionItem.Own (item : SectionItem) (given : List Nat) : Prop where
  ends : ∃ s ∈ given, item.max = s + 1000
  within : ∀ x, item.min ≤ x → x < item.max → InRanges given x

/-- What a goroutine holds on to: a range of the instance, an item that exists. -/
def SeqSvr.At (S : SeqSvr τ) : Pc → Prop
  | .idle _ | .add | .addAlloc | .find | .findAlloc | .update _ => True
  | .addLook s | .addPut s | .findLook s | .findPut s => s ∈ S.given
  | .addMerge s p | .findMerge s p | .updateMerge _ s p => s ∈ S.given ∧ p < S.brk
  | .findRead p | .updateLock _ p | .updateTest _ p | .updateAlloc _ p => p < S.brk

structure SeqSvr.Own (S : SeqSvr τ) : Prop where
  item : ∀ p, S.item = some p → p < S.brk
  heap : ∀ p < S.brk, (S.heap p).Own S.given
  threads : ∀ t, S.At (S.pc t)

/-- The ranges given out so far, between `first` and `last`. -/
structure Tiled (given : ι → List Nat) (first last : Nat) : Prop where
  le : first ≤ last
  from_first : ∀ i, ∀ s ∈ given i, first ≤ s
  below : ∀ i, ∀ s ∈ given i, s + 1000 ≤ last
  apart : ∀ i j, ∀ s ∈ given i, ∀ r ∈ given j, s + 1000 ≤ r ∨ r + 1000 ≤ s ∨ s = r ∧ i = j
  covers : ∀ x, first ≤ x → x < last → ∃ i, InRanges (given i) x

structure World.Own (W : World ι τ) (first : Nat) : Prop where
  tiled : Tiled (fun i => (W.svr i).given) first (W.row.getD 100)
  svr : ∀ i, (W.svr i).Own

/-! ## Items -/

theorem InRanges.mono {given given' : List Nat} {x : Nat} (h : InRanges given x) (hsub : given ⊆ given') :
    InRanges given' x :=
  let ⟨s, hs, hx⟩ := h
  ⟨s, hsub hs, hx⟩

namespace SectionItem.Own

variable {item : SectionItem} {given given' : List Nat} {s : Nat}

theorem mono (h : item.Own given) (hsub : given ⊆ given') : item.Own given' :=
  ⟨let ⟨s, hs, hmax⟩ := h.ends; ⟨s, hsub hs, hmax⟩, fun x h1 h2 => (h.within x h1 h2).mono hsub⟩

/-- One range is an item of its own. -/
theorem range (hs : s ∈ given) (locked : Bool) : SectionItem.Own ⟨s, s + 1000, locked⟩ given :=
  ⟨⟨s, hs, rfl⟩, fun _ h1 h2 => ⟨s, hs, h1, h2⟩⟩

theorem relock (h : item.Own given) (locked : Bool) : SectionItem.Own { item with locked := locked } given :=
  ⟨h.ends, h.within⟩

/-- An item may grow up to the end of a range when what lies in between is of the instance too. -/
theorem grow (h : item.Own given) (hs : s ∈ given) (hgap : ∀ x, item.max ≤ x → x < s → InRanges given x) :
    SectionItem.Own { item with max := s + 1000 } given := by
  refine ⟨⟨s, hs, rfl⟩, fun x h1 h2 => ?_⟩
  rcases lt_or_ge x item.max with hlt | hge
  · exact h.within x h1 hlt
  · rcases lt_or_ge x s with hxs | hsx
    · exact hgap x hge hxs
    · exact ⟨s, hs, hsx, h2⟩

/-- `section_add` only keeps the old `min` when the new range follows the item. -/
theorem addMerge (h : item.Own given) (hs : s ∈ given) : (SeqSvr.addMerge item s).Own given := by
  unfold SeqSvr.addMerge
  split
  · rcases eq_or_ne s item.max with heq | hne
    · rw [if_neg (by simpa using heq)]
      exact h.grow hs fun x h1 h2 => absurd h2 (by omega)
    · rw [if_pos hne]
      exact range hs item.locked
  · exact h

theorem updateMerge (h : item.Own given) (hs : s ∈ given) : (SeqSvr.updateMerge item s).Own given := by
  unfold SeqSvr.updateMerge
  split
  · exact range hs item.locked
  · exact h

theorem findMerge (h : item.Own given) (hs : s ∈ given)
    (hgap : ∀ x, item.max ≤ x → x < s → InRanges given x) : (SeqSvr.findMerge item s).Own given := by
  unfold SeqSvr.findMerge
  split
  · exact h.grow hs hgap
  · exact h

end SectionItem.Own

/-! ## Instances -/

namespace SeqSvr

variable {S S' : SeqSvr τ} {t : τ} {pc : Pc} {p : Ptr} {item : SectionItem} {s : Nat}

theorem At.mono (h : S.At pc) (hbrk : S.brk ≤ S'.brk) (hsub : S.given ⊆ S'.given) : S'.At pc := by
  cases pc with
  | idle | add | addAlloc | find | findAlloc | update => trivial
  | addLook | addPut | findLook | findPut => exact hsub h
  | addMerge | findMerge | updateMerge => exact ⟨hsub h.1, h.2.trans_le hbrk⟩
  | findRead | updateLock | updateTest | updateAlloc => exact Nat.lt_of_lt_of_le h hbrk

theorem init_own : (init τ).Own :=
  ⟨fun _ h => (by simp [init] at h), fun _ h => absurd h (Nat.not_lt_zero _), fun _ => trivial⟩

theorem Own.goto [DecidableEq τ] (h : S.Own) (hpc : S.At pc) : (S.goto t pc).Own := by
  refine ⟨h.item, h.heap, fun u => ?_⟩
  rcases eq_or_ne u t with rfl | hne
  · rw [show (S.goto u pc).pc u = pc from Function.update_self ..]
    exact hpc.mono le_rfl (List.Subset.refl _)
  · rw [show (S.goto t pc).pc u = S.pc u from Function.update_of_ne hne ..]
    exact (h.threads u).mono le_rfl (List.Subset.refl _)

theorem Own.store (h : S.Own) (hitem : item.Own S.given) : (S.store p item).Own := by
  refine ⟨h.item, fun q hq => ?_, h.threads⟩
  rcases eq_or_ne q p with rfl | hne
  · simpa [SeqSvr.store] using hitem
  · simpa [SeqSvr.store, hne] using h.heap q hq

theorem Own.put (h : S.Own) (hs : s ∈ S.given) : (S.put s).Own := by
  refine ⟨fun q hq => ?_, fun q hq => ?_, fun u => (h.threads u).mono (Nat.le_succ _) (List.Subset.refl _)⟩
  · obtain rfl : S.brk = q := by simpa [SeqSvr.put] using hq
    exact Nat.lt_succ_self _
  · rcases eq_or_ne q S.brk with rfl | hne
    · simpa [SeqSvr.put] using SectionItem.Own.range hs false
    · simpa [SeqSvr.put, hne] using h.heap q (lt_of_le_of_ne (Nat.lt_succ_iff.mp hq) hne)

theorem Own.give (h : S.Own) (s : Nat) : SeqSvr.Own { S with given := S.given ++ [s] } :=
  ⟨h.item, fun q hq => (h.heap q hq).mono (List.subset_append_left _ _),
    fun u => (h.threads u).mono le_rfl (List.subset_append_left _ _)⟩

/-! ## Steps -/

section
variable [DecidableEq τ] {row row' : Option Nat}

/-- What a step does to the database and to the ranges of the instance. -/
inductive Draws (row row' : Option Nat) (given given' : List Nat) : Prop
  | keeps (hrow : row' = row) (hgiven : given' = given)
  | draws (hrow : row' = some (row.getD 100 + 1000)) (hgiven : given' = given ++ [row.getD 100])

/-- A goroutine that draws a range goes on with it. -/
theorem Own.alloc (h : S.Own) {next : Nat → Pc} (hstep : SeqSvr.alloc row S t next = (row', S'))
    (hnext : ∀ S'' : SeqSvr τ, S.brk = S''.brk → S''.given = S.given ++ [row.getD 100] → S''.At (next (row.getD 100))) :
    S'.Own ∧ Draws row row' S.given S'.given := by
  obtain ⟨rfl, rfl⟩ : some (row.getD 100 + 1000) = row' ∧
      ({ S with given := S.given ++ [row.getD 100] } : SeqSvr τ).goto t (next (row.getD 100)) = S' := by
    simpa [SeqSvr.alloc, allocSeqFromDb, SeqSvr.goto] using hstep
  exact ⟨(h.give _).goto (hnext _ rfl rfl), .draws rfl rfl⟩

omit [DecidableEq τ] in
theorem Own.stay {T : SeqSvr τ} (hstep : some (row, T) = some (row', S')) (h : T.Own)
    (hgiven : T.given = S.given) : S'.Own ∧ Draws row row' S.given S'.given := by
  cases hstep
  exact ⟨h, .keeps rfl hgiven⟩

/-- A step of a call keeps the instance to its ranges, given what `section_find` may merge over. -/
theorem Own.go (h : S.Own) (hstep : S.go row t = some (row', S'))
    (hgap : ∀ s p, S.pc t = .findMerge s p → ∀ x, (S.heap p).max ≤ x → x < s → InRanges S.given x) :
    S'.Own ∧ Draws row row' S.given S'.given := by
  have hat := h.threads t
  unfold SeqSvr.go at hstep
  cases hpc : S.pc t <;> rw [hpc] at hat <;> simp only [hpc] at hstep
  case idle => cases hstep
  case add => exact Own.stay hstep (h.goto (by split <;> trivial)) rfl
  case addAlloc => exact h.alloc (Option.some.inj hstep) fun S'' _ hg => by simp [At, hg]
  case addLook s =>
    cases hi : S.item with
    | none =>
      rw [hi] at hstep
      exact Own.stay hstep (h.goto hat) rfl
    | some p =>
      rw [hi] at hstep
      exact Own.stay hstep (h.goto ⟨hat, h.item p hi⟩) rfl
  case addPut s => exact Own.stay hstep ((h.put hat).goto trivial) rfl
  case addMerge s p =>
    obtain ⟨-, hstep⟩ := Option.ite_none_left_eq_some.mp hstep
    exact Own.stay hstep ((h.store ((h.heap p hat.2).addMerge hat.1)).goto trivial) rfl
  case find =>
    cases hi : S.item with
    | none =>
      rw [hi] at hstep
      exact Own.stay hstep (h.goto trivial) rfl
    | some p =>
      rw [hi] at hstep
      exact Own.stay hstep (h.goto (h.item p hi)) rfl
  case findAlloc => exact h.alloc (Option.some.inj hstep) fun S'' _ hg => by simp [At, hg]
  case findLook s =>
    cases hi : S.item with
    | none =>
      rw [hi] at hstep
      exact Own.stay hstep (h.goto hat) rfl
    | some p =>
      rw [hi] at hstep
      exact Own.stay hstep (h.goto ⟨hat, h.item p hi⟩) rfl
  case findPut s => exact Own.stay hstep ((h.put hat).goto trivial) rfl
  case findMerge s p =>
    obtain ⟨-, hstep⟩ := Option.ite_none_left_eq_some.mp hstep
    exact Own.stay hstep ((h.store ((h.heap p hat.2).findMerge hat.1 (hgap s p hpc))).goto trivial) rfl
  case findRead p =>
    obtain ⟨-, hstep⟩ := Option.ite_none_left_eq_some.mp hstep
    exact Own.stay hstep (h.goto trivial) rfl
  case update seq =>
    cases hi : S.item with
    | none =>
      rw [hi] at hstep
      exact Own.stay hstep (h.goto trivial) rfl
    | some p =>
      rw [hi] at hstep
      exact Own.stay hstep (h.goto (h.item p hi)) rfl
  case updateLock seq p =>
    obtain ⟨-, hstep⟩ := Option.ite_none_left_eq_some.mp hstep
    exact Own.stay hstep ((h.store ((h.heap p hat).relock true)).goto hat) rfl
  case updateTest seq p =>
    split at hstep
    · exact Own.stay hstep (h.goto hat) rfl
    · exact Own.stay hstep ((h.store ((h.heap p hat).relock false)).goto trivial) rfl
  case updateAlloc seq p =>
    exact h.alloc (Option.some.inj hstep) fun S'' hb hg => by simpa [At, hg, ← hb] using hat
  case updateMerge seq s p =>
    exact Own.stay hstep ((h.store ((h.heap p hat.2).updateMerge hat.1)).goto hat.2) rfl

/-- So does the start of a call, and a transaction that fails. -/
theorem Own.step {a : Act} (h : S.Own) (hstep : S.step row t a = some (row', S'))
    (hgap : ∀ s p, S.pc t = .findMerge s p → ∀ x, (S.heap p).max ≤ x → x < s → InRanges S.given x) :
    S'.Own ∧ Draws row row' S.given S'.given := by
  have hat := h.threads t
  cases a with
  | go => exact h.go hstep hgap
  | add =>
    simp only [SeqSvr.step] at hstep
    split at hstep
    · exact Own.stay hstep (h.goto trivial) rfl
    · cases hstep
  | find =>
    simp only [SeqSvr.step] at hstep
    split at hstep
    · exact Own.stay hstep (h.goto trivial) rfl
    · cases hstep
  | update seq =>
    simp only [SeqSvr.step] at hstep
    split at hstep
    · exact Own.stay hstep (h.goto trivial) rfl
    · cases hstep
  | dbErr =>
    simp only [SeqSvr.step] at hstep
    split at hstep
    · exact Own.stay hstep (h.goto trivial) rfl
    · exact Own.stay hstep (h.goto trivial) rfl
    · rename_i seq p hpc
      rw [hpc] at hat
      exact Own.stay hstep ((h.store ((h.heap p hat).relock false)).goto trivial) rfl
    · cases hstep

end

end SeqSvr

/-! ## The database -/

namespace Tiled

variable {given : ι → List Nat} {first last : Nat}

theorem init (first : Nat) : Tiled (fun _ : ι => []) first first where
  le := le_rfl
  from_first _ _ hs := absurd hs List.not_mem_nil
  below _ _ hs := absurd hs List.not_mem_nil
  apart _ _ _ hs := absurd hs List.not_mem_nil
  covers _ h1 h2 := absurd (h1.trans_lt h2) (lt_irrefl _)

/-- The next range goes to instance `i`. -/
theorem give [DecidableEq ι] (h : Tiled given first last) (i : ι) :
    Tiled (Function.update given i (given i ++ [last])) first (last + 1000) := by
  have hmem : ∀ j s, s ∈ Function.update given i (given i ++ [last]) j ↔ s ∈ given j ∨ s = last ∧ i = j := by
    intro j s
    rcases eq_or_ne j i with rfl | hne
    · simp
    · simp [hne, hne.symm]
  refine ⟨h.le.trans (Nat.le_add_right ..), fun j s hs => ?_, fun j s hs => ?_, fun j k s hs r hr => ?_,
    fun x h1 h2 => ?_⟩
  · rcases (hmem j s).mp hs with hs | ⟨rfl, -⟩
    · exact h.from_first j s hs
    · exact h.le
  · rcases (hmem j s).mp hs with hs | ⟨rfl, -⟩
    · exact (h.below j s hs).trans (Nat.le_add_right ..)
    · exact le_rfl
  · rcases (hmem j s).mp hs with hs' | ⟨hs', hj⟩ <;> rcases (hmem k r).mp hr with hr' | ⟨hr', hk⟩
    · exact h.apart j k s hs' r hr'
    · exact .inl (hr' ▸ h.below j s hs')
    · exact .inr (.inl (hs' ▸ h.below k r hr'))
    · exact .inr (.inr ⟨hs'.trans hr'.symm, hj.symm.trans hk⟩)
  · rcases lt_or_ge x last with hlt | hge
    · obtain ⟨j, s, hs, hx⟩ := h.covers x h1 hlt
      exact ⟨j, s, (hmem j s).mpr (.inl hs), hx⟩
    · exact ⟨i, last, (hmem i last).mpr (.inr ⟨rfl, rfl⟩), hge, h2⟩

/-- What lies between two ranges of an instance is its own when no range of another starts there. -/
theorem between (h : Tiled given first last) {i : ι} {r s : Nat} (hr : r ∈ given i) (hs : s ∈ given i)
    (hgap : ∀ j ≠ i, ∀ q ∈ given j, r + 1000 ≤ q → s ≤ q) {x : Nat} (h1 : r + 1000 ≤ x) (h2 : x < s) :
    InRanges (given i) x := by
  have hfirst := h.from_first i r hr
  have hlast := h.below i s hs
  obtain ⟨j, q, hq, hx⟩ := h.covers x (by omega) (by omega)
  rcases eq_or_ne j i with rfl | hne
  · exact ⟨q, hq, hx⟩
  · rcases h.apart j i q hq r hr with hle | hle | ⟨-, heq⟩
    · omega
    · have := hgap j hne q hq hle
      omega
    · exact absurd heq hne

/-- No number is in the ranges of two instances. -/
theorem one_owner (h : Tiled given first last) {i j : ι} {x : Nat} (hi : InRanges (given i) x)
    (hj : InRanges (given j) x) : i = j := by
  obtain ⟨s, hs, hsx⟩ := hi
  obtain ⟨r, hr, hrx⟩ := hj
  rcases h.apart i j s hs r hr with hle | hle | ⟨-, heq⟩
  · omega
  · omega
  · exact heq

end Tiled

/-! ## Runs -/

namespace World

variable [DecidableEq ι] [DecidableEq τ] {W W' : World ι τ} {first : Nat}

omit [DecidableEq ι] [DecidableEq τ] in
theorem init_own (row : Option Nat) : (init ι τ row).Own (row.getD 100) :=
  ⟨Tiled.init _, fun _ => SeqSvr.init_own⟩

theorem Own.step (h : W.Own first) {o : ι × τ × Act} (hstep : W.step o = some W') (hgap : W.NoGap o.1 o.2.1) :
    W'.Own first := by
  obtain ⟨i, t, a⟩ := o
  obtain ⟨⟨row', S'⟩, hS, rfl⟩ := Option.map_eq_some_iff.mp hstep
  have hmerge : ∀ s p, (W.svr i).pc t = .findMerge s p →
      ∀ x, ((W.svr i).heap p).max ≤ x → x < s → InRanges (W.svr i).given x := by
    intro s p hpc x h1 h2
    have hat := (h.svr i).threads t
    rw [hpc] at hat
    obtain ⟨r, hr, hmax⟩ := ((h.svr i).heap p hat.2).ends
    simp only [NoGap, hpc, hmax] at hgap
    exact h.tiled.between hr hat.1 hgap (hmax ▸ h1) h2
  obtain ⟨hown, hdraws⟩ := (h.svr i).step hS hmerge
  have hgiven : (fun j => (Function.update W.svr i S' j).given) =
      Function.update (fun j => (W.svr j).given) i S'.given := by
    funext j
    rcases eq_or_ne j i with rfl | hne
    · simp
    · simp [hne]
  refine ⟨?_, fun j => ?_⟩
  · simp only [hgiven]
    cases hdraws with
    | keeps hrow hsame => simpa [hrow, hsame] using h.tiled
    | draws hrow hnew =>
      rw [hrow, hnew]
      exact h.tiled.give i
  · rcases eq_or_ne j i with rfl | hne
    · simpa using hown
    · simpa [hne] using h.svr j

/-- What is asked of a state: items within the ranges of their instances, no number in two items. -/
structure Sound (W : World ι τ) : Prop where
  own : ∀ i item, (W.svr i).kept = some item →
    ∀ x, item.min ≤ x → x < item.max → InRanges (W.svr i).given x
  apart : ∀ i j item item', i ≠ j → (W.svr i).kept = some item → (W.svr j).kept = some item' →
    ∀ x, item.min ≤ x → x < item.max → ¬(item'.min ≤ x ∧ x < item'.max)

omit [DecidableEq ι] [DecidableEq τ] in
theorem Own.sound (h : W.Own first) : W.Sound := by
  have hown : ∀ i item, (W.svr i).kept = some item →
      ∀ x, item.min ≤ x → x < item.max → InRanges (W.svr i).given x := by
    intro i item hitem
    obtain ⟨p, hp, rfl⟩ := Option.map_eq_some_iff.mp hitem
    exact ((h.svr i).heap p ((h.svr i).item p hp)).within
  refine ⟨hown, fun i j item item' hne hi hj x h1 h2 hx => hne ?_⟩
  exact h.tiled.one_owner (hown i item hi x h1 h2) (hown j item' hj x hx.1 hx.2)

end World

/-- As long as `section_find` merges no range into an item over one of another instance, every
instance keeps to its own ranges. -/
theorem section_in_own_ranges [DecidableEq ι] [DecidableEq τ] (row : Option Nat) (ops : List (ι × τ × Act))
    (h : Guarded (fun W o => (World.step W o).getD W) World.Allowed (World.init ι τ row) ops) :
    ∃ W, ops.foldlM World.step (World.init ι τ row) = some W ∧ W.Sound := by
  obtain ⟨W, hrun, hW⟩ := run_invariant World.step World.Allowed (World.Own · (row.getD 100))
    (fun W o hW ho => by
      obtain ⟨W', hstep⟩ := Option.isSome_iff_exists.mp ho.1
      exact ⟨W', hstep, hW.step hstep ho.2⟩)
    ops _ (World.init_own row) h
  exact ⟨W, hrun, hW.sound⟩

/-- Two instances; one adds the section and asks for more, the other finds and adds it in
between. -/
theorem section_in_own_ranges_two :
    ∃ W, [(false, false, Act.add), (false, false, .go), (false, true, .find), (false, true, .go),
        (false, false, .go), (false, true, .go), (true, false, .add), (true, false, .go), (true, false, .go),
        (false, false, .go), (false, false, .go), (false, true, .go), (false, true, .go),
        (true, false, .go), (true, false, .go), (true, true, .update 3500), (true, true, .go), (true, true, .go),
        (true, true, .go), (true, true, .go), (true, true, .go), (true, true, .go)].foldlM World.step
      (World.init Bool Bool none) = some W ∧ W.Sound :=
  section_in_own_ranges none _ (by decide)

/-- Instance `false` sees no item in a `section_add` and in a `section_find`; between the ranges
these get lies the one of instance `true`, and the merge of `section_find` takes it in. -/
theorem section_find_swallows :
    ¬∀ (ops : List (Bool × Bool × Act)) (W : World Bool Bool),
      ops.foldlM World.step (World.init Bool Bool none) = some W → W.Sound := by
  intro h
  let ops : List (Bool × Bool × Act) := [(false, false, .add), (false, false, .go), (false, true, .find),
    (false, true, .go), (false, false, .go), (true, false, .add), (true, false, .go), (true, false, .go),
    (true, false, .go), (true, false, .go), (false, true, .go), (false, false, .go), (false, false, .go),
    (false, true, .go), (false, true, .go)]
  have hrun : (ops.foldlM World.step (World.init Bool Bool none)).isSome := by decide
  obtain ⟨W, hW⟩ := Option.isSome_iff_exists.mp hrun
  have hkept : (ops.foldlM World.step (World.init Bool Bool none)).map
      (fun W => ((W.svr false).kept.map fun m => (m.min, m.max), (W.svr true).kept.map fun m => (m.min, m.max))) =
      some (some (100, 3100), some (1100, 2100)) := by decide
  simp only [hW, Option.map_some, Option.some.injEq, Prod.mk.injEq, Option.map_eq_some_iff] at hkept
  obtain ⟨⟨item, hi, h1, h2⟩, ⟨item', hi', h3, h4⟩⟩ := hkept
  exact (h ops W hW).apart false true item item' (by decide) hi hi' 1100 (by omega) (by omega) ⟨by omega, by omega⟩

end BeehiveIm.Seqsvr
