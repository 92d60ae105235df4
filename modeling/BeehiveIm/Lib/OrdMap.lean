/-
The map that a sequence of insertions and deletions makes under a comparison callback, and the
sorted list that stores it. A search tree refines the list, the list refines the map.
-/
import BeehiveIm.Lib.Probe

namespace BeehiveIm.Lib

variable {α : Type}

/-- A call; `mem` is whether the allocator has memory for an insertion. -/
inductive MapOp (α : Type) where
  | insert (data : α) (mem : Bool)
  | delete (key : α)

/-- What each key holds. A second insertion under a key changes nothing. -/
def mapStep (cmp : α → α → Int) (m : α → Option α) : MapOp α → α → Option α
  | .insert d mem => fun k => if mem ∧ m d = none ∧ cmp k d = 0 then some d else m k
  | .delete d => fun k => if cmp k d = 0 then none else m k

def mapRun (cmp : α → α → Int) (ops : List (MapOp α)) : α → Option α := ops.foldl (mapStep cmp) fun _ => none

/-- The same on the list of the elements. -/
def listStep (cmp : α → α → Int) (l : List α) : MapOp α → List α
  | .insert d mem => if mem ∧ findBy (cmp d) l = none then insertBy (cmp d) d l else l
  | .delete d => eraseBy (cmp d) l

/-- A sorted list that answers every lookup as the map does. -/
structure Stores (cmp : α → α → Int) (l : List α) (m : α → Option α) : Prop where
  sorted : Sorted cmp l
  find : ∀ k, findBy (cmp k) l = m k

theorem stores_nil (cmp : α → α → Int) : Stores cmp [] fun _ => none := ⟨List.Pairwise.nil, fun _ => rfl⟩

variable {cmp : α → α → Int} {l : List α} {m : α → Option α}

theorem Stores.splits (h : Stores cmp l m) (hc : CmpOn cmp Set.univ) (k : α) : Splits (cmp k) l :=
  h.sorted.splits (hc.mono (Set.subset_univ _))

theorem Stores.step (hc : CmpOn cmp Set.univ) (h : Stores cmp l m) (op : MapOp α) :
    Stores cmp (listStep cmp l op) (mapStep cmp m op) := by
  obtain rfl : m = fun k => findBy (cmp k) l := (funext h.find).symm
  cases op with
  | insert d mem =>
    simp only [listStep, mapStep]
    by_cases hm : mem = true ∧ findBy (cmp d) l = none
    · rw [if_pos hm]
      refine ⟨h.sorted.insertBy (hc.mono (Set.subset_univ _)), fun k => ?_⟩
      rw [findBy_insertBy h.sorted (hc.mono (Set.subset_univ _)) hm.2]
      simp [hm]
    · rw [if_neg hm]
      refine ⟨h.sorted, fun k => ?_⟩
      simp only [not_and] at hm
      have hcond : ¬(mem = true ∧ findBy (cmp d) l = none ∧ cmp k d = 0) := fun h' => hm h'.1 h'.2.1
      simp [hcond]
  | delete d =>
    refine ⟨h.sorted.eraseBy _, fun k => ?_⟩
    exact findBy_eraseBy h.sorted (hc.mono (Set.subset_univ _))

end BeehiveIm.Lib
