/-
The growing array (`vector.c`). A full array is not grown: `realloc` is given the number of
entries where it wants bytes, so that the array that comes back is shorter than what it
holds; that is a fault here.

When it is full, `vector_append` asks `realloc` for a number of bytes, and the block it gets is
moved, grown in place or refused. An access behind the block, or through a null pointer, is a fault.
-/
import BeehiveIm.Lib.Run
import Mathlib.Data.BitVec
import Mathlib.Data.List.Perm.Basic

namespace BeehiveIm.Core

open BeehiveIm.Lib

/-- `vector_t` -/
structure Vec (α : Type) where
  cap : Nat
  incr : Nat
  arr : List α

namespace Vec

variable {α : Type}

def vectorCreat (α : Type) (cap incr : Nat) : Vec α := ⟨cap, incr, []⟩

def vectorAppend (vec : Vec α) (addr : α) : Option (Vec α) :=
  if vec.arr.length = vec.cap then none else some { vec with arr := vec.arr ++ [addr] }

def vectorGet (vec : Vec α) (idx : Nat) : Option α := vec.arr[idx]?

def vectorFind (vec : Vec α) (find : α → Bool) : Option α := vec.arr.find? find

/-- The array without the first entry found: the last one takes its place. -/
def delFirst (find : α → Bool) : List α → Option (List α)
  | [] => none
  | a :: l => if find a then some (l.getLast?.toList ++ l.dropLast) else (delFirst find l).map (a :: ·)

/-- `vector_find_and_del` -/
def vectorFindAndDel (vec : Vec α) (find : α → Bool) : Option (Vec α) :=
  (delFirst find vec.arr).map fun arr => { vec with arr := arr }

theorem delFirst_eq_none {find : α → Bool} : ∀ {l : List α}, delFirst find l = none ↔ ∀ x ∈ l, find x = false
  | [] => by simp [delFirst]
  | a :: l => by
    rw [delFirst]
    by_cases ha : find a = true
    · simp [ha]
    · simp [ha, delFirst_eq_none (l := l)]

theorem getLast_perm (l : List α) : (l.getLast?.toList ++ l.dropLast).Perm l := by
  cases h : l.getLast? with
  | none => rw [List.getLast?_eq_none_iff.1 h]; exact .refl _
  | some x =>
    obtain ⟨l, rfl⟩ := List.getLast?_eq_some_iff.1 h
    simpa using (List.perm_append_singleton x l).symm

/-- One entry that was found is gone. -/
theorem delFirst_perm {find : α → Bool} : ∀ {l l' : List α}, delFirst find l = some l' →
    ∃ x, find x = true ∧ l.Perm (x :: l')
  | [], _, h => by cases h
  | a :: l, l', h => by
    rw [delFirst] at h
    by_cases ha : find a = true
    · rw [if_pos ha] at h
      cases h
      exact ⟨a, ha, (getLast_perm l).symm.cons a⟩
    · rw [if_neg ha] at h
      obtain ⟨l₁, hl₁, rfl⟩ := Option.map_eq_some_iff.1 h
      obtain ⟨x, hx, hp⟩ := delFirst_perm hl₁
      exact ⟨x, hx, (hp.cons a).trans (.swap x a l₁)⟩

end Vec

/-! ## An array that is full -/

/-- `vector_t`, with the number of pointers its block has room for. -/
structure VectorT (α : Type) where
  incr : BitVec 32
  cap : BitVec 32
  arr : List α
  slots : Nat

/-- What `realloc` returns: another block, the same one, or none. -/
inductive Realloc where
  | moved
  | inPlace
  | failed
  deriving DecidableEq

namespace VectorT

variable {α : Type}

/-- `vector_creat`; there is no block of a negative size. -/
def vectorCreat (α : Type) (cap incr : BitVec 32) : Option (VectorT α) :=
  if cap.toInt < 0 then none else some ⟨incr, cap, [], cap.toNat⟩

/-- The pointers that the block of the next size has room for: the size counts bytes. -/
def regrown (vec : VectorT α) : Nat := ((vec.cap + vec.incr).signExtend 64).toNat / 8

example : (VectorT.mk 128#32 512#32 ([] : List Nat) 512).regrown = 80 := by decide

/-- `vec->arr[vec->len] = addr` -/
def store (vec : VectorT α) (addr : α) : Option (Int × VectorT α) :=
  if vec.arr.length < vec.slots then some (0, { vec with arr := vec.arr ++ [addr] }) else none

/-- `vector_append`, where `realloc` would return `r`. -/
def vectorAppend (vec : VectorT α) (addr : α) (r : Realloc) : Option (Int × VectorT α) :=
  if (vec.arr.length : Int) = vec.cap.toInt then
    match r with
    -- the same pointer is taken for a failure
    | .inPlace => some (-1, { vec with slots := vec.regrown })
    | .moved => store { vec with cap := vec.cap + vec.incr, slots := vec.regrown } addr
    | .failed => none
  else store vec addr

/-- The last entry takes the place of the one at `i`. -/
def delAt (vec : VectorT α) (i : Nat) : Option (Option α × VectorT α) :=
  if vec.slots < vec.arr.length then none
  else
    match vec.arr.getLast? with
    | none => none
    | some last => some (vec.arr[i]?, { vec with arr := (vec.arr.set i last).dropLast })

/-- `vector_find_and_del` -/
def vectorFindAndDel (vec : VectorT α) (find : α → Bool) : Option (Option α × VectorT α) :=
  match vec.arr.findIdx? find with
  | none => if vec.slots < vec.arr.length then none else some (none, vec)
  | some i => vec.delAt i

/-- `vector_del_by_idx` -/
def vectorDelByIdx (vec : VectorT α) (idx : Int) : Option (Option α × VectorT α) :=
  if idx < 0 ∨ vec.arr.length ≤ idx then some (none, vec) else vec.delAt idx.toNat

/-- The calls. -/
inductive Op (α : Type) where
  | append (addr : α) (r : Realloc)
  | findAndDel (find : α → Bool)
  | delByIdx (idx : Int)

def step (vec : VectorT α) : Op α → Option (VectorT α)
  | .append addr r => (vec.vectorAppend addr r).map Prod.snd
  | .findAndDel find => (vec.vectorFindAndDel find).map Prod.snd
  | .delByIdx idx => (vec.vectorDelByIdx idx).map Prod.snd

/-- Whether the call asks for memory, and is refused. -/
def Refused (vec : VectorT α) (r : Realloc) : Prop := (vec.arr.length : Int) = vec.cap.toInt ∧ r = .failed

/-- An append that gets the memory it asks for succeeds, puts its entry behind the others and
changes none of them; and there is room for every entry after each call. -/
def Ok (vec : VectorT α) : Op α → Prop
  | .append addr r => vec.Refused r ∨
    ∃ vec', vec.vectorAppend addr r = some (0, vec') ∧ vec'.arr = vec.arr ++ [addr] ∧ vec'.arr.length ≤ vec'.slots
  | .findAndDel find => ∃ a vec', vec.vectorFindAndDel find = some (a, vec') ∧ vec'.arr.length ≤ vec'.slots
  | .delByIdx idx => ∃ a vec', vec.vectorDelByIdx idx = some (a, vec') ∧ vec'.arr.length ≤ vec'.slots

/-- A full array's block is moved to one whose bytes are enough, and another array has a
free place in its own. -/
def Fits (vec : VectorT α) : Op α → Prop
  | .append _ r =>
    if (vec.arr.length : Int) = vec.cap.toInt then r = .failed ∨ r = .moved ∧ vec.arr.length < vec.regrown
    else vec.arr.length < vec.slots
  | _ => vec.arr.length ≤ vec.slots

/-! ## One call -/

variable {vec vec' : VectorT α} {addr : α} {r : Realloc} {a : Option α} {i : Nat}

theorem store_ok (vec : VectorT α) (addr : α) :
    (∃ vec', vec.store addr = some (0, vec') ∧ vec'.arr = vec.arr ++ [addr] ∧ vec'.arr.length ≤ vec'.slots) ↔
    vec.arr.length < vec.slots := by
  unfold store
  split
  · rename_i h
    exact iff_of_true ⟨_, rfl, rfl, by simpa [Nat.succ_le_iff] using h⟩ h
  · rename_i h
    refine iff_of_false ?_ h
    rintro ⟨_, he, -⟩
    cases he

theorem append_ok : vec.Ok (.append addr r) ↔ vec.Fits (.append addr r) := by
  unfold Ok Fits Refused vectorAppend
  by_cases hfull : (vec.arr.length : Int) = vec.cap.toInt
  · simp only [hfull, true_and, if_true]
    refine or_congr_right' fun hr => ?_
    cases r with
    | failed => exact absurd rfl hr
    | inPlace =>
      constructor
      · rintro ⟨_, he, -⟩
        cases he
      · rintro ⟨he, -⟩
        cases he
    | moved =>
      have := store_ok { vec with cap := vec.cap + vec.incr, slots := vec.regrown } addr
      simpa using this
  · simp only [hfull, false_and, false_or, if_false]
    exact store_ok vec addr

/-- A deletion wants all the entries in the block. -/
theorem delAt_ok (hi : i < vec.arr.length) : (∃ a vec', vec.delAt i = some (a, vec') ∧ vec'.arr.length ≤ vec'.slots) ↔
    vec.arr.length ≤ vec.slots := by
  unfold delAt
  split
  · rename_i h
    refine iff_of_false ?_ (by omega)
    rintro ⟨_, _, he, -⟩
    cases he
  · rename_i h
    refine iff_of_true ?_ (by omega)
    cases hlast : vec.arr.getLast? with
    | none =>
      rw [List.getLast?_eq_none_iff.1 hlast] at hi
      exact absurd hi (Nat.not_lt_zero _)
    | some last => exact ⟨_, _, rfl, by simp; omega⟩

theorem findAndDel_ok {find : α → Bool} :
    (∃ a vec', vec.vectorFindAndDel find = some (a, vec') ∧ vec'.arr.length ≤ vec'.slots) ↔
    vec.arr.length ≤ vec.slots := by
  unfold vectorFindAndDel
  cases hidx : vec.arr.findIdx? find with
  | none =>
    simp only []
    split
    · rename_i h
      refine iff_of_false ?_ (by omega)
      rintro ⟨_, _, he, -⟩
      cases he
    · rename_i h
      exact iff_of_true ⟨none, vec, rfl, by omega⟩ (by omega)
  | some i => exact delAt_ok (List.findIdx?_eq_some_iff_getElem.1 hidx).1

theorem delByIdx_ok {idx : Int} : (∃ a vec', vec.vectorDelByIdx idx = some (a, vec') ∧ vec'.arr.length ≤ vec'.slots) ↔
    vec.arr.length ≤ vec.slots := by
  unfold vectorDelByIdx
  split
  · constructor
    · rintro ⟨a, vec', he, hle⟩
      cases he
      exact hle
    · exact fun h => ⟨none, vec, rfl, h⟩
  · rename_i h
    exact delAt_ok (by omega)

theorem ok_iff_fits (vec : VectorT α) : ∀ op : Op α, vec.Ok op ↔ vec.Fits op
  | .append _ _ => append_ok
  | .findAndDel _ => findAndDel_ok
  | .delByIdx _ => delByIdx_ok

/-- In a run every call does as it should just if every call finds a vector that it fits. -/
theorem vector_run_iff (vec : VectorT α) (ops : List (Op α)) : Along step Ok vec ops ↔ Along step Fits vec ops :=
  along_congr ok_iff_fits ops vec

/-- The second entry of a vector with room for one: the block is grown in place, and the entry
refused. -/
theorem append_in_place : ¬∀ (cap incr : BitVec 32) (vec : VectorT Nat), vectorCreat Nat cap incr = some vec →
    ∀ ops : List (Op Nat), Along step Ok vec ops := by
  intro h
  have hrun := (along_congr ok_iff_fits _ _).1 (h 1 1 _ rfl [.append 7 .moved, .append 8 .inPlace])
  have hfits := (hrun.2 ⟨1, 1, [7], 1⟩ rfl).1
  revert hfits
  simp [Fits]

/-! ## Below the capacity -/

/-- The vector as it is while nothing grows. -/
def toVec (vec : VectorT α) : Vec α := ⟨vec.cap.toNat, vec.incr.toNat, vec.arr⟩

theorem delFirst_eq {find : α → Bool} : ∀ l : List α, Vec.delFirst find l =
    (l.findIdx? find).bind fun i => l.getLast?.map fun last => (l.set i last).dropLast
  | [] => rfl
  | x :: l => by
    rw [Vec.delFirst, List.findIdx?_cons]
    by_cases hx : find x = true
    · rw [if_pos hx, if_pos hx]
      cases hlast : l.getLast? with
      | none =>
        rw [List.getLast?_eq_none_iff.1 hlast]
        rfl
      | some last =>
        have hne : l ≠ [] := by
          rintro rfl
          cases hlast
        simp [List.getLast?_cons, hlast, List.dropLast_cons_of_ne_nil hne]
    · rw [if_neg hx, if_neg hx, delFirst_eq l]
      cases hidx : l.findIdx? find with
      | none => rfl
      | some i =>
        have hi : i < l.length := (List.findIdx?_eq_some_iff_getElem.1 hidx).1
        have hne : l ≠ [] := List.ne_nil_of_length_pos (by omega)
        obtain ⟨last, hlast⟩ := Option.isSome_iff_exists.1 (List.getLast?_isSome.2 hne)
        have hne' : l.set i last ≠ [] := fun h => hne (by simpa using h)
        simp [List.getLast?_cons, hlast, List.dropLast_cons_of_ne_nil hne']

/-- An append to a vector that is not full. -/
theorem append_toVec (hlen : (vec.arr.length : Int) < vec.cap.toInt) (hslots : vec.cap.toNat ≤ vec.slots) :
    ∃ vec', vec.vectorAppend addr r = some (0, vec') ∧ vec.toVec.vectorAppend addr = some vec'.toVec := by
  have hcap : vec.cap.toInt = vec.cap.toNat := by
    refine BitVec.toInt_eq_toNat_of_lt ?_
    have := BitVec.toInt_eq_toNat_cond vec.cap
    split at this
    · assumption
    · have := vec.cap.isLt
      omega
  have hroom : vec.arr.length < vec.slots := by omega
  refine ⟨_, (if_neg hlen.ne).trans (if_pos hroom), if_neg ?_⟩
  change vec.arr.length ≠ vec.cap.toNat
  omega

/-- A deletion from a vector whose entries are all in its block. -/
theorem findAndDel_toVec (find : α → Bool) (hslots : vec.arr.length ≤ vec.slots) :
    ∃ a vec', vec.vectorFindAndDel find = some (a, vec') ∧
    (vec.toVec.vectorFindAndDel find).getD vec.toVec = vec'.toVec := by
  unfold vectorFindAndDel Vec.vectorFindAndDel
  change ∃ a vec', _ ∧ (Option.map _ (Vec.delFirst find vec.arr)).getD _ = _
  rw [delFirst_eq]
  cases hidx : vec.arr.findIdx? find with
  | none => exact ⟨none, vec, if_neg (by omega), rfl⟩
  | some i =>
    have hi : i < vec.arr.length := (List.findIdx?_eq_some_iff_getElem.1 hidx).1
    obtain ⟨last, hlast⟩ := Option.isSome_iff_exists.1
      (List.getLast?_isSome.2 (List.ne_nil_of_length_pos (by omega : 0 < vec.arr.length)))
    refine ⟨vec.arr[i]?, { vec with arr := (vec.arr.set i last).dropLast }, ?_, ?_⟩
    · change vec.delAt i = _
      rw [delAt, if_neg (by omega), hlast]
    · rw [hlast]
      rfl

end VectorT

end BeehiveIm.Core
