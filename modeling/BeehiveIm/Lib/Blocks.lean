/-
Blocks of bytes. A block has a number and its bytes have offsets; bytes are read and written as
lists, and words of four bytes are read in network order or in the order of a little-endian host.
-/
import Mathlib.Data.BitVec
import Mathlib.Data.List.Basic

namespace BeehiveIm.Lib

abbrev Byte := BitVec 8

/-- The bytes of every block, those not written yet included. -/
abbrev Blocks := Nat → Nat → Byte

namespace Blocks

def read (mem : Blocks) (b o n : Nat) : List Byte := (List.range n).map fun i => mem b (o + i)

def write (mem : Blocks) (b o : Nat) (l : List Byte) : Blocks := fun b' o' =>
  if b' = b ∧ o ≤ o' ∧ o' < o + l.length then l.getD (o' - o) 0 else mem b' o'

variable {mem : Blocks} {b o n : Nat} {l : List Byte}

@[simp] theorem length_read : (mem.read b o n).length = n := by simp [read]

@[simp] theorem read_zero : mem.read b o 0 = [] := rfl

theorem read_add (m : Nat) : mem.read b o (m + n) = mem.read b o m ++ mem.read b (o + m) n := by
  simp [read, List.range_add, List.map_map, Function.comp_def, Nat.add_assoc]

/-- A part of what is read. -/
theorem drop_take_read {i k : Nat} (h : i + k ≤ n) : ((mem.read b o n).drop i).take k = mem.read b (o + i) k := by
  obtain ⟨m, rfl⟩ := Nat.exists_eq_add_of_le h
  rw [Nat.add_assoc, read_add, List.drop_left' length_read, read_add, List.take_left' length_read]

theorem read_write : (mem.write b o l).read b o l.length = l := by
  refine List.ext_getElem (by simp) fun i h₁ h₂ => ?_
  simp [read, write, h₂]

theorem read_write_of_disjoint {b' o' : Nat} (h : b' ≠ b ∨ o' + n ≤ o ∨ o + l.length ≤ o') :
    (mem.write b o l).read b' o' n = mem.read b' o' n := by
  refine List.map_congr_left fun i hi => if_neg ?_
  have := List.mem_range.1 hi
  omega

/-- A write into the middle of what is read. -/
theorem read_write_within {j : Nat} (h : j + l.length ≤ n) :
    (mem.write b (o + j) l).read b o n =
      (mem.read b o n).take j ++ (l ++ (mem.read b o n).drop (j + l.length)) := by
  obtain ⟨m, rfl⟩ := Nat.exists_eq_add_of_le h
  have h₁ : (mem.read b o (j + l.length + m)).take j = mem.read b o j := by
    rw [Nat.add_assoc, read_add, List.take_left' length_read]
  have h₂ : (mem.read b o (j + l.length + m)).drop (j + l.length) = mem.read b (o + (j + l.length)) m := by
    rw [read_add, List.drop_left' length_read]
  rw [h₁, h₂, Nat.add_assoc, read_add, read_add, read_write_of_disjoint (.inr (.inl le_rfl)), read_write,
    read_write_of_disjoint (.inr (.inr le_rfl)), Nat.add_assoc o]

/-- What is read behind the bytes just written, and these bytes. -/
theorem read_write_append {m : Nat} (h : o = n + m) :
    (mem.write b o l).read b n (m + l.length) = mem.read b n m ++ l := by
  subst h
  rw [read_add, read_write, read_write_of_disjoint (.inr (.inl le_rfl))]

end Blocks

/-! ## Words -/

/-- A word in network order. -/
def beWord (l : List Byte) : BitVec 32 := l.foldl (fun w b => w <<< 8 ||| b.setWidth 32) 0

/-- A word as a little-endian host reads it. -/
def leWord (l : List Byte) : BitVec 32 := beWord l.reverse

def beBytes (w : BitVec 32) : List Byte :=
  [w.extractLsb' 24 8, w.extractLsb' 16 8, w.extractLsb' 8 8, w.extractLsb' 0 8]

@[simp] theorem length_beBytes (w : BitVec 32) : (beBytes w).length = 4 := rfl

@[simp] theorem beWord_beBytes (w : BitVec 32) : beWord (beBytes w) = w := by
  simp only [beWord, beBytes, List.foldl_cons, List.foldl_nil]
  ext i hi
  simp
  grind

theorem beBytes_beWord {l : List Byte} (h : l.length = 4) : beBytes (beWord l) = l := by
  match l, h with
  | [a, b, c, d], _ =>
    simp only [beWord, beBytes, List.foldl_cons, List.foldl_nil, List.cons.injEq, and_true]
    refine ⟨?_, ?_, ?_, ?_⟩ <;> ext i hi <;> simp <;> grind

theorem leWord_eq_zero {l : List Byte} (h : l.length = 4) : leWord l = 0 ↔ beWord l = 0 := by
  have key : ∀ k : List Byte, k.length = 4 → beWord k = 0 → beWord k.reverse = 0 := by
    intro k hk h0
    rw [← beBytes_beWord hk, h0]
    rfl
  exact ⟨fun h0 => by simpa using key l.reverse (by simpa using h) h0, key l h⟩

@[simp] theorem leWord_reverse (l : List Byte) : leWord l.reverse = beWord l := by simp [leWord]

end BeehiveIm.Lib
