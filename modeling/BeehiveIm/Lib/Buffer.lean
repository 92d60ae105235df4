/-
Prints into a buffer: bytes written from a place on, which have to fit, and a cursor that each print
moves. A list of prints goes through just when each of them stays inside.
-/
import BeehiveIm.Lib.Blocks
import Mathlib.Algebra.Order.BigOperators.Group.List
import Mathlib.Tactic

namespace BeehiveIm.Lib

/-- The bytes written from `off` on; `none` when they do not fit. -/
def putAt (text : List Byte) (off : Nat) (s : List Byte) : Option (List Byte) :=
  if off + s.length ≤ text.length then some (text.take off ++ s ++ text.drop (off + s.length)) else none

/-- The bytes from `off` up to the next NUL; `none` when the buffer ends before. -/
def strlenAt (text : List Byte) (off : Nat) : Option Nat := (text.drop off).findIdx? (· = 0)

/-- What is written at the cursor, and how far the cursor moves. -/
structure Print where
  bytes : List Byte
  moves : Nat

namespace Print

/-- A print at the cursor. -/
def put (cur : List Byte × Nat) (p : Print) : Option (List Byte × Nat) :=
  (putAt cur.1 cur.2 p.bytes).map fun text => (text, cur.2 + p.moves)

/-- How far some prints move the cursor. -/
def moved (l : List Print) : Nat := (l.map (·.moves)).sum

/-- Each print from `off` on ends before `limit`. -/
def Stays (limit : Nat) : Nat → List Print → Prop
  | _, [] => True
  | off, p :: l => off + p.bytes.length ≤ limit ∧ Stays limit (off + p.moves) l

end Print

variable {text text' : List Byte} {off limit : Nat} {s : List Byte} {l l' : List Print} {p : Print}

theorem length_putAt (h : putAt text off s = some text') : text'.length = text.length := by
  unfold putAt at h
  split_ifs at h with hle
  cases h
  simp only [List.length_append, List.length_take, List.length_drop]
  omega

theorem putAt_isSome : (∃ text', putAt text off s = some text') ↔ off + s.length ≤ text.length := by
  unfold putAt
  split_ifs with h
  · exact iff_of_true ⟨_, rfl⟩ h
  · exact iff_of_false (fun ⟨_, h'⟩ => by cases h') h

/-- The length of a string that has just been written with its NUL. -/
theorem strlenAt_putAt (hs : 0 ∉ s) (h : putAt text off (s ++ [0]) = some text') :
    strlenAt text' off = some s.length := by
  unfold putAt at h
  split_ifs at h with hle
  cases h
  rw [List.length_append, List.length_singleton] at hle
  have hoff : (text.take off).length = off := List.length_take_of_le (by omega)
  rw [strlenAt, List.append_assoc, List.drop_left' hoff, List.append_assoc, List.findIdx?_append]
  have hnone : s.findIdx? (· = 0) = none := by
    rw [List.findIdx?_eq_none_iff]
    intro b hb
    rw [decide_eq_false_iff_not]
    rintro rfl
    exact hs hb
  rw [hnone]
  simp [List.findIdx?_cons]

namespace Print

@[simp] theorem moved_nil : moved [] = 0 := rfl

@[simp] theorem moved_cons : moved (p :: l) = p.moves + moved l := by simp [moved]

@[simp] theorem moved_append : moved (l ++ l') = moved l + moved l' := by simp [moved]

theorem stays_append : ∀ {l : List Print} {off : Nat}, Stays limit off (l ++ l') ↔
    Stays limit off l ∧ Stays limit (off + moved l) l'
  | [], off => by simp [Stays]
  | p :: l, off => by
    rw [List.cons_append, Stays, Stays, stays_append, moved_cons, and_assoc, Nat.add_assoc]

/-- Prints that all move the cursor as far, and write at most `m` bytes each. -/
theorem stays_of_le {k m : Nat} : ∀ {l : List Print} {off : Nat},
    (∀ p ∈ l, p.moves = k ∧ p.bytes.length ≤ m) → off + k * l.length + m ≤ limit + k → Stays limit off l
  | [], _, _, _ => trivial
  | p :: l, off, hp, h => by
    obtain ⟨hmoves, hlen⟩ := hp p (List.mem_cons_self ..)
    rw [List.length_cons, Nat.mul_succ] at h
    refine ⟨by omega, ?_⟩
    rw [hmoves]
    exact stays_of_le (fun p hp' => hp p (List.mem_cons_of_mem _ hp')) (by omega)

theorem moved_of_eq {k : Nat} : ∀ {l : List Print}, (∀ p ∈ l, p.moves = k) → moved l = k * l.length
  | [], _ => rfl
  | p :: l, h => by
    rw [moved_cons, List.length_cons, Nat.mul_succ, h p (List.mem_cons_self ..),
      moved_of_eq fun p hp => h p (List.mem_cons_of_mem _ hp), Nat.add_comm]

/-- The prints leave a buffer of the same length, with the cursor behind the last of them. -/
theorem foldlM_put_some : ∀ {l : List Print} {text : List Byte} {off : Nat} {r : List Byte × Nat},
    l.foldlM put (text, off) = some r → r.1.length = text.length ∧ r.2 = off + moved l
  | [], text, off, r, h => by cases h; simp
  | p :: l, text, off, r, h => by
    rw [List.foldlM_cons, put, Option.bind_eq_bind, Option.bind_eq_some_iff] at h
    obtain ⟨cur, hput, h⟩ := h
    obtain ⟨text', hputAt, rfl⟩ := Option.map_eq_some_iff.1 hput
    obtain ⟨hlen, hoff⟩ := foldlM_put_some h
    rw [hlen, hoff, length_putAt hputAt, moved_cons, Nat.add_assoc]
    exact ⟨rfl, rfl⟩

/-- The prints go through just when each of them stays inside. -/
theorem foldlM_put_iff : ∀ {l : List Print} {text : List Byte} {off : Nat},
    (∃ r, l.foldlM put (text, off) = some r) ↔ Stays text.length off l
  | [], text, off => iff_of_true ⟨_, rfl⟩ trivial
  | p :: l, text, off => by
    rw [Stays, ← putAt_isSome]
    constructor
    · rintro ⟨r, h⟩
      rw [List.foldlM_cons, put, Option.bind_eq_bind, Option.bind_eq_some_iff] at h
      obtain ⟨cur, hput, h⟩ := h
      obtain ⟨text', hputAt, rfl⟩ := Option.map_eq_some_iff.1 hput
      refine ⟨⟨text', hputAt⟩, ?_⟩
      rw [← length_putAt hputAt]
      exact foldlM_put_iff.1 ⟨r, h⟩
    · rintro ⟨⟨text', hputAt⟩, hstays⟩
      rw [← length_putAt hputAt] at hstays
      obtain ⟨r, hr⟩ := foldlM_put_iff.2 hstays
      exact ⟨r, by rw [List.foldlM_cons, put, hputAt]; exact hr⟩

end Print

end BeehiveIm.Lib
