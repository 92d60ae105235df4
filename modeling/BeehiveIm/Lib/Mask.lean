/-
Texts masked with a stream of bytes. Masks commute and undo themselves, so a change of a masked
text is the same change of the text. A text may be spread over twice its length, each byte next to
a byte of noise that masks it.
-/
import BeehiveIm.Lib.Blocks
import Mathlib.Data.List.Basic

namespace BeehiveIm.Lib

/-- Each byte with the stream's byte at its place. -/
def mask (key : Nat → Byte) (l : List Byte) : List Byte := l.mapIdx fun i b => b ^^^ key i

/-- Each byte behind a byte of noise, and masked with it. -/
def spread (noise : Nat → Byte) (l : List Byte) : List Byte := (l.mapIdx fun i b => [noise i, b ^^^ noise i]).flatten

/-- Pairs of bytes in one; `none` if there is a byte over. -/
def unspread : List Byte → Option (List Byte)
  | [] => some []
  | [_] => none
  | a :: b :: l => (unspread l).map ((a ^^^ b) :: ·)

variable {key key' noise : Nat → Byte} {l m : List Byte}

@[simp] theorem length_mask : (mask key l).length = l.length := List.length_mapIdx

@[simp] theorem getElem?_mask (i : Nat) : (mask key l)[i]? = l[i]?.map (· ^^^ key i) := List.getElem?_mapIdx

theorem mask_cons (b : Byte) : mask key (b :: l) = (b ^^^ key 0) :: mask (fun i => key (i + 1)) l := List.mapIdx_cons

theorem spread_cons (b : Byte) : spread noise (b :: l) = noise 0 :: (b ^^^ noise 0) :: spread
    (fun i => noise (i + 1)) l := by
  rw [spread, List.mapIdx_cons]
  rfl

/-- A mask undoes itself. -/
@[simp] theorem mask_mask : mask key (mask key l) = l := by
  refine List.ext_getElem? fun i => ?_
  cases hi : l[i]? with
  | none => simp [hi]
  | some b =>
    simp only [getElem?_mask, hi, Option.map_some]
    rw [BitVec.xor_assoc, BitVec.xor_self, BitVec.xor_zero]

theorem mask_comm : mask key (mask key' l) = mask key' (mask key l) := by
  refine List.ext_getElem? fun i => ?_
  cases hi : l[i]? with
  | none => simp [hi]
  | some b =>
    simp only [getElem?_mask, hi, Option.map_some]
    rw [BitVec.xor_assoc, BitVec.xor_comm (key' i), ← BitVec.xor_assoc]

@[simp] theorem mask_zero : mask (fun _ => 0#8) l = l := by
  refine List.ext_getElem? fun i => ?_
  cases hi : l[i]? <;> simp [hi]

/-- The stream that makes `m` of `l` and leaves what is behind it. -/
def turn (l m : List Byte) (i : Nat) : Byte := if i < l.length then l.getD i 0 ^^^ m.getD i 0 else 0#8

theorem mask_turn (hlen : l.length = m.length) (rest : List Byte) : mask (turn l m) (l ++ rest) = m ++ rest := by
  refine List.ext_getElem? fun i => ?_
  rw [getElem?_mask, turn]
  by_cases hi : i < l.length
  · have hm : i < m.length := hlen ▸ hi
    rw [if_pos hi, List.getElem?_append_left hi, List.getElem?_append_left hm, List.getD_eq_getElem?_getD,
      List.getD_eq_getElem?_getD, List.getElem?_eq_getElem hi, List.getElem?_eq_getElem hm, Option.map_some,
      Option.getD_some, Option.getD_some, ← BitVec.xor_assoc,
      BitVec.xor_self, BitVec.zero_xor]
  · have hm : ¬i < m.length := hlen ▸ hi
    rw [if_neg hi, List.getElem?_append_right (by omega), List.getElem?_append_right (by omega), hlen]
    simp

/-- The stream on the masked bytes of a spread text. -/
def onOdd (key : Nat → Byte) (i : Nat) : Byte := if i % 2 = 1 then key (i / 2) else 0#8

/-- A change of the masked bytes is a change of the text. -/
theorem unspread_mask : ∀ (l : List Byte) (key noise : Nat → Byte),
    unspread (mask (onOdd key) (spread noise l)) = some (mask key l)
  | [], _, _ => rfl
  | b :: l, key, noise => by
    have hshift : (fun i => onOdd key (i + 1 + 1)) = onOdd fun i => key (i + 1) := by
      funext i
      simp only [onOdd]
      have h₁ : (i + 1 + 1) % 2 = i % 2 := by omega
      have h₂ : (i + 1 + 1) / 2 = i / 2 + 1 := by omega
      rw [h₁, h₂]
    have hpair : (noise 0 ^^^ 0#8) ^^^ ((b ^^^ noise 0) ^^^ key 0) = b ^^^ key 0 := by
      rw [BitVec.xor_zero, ← BitVec.xor_assoc, BitVec.xor_comm b, ← BitVec.xor_assoc, BitVec.xor_self, BitVec.zero_xor]
    rw [spread_cons, mask_cons, mask_cons, unspread, hshift, unspread_mask l, mask_cons, ← hpair]
    rfl

theorem length_of_unspread : ∀ {l m : List Byte}, unspread l = some m → l.length = 2 * m.length
  | [], _, h => by
    cases h
    rfl
  | [_], _, h => by cases h
  | a :: b :: l, _, h => by
    obtain ⟨m, hm, rfl⟩ := Option.map_eq_some_iff.1 h
    have := length_of_unspread hm
    simp only [List.length_cons]
    omega

theorem unspread_isSome_iff : ∀ {l : List Byte}, (unspread l).isSome ↔ l.length % 2 = 0
  | [] => by simp [unspread]
  | [_] => by simp [unspread]
  | a :: b :: l => by
    rw [unspread, Option.isSome_map, unspread_isSome_iff, List.length_cons, List.length_cons]
    omega

end BeehiveIm.Lib
