/-
Base 64 with padding: three bytes in four letters, the last one or two in four with padding at the
end. A text is read without its line ends; the bits that are over at its end are not looked at.
-/
import BeehiveIm.Lib.Blocks

namespace BeehiveIm.Lib.Base64

/-! ## Letters -/

def letter (v : BitVec 6) : Byte :=
  if v.toNat < 26 then BitVec.ofNat 8 (65 + v.toNat)
  else if v.toNat < 52 then BitVec.ofNat 8 (97 + (v.toNat - 26))
  else if v.toNat < 62 then BitVec.ofNat 8 (48 + (v.toNat - 52))
  else if v.toNat = 62 then 43#8
  else 47#8

def value (b : Byte) : Option (BitVec 6) :=
  if 65#8 ≤ b ∧ b ≤ 90#8 then some (BitVec.ofNat 6 (b.toNat - 65))
  else if 97#8 ≤ b ∧ b ≤ 122#8 then some (BitVec.ofNat 6 (b.toNat - 97 + 26))
  else if 48#8 ≤ b ∧ b ≤ 57#8 then some (BitVec.ofNat 6 (b.toNat - 48 + 52))
  else if b = 43#8 then some 62
  else if b = 47#8 then some 63
  else none

@[simp] theorem value_letter : ∀ v : BitVec 6, value (letter v) = some v := by decide

theorem letter_ne_newline : ∀ v : BitVec 6, letter v ≠ 10#8 ∧ letter v ≠ 13#8 := by decide

theorem letter_ne_pad : ∀ v : BitVec 6, letter v ≠ 61#8 := by decide

/-! ## Texts -/

/-- The `i`-th letter of three bytes. -/
def part (w : BitVec 24) (i : Nat) : Byte := letter (w.extractLsb' (18 - 6 * i) 6)

def encode : List Byte → List Byte
  | [] => []
  | [a] =>
    let w : BitVec 24 := a ++ 0#16
    [part w 0, part w 1, 61#8, 61#8]
  | [a, b] =>
    let w : BitVec 24 := a ++ b ++ 0#8
    [part w 0, part w 1, part w 2, 61#8]
  | a :: b :: c :: l =>
    let w : BitVec 24 := a ++ b ++ c
    part w 0 :: part w 1 :: part w 2 :: part w 3 :: encode l

/-- The bytes of a text that has no line ends. -/
def decodeLetters : List Byte → Option (List Byte)
  | [] => some []
  | x :: y :: z :: t :: s =>
    if z = 61#8 ∧ t = 61#8 ∧ s = [] then do
      let x ← value x
      let y ← value y
      return [(x ++ y).extractLsb' 4 8]
    else if t = 61#8 ∧ s = [] then do
      let x ← value x
      let y ← value y
      let z ← value z
      return [(x ++ y ++ z).extractLsb' 10 8, (x ++ y ++ z).extractLsb' 2 8]
    else do
      let x ← value x
      let y ← value y
      let z ← value z
      let t ← value t
      let l ← decodeLetters s
      return (x ++ y ++ z ++ t).extractLsb' 16 8 :: (x ++ y ++ z ++ t).extractLsb' 8 8 ::
      (x ++ y ++ z ++ t).extractLsb' 0 8 :: l
  | _ => none

def decode (text : List Byte) : Option (List Byte) := decodeLetters (text.filter fun b => b ≠ 10#8 ∧ b ≠ 13#8)

/-! ## There and back -/

theorem newline_notMem_encode : ∀ l : List Byte, ∀ b ∈ encode l, b ≠ 10#8 ∧ b ≠ 13#8
  | [] => by simp [encode]
  | [a] => by simp [encode, part, letter_ne_newline]
  | [a, b] => by simp [encode, part, letter_ne_newline]
  | a :: b :: c :: l => by
    have := newline_notMem_encode l
    simpa [encode, part, letter_ne_newline] using this

/-- A byte alone. -/
theorem one_byte (a : Byte) : ((a ++ 0#16).extractLsb' 18 6 ++ (a ++ 0#16).extractLsb' 12 6).extractLsb' 4 8 = a := by
  refine BitVec.eq_of_getLsbD_eq fun i hi => ?_
  simp only [BitVec.getLsbD_append, BitVec.getLsbD_extractLsb', hi]
  grind

theorem two_bytes (a b : Byte) :
    ((a ++ b ++ 0#8).extractLsb' 18 6 ++ (a ++ b ++ 0#8).extractLsb' 12 6 ++
      (a ++ b ++ 0#8).extractLsb' 6 6).extractLsb' 10 8 = a ∧
      ((a ++ b ++ 0#8).extractLsb' 18 6 ++ (a ++ b ++ 0#8).extractLsb' 12 6 ++
        (a ++ b ++ 0#8).extractLsb' 6 6).extractLsb' 2 8 = b := by
  constructor <;>
  · refine BitVec.eq_of_getLsbD_eq fun i hi => ?_
    simp only [BitVec.getLsbD_append, BitVec.getLsbD_extractLsb', hi]
    grind

/-- Four letters are the bits of three bytes. -/
theorem letters_eq (w : BitVec 24) : w.extractLsb' 18 6 ++ w.extractLsb' 12 6 ++ w.extractLsb' 6 6 ++
    w.extractLsb' 0 6 = w := by
  refine BitVec.eq_of_getLsbD_eq fun i hi => ?_
  simp only [BitVec.getLsbD_append, BitVec.getLsbD_extractLsb']
  grind

theorem three_bytes (a b c : Byte) : (a ++ b ++ c).extractLsb' 16 8 = a ∧ (a ++ b ++ c).extractLsb' 8 8 = b ∧
    (a ++ b ++ c).extractLsb' 0 8 = c := by
  refine ⟨?_, ?_, ?_⟩ <;>
  · refine BitVec.eq_of_getLsbD_eq fun i hi => ?_
    simp only [BitVec.getLsbD_append, BitVec.getLsbD_extractLsb', hi]
    grind

theorem decodeLetters_encode : ∀ l : List Byte, decodeLetters (encode l) = some l
  | [] => rfl
  | [a] => by simp [encode, part, decodeLetters, one_byte]
  | [a, b] => by simp [encode, part, decodeLetters, letter_ne_pad, two_bytes]
  | a :: b :: c :: l => by
    simp [encode, part, decodeLetters, letter_ne_pad, decodeLetters_encode l, letters_eq, three_bytes]

/-- What is encoded is read again. -/
theorem decode_encode (l : List Byte) : decode (encode l) = some l := by
  rw [decode, List.filter_eq_self.2 fun b hb => decide_eq_true (newline_notMem_encode l b hb), decodeLetters_encode]

end BeehiveIm.Lib.Base64
