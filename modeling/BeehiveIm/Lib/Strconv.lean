/-
Numbers in texts: the decimals that `%d` prints, and what `strconv.ParseInt` reads of a text,
whether or not it reports an error with it.
-/
import BeehiveIm.Lib.Blocks
import Mathlib.Algebra.Order.Ring.Int
import Mathlib.Tactic.Positivity.Basic
import Mathlib.Tactic.IntervalCases

namespace BeehiveIm.Lib

def ascii (l : List Char) : List Byte := l.map fun c => BitVec.ofNat 8 c.toNat

/-- `%d` of a number that has no sign. -/
def decimal (n : Nat) : List Byte := ascii (Nat.toDigits 10 n)

/-- `%d` -/
def decimalInt : Int → List Byte
  | .ofNat n => decimal n
  | .negSucc n => 45#8 :: decimal (n + 1)

inductive NumError where
  | errSyntax
  | errRange
  deriving DecidableEq

/-- What a digit or a letter stands for. -/
def digitVal (b : Byte) : Option Nat :=
  if 48#8 ≤ b ∧ b ≤ 57#8 then some (b.toNat - 48)
  else if 97#8 ≤ b ∧ b ≤ 122#8 then some (b.toNat - 97 + 10)
  else if 65#8 ≤ b ∧ b ≤ 90#8 then some (b.toNat - 65 + 10)
  else none

/-- The loop of `strconv.ParseUint`: `n` is read already. -/
def parseDigits (base maxVal : Nat) : Nat → List Byte → Except NumError Nat
  | n, [] => .ok n
  | n, b :: s =>
    match digitVal b with
    | none => .error .errSyntax
    | some d =>
      if base ≤ d then .error .errSyntax
      -- the digits behind one that is too many are not looked at
      else if maxVal < n * base + d then .error .errRange
      else parseDigits base maxVal (n * base + d) s

/-- `lower`, of a letter -/
def lower (b : Byte) : Byte := b ||| 32#8

/-- The base that a text asks for with its prefix, and what is behind the prefix. -/
def baseOf : List Byte → Nat × List Byte
  | 48#8 :: x :: d :: s =>
    if lower x = 98#8 then (2, d :: s)
    else if lower x = 111#8 then (8, d :: s)
    else if lower x = 120#8 then (16, d :: s)
    else (8, x :: d :: s)
  | 48#8 :: s => (8, s)
  | s => (10, s)

/-- The loop of `underscoreOK`; `saw` is `'0'` for a digit, and `'!'` for what is no digit. -/
def underscoreLoop (hex : Bool) (saw : Char) : List Byte → Bool
  | [] => saw != '_'
  | b :: s =>
    if 48#8 ≤ b ∧ b ≤ 57#8 ∨ hex ∧ 97#8 ≤ lower b ∧ lower b ≤ 102#8 then underscoreLoop hex '0' s
    else if b = 95#8 then saw == '0' && underscoreLoop hex '_' s
    else saw != '_' && underscoreLoop hex '!' s

/-- `underscoreOK`: underscores are between digits, and a prefix counts as a digit. -/
def underscoreOK (s : List Byte) : Bool :=
  match if s.head? = some 45#8 ∨ s.head? = some 43#8 then s.tail else s with
  | 48#8 :: x :: s =>
    if lower x = 98#8 ∨ lower x = 111#8 ∨ lower x = 120#8 then underscoreLoop (lower x == 120#8) '0' s
    else underscoreLoop false '^' (48#8 :: x :: s)
  | s => underscoreLoop false '^' s

/-- `strconv.ParseUint`; base 0 leaves it to the text, and passes its underscores over. -/
def strconvParseUint (base bits : Nat) (s : List Byte) : Except NumError Nat :=
  if s = [] then .error .errSyntax
  else if base ≠ 0 then parseDigits base (2 ^ bits - 1) 0 s
  else
    match parseDigits (baseOf s).1 (2 ^ bits - 1) 0 ((baseOf s).2.filter (· ≠ 95#8)) with
    | .ok n => if 95#8 ∈ (baseOf s).2 ∧ ¬underscoreOK s then .error .errSyntax else .ok n
    | .error e => .error e

/-- A number with its sign, or the nearest that is not out of range. -/
def signed (bits : Nat) (neg : Bool) : Except NumError Nat → Int
  | .error .errSyntax => 0
  | .error .errRange => if neg then -2 ^ (bits - 1) else 2 ^ (bits - 1) - 1
  | .ok n => if neg then -min (n : Int) (2 ^ (bits - 1)) else min (n : Int) (2 ^ (bits - 1) - 1)

/-- `strconv.ParseInt` without its error. -/
def strconvParseInt (base bits : Nat) (s : List Byte) : Int :=
  match s with
  | 45#8 :: s => signed bits true (strconvParseUint base bits s)
  | 43#8 :: s => signed bits false (strconvParseUint base bits s)
  | s => signed bits false (strconvParseUint base bits s)

/-! ## Decimals -/

def digitByte (d : Nat) : Byte := BitVec.ofNat 8 (Nat.digitChar d).toNat

variable {n d base bits maxVal : Nat} {s : List Byte} {b : Byte}

theorem decimal_eq (n : Nat) : decimal n = if n < 10 then [digitByte n]
    else decimal (n / 10) ++ [digitByte (n % 10)] := by
  rw [decimal, Nat.toDigits_eq_if (by decide)]
  split
  · rfl
  · simp [decimal, ascii, digitByte]

theorem digitVal_digitByte (hd : d < 10) : digitVal (digitByte d) = some d := by
  interval_cases d <;> rfl

theorem decimal_ne_nil (n : Nat) : decimal n ≠ [] := by
  rw [decimal_eq]
  split <;> simp

/-- Every byte of a decimal is a digit. -/
theorem digit_of_mem_decimal (n : Nat) : ∀ b ∈ decimal n, ∃ d < 10, b = digitByte d := by
  induction n using Nat.strongRecOn with
  | ind n ih =>
    intro b hb
    rw [decimal_eq] at hb
    split at hb
    · rename_i hn
      exact ⟨n, hn, by simpa using hb⟩
    · rename_i hn
      rcases List.mem_append.1 hb with hb | hb
      · exact ih (n / 10) (by omega) b hb
      · exact ⟨n % 10, Nat.mod_lt _ (by decide), by simpa using hb⟩

/-- A decimal has none of the bytes that separate decimals. -/
theorem notMem_decimal (h : ∀ d < 10, b ≠ digitByte d) : b ∉ decimal n := by
  intro hb
  obtain ⟨d, hd, rfl⟩ := digit_of_mem_decimal n b hb
  exact h d hd rfl

/-- A positive number's decimal starts with no zero. -/
theorem decimal_head (hn : 0 < n) : ∃ d s, 0 < d ∧ d < 10 ∧ decimal n = digitByte d :: s := by
  induction n using Nat.strongRecOn with
  | ind n ih =>
    rw [decimal_eq]
    split
    · rename_i hlt
      exact ⟨n, [], hn, hlt, rfl⟩
    · rename_i hge
      obtain ⟨d, s, hpos, hd, hs⟩ := ih (n / 10) (by omega) (by omega)
      exact ⟨d, s ++ [digitByte (n % 10)], hpos, hd, by rw [hs]; rfl⟩

/-- Reading a decimal and what is behind it. -/
theorem parseDigits_decimal (maxVal n : Nat) (s : List Byte) :
    parseDigits 10 maxVal 0 (decimal n ++ s) = if maxVal < n then .error .errRange else parseDigits 10 maxVal n s := by
  induction n using Nat.strongRecOn generalizing s with
  | ind n ih =>
    have hlast : ∀ m d, d < 10 → parseDigits 10 maxVal m (digitByte d :: s) =
        if maxVal < m * 10 + d then .error .errRange else parseDigits 10 maxVal (m * 10 + d) s := by
      intro m d hd
      rw [parseDigits, digitVal_digitByte hd]
      exact if_neg (by omega)
    rw [decimal_eq]
    split
    · rename_i hn
      have := hlast 0 n hn
      rwa [Nat.zero_mul, Nat.zero_add] at this
    · rw [List.append_assoc, ih (n / 10) (by omega), List.singleton_append, hlast _ _ (Nat.mod_lt _ (by decide))]
      have hdiv : n / 10 * 10 + n % 10 = n := Nat.div_add_mod' n 10
      rw [hdiv]
      by_cases hmax : maxVal < n / 10
      · rw [if_pos hmax, if_pos (by omega)]
      · rw [if_neg hmax]

theorem parseDigits_decimal_self : parseDigits 10 maxVal 0 (decimal n) = if maxVal < n then .error .errRange
    else .ok n := by
  have := parseDigits_decimal maxVal n []
  rwa [List.append_nil] at this

theorem decimal_injective : Function.Injective decimal := by
  intro m n h
  have hread : ∀ k, k ≤ max m n → parseDigits 10 (max m n) 0 (decimal k) = .ok k := by
    intro k hk
    rw [parseDigits_decimal_self, if_neg (by omega)]
  have := (hread m (Nat.le_max_left m n)).symm.trans ((congrArg _ h).trans (hread n (Nat.le_max_right m n)))
  exact Except.ok.inj this

theorem decimalInt_eq_decimal {i : Int} (h : decimalInt i = decimal n) : i = n := by
  cases i with
  | ofNat m => exact congrArg _ (decimal_injective h)
  | negSucc m =>
    have hsign : 45#8 ∈ decimal n := h ▸ List.mem_cons_self
    exact absurd hsign (notMem_decimal (by decide))

/-- A decimal is read without its sign. -/
theorem parseInt_decimal_eq (base bits n : Nat) :
    strconvParseInt base bits (decimal n) = signed bits false (strconvParseUint base bits (decimal n)) := by
  obtain ⟨b, s, hs⟩ := List.exists_cons_of_ne_nil (decimal_ne_nil n)
  obtain ⟨d, hd, rfl⟩ := digit_of_mem_decimal n b (by simp [hs])
  rw [hs]
  interval_cases d <;> rfl

theorem parseUint_ten (hs : s ≠ []) : strconvParseUint 10 bits s = parseDigits 10 (2 ^ bits - 1) 0 s := by
  unfold strconvParseUint
  exact (if_neg hs).trans (if_pos (by decide))

/-- Zeros before the digits are read over. -/
theorem parseDigits_zeros (base maxVal k : Nat) (hb : 0 < base) (s : List Byte) :
    parseDigits base maxVal 0 (List.replicate k 48#8 ++ s) = parseDigits base maxVal 0 s := by
  induction k with
  | zero => rfl
  | succ k ih =>
    rw [List.replicate_succ, List.cons_append, parseDigits]
    change (if base ≤ 0 then _ else if maxVal < 0 * base + 0 then _ else _) = _
    rw [if_neg (by omega), if_neg (by omega), Nat.zero_mul]
    exact ih

/-- A decimal reads as its number, or as the largest. -/
theorem parseInt_decimal (hb : 0 < bits) (n : Nat) :
    strconvParseInt 10 bits (decimal n) = min (n : Int) (2 ^ (bits - 1) - 1) := by
  rw [parseInt_decimal_eq, parseUint_ten (decimal_ne_nil n), parseDigits_decimal_self]
  split
  · rename_i hn
    have hpow : (2 : Int) ^ bits = 2 * 2 ^ (bits - 1) := by
      obtain ⟨k, rfl⟩ := Nat.exists_eq_succ_of_ne_zero hb.ne'
      rw [Nat.succ_sub_one, pow_succ, mul_comm]
    have hpos : (0 : Int) < 2 ^ (bits - 1) := by positivity
    have hn' : (2 : Int) ^ bits ≤ n := by
      have : 2 ^ bits ≤ n := by omega
      exact_mod_cast this
    change (2 : Int) ^ (bits - 1) - 1 = _
    omega
  · rfl

theorem notMem_decimalInt (h : ∀ d < 10, b ≠ digitByte d) (hsign : b ≠ 45#8) (i : Int) : b ∉ decimalInt i := by
  cases i with
  | ofNat n => exact notMem_decimal h
  | negSucc n =>
    rw [decimalInt, List.mem_cons, not_or]
    exact ⟨hsign, notMem_decimal h⟩

/-- A number that is not out of range, printed with its sign, reads as itself. -/
theorem parseInt_decimalInt {i : Int} (hb : 0 < bits) (hlo : -2 ^ (bits - 1) ≤ i) (hhi : i < 2 ^ (bits - 1)) :
    strconvParseInt 10 bits (decimalInt i) = i := by
  cases i with
  | ofNat n =>
    change strconvParseInt 10 bits (decimal n) = (n : Int)
    rw [parseInt_decimal hb]
    change (n : Int) < 2 ^ (bits - 1) at hhi
    omega
  | negSucc n =>
    have hlt : n + 1 ≤ 2 ^ (bits - 1) := by
      have : ((n + 1 : Nat) : Int) ≤ 2 ^ (bits - 1) := by omega
      exact_mod_cast this
    have hmax : ¬2 ^ bits - 1 < n + 1 := by
      have : 2 ^ (bits - 1) < 2 ^ bits := Nat.pow_lt_pow_right (by decide) (by omega)
      omega
    change signed bits true (strconvParseUint 10 bits (decimal (n + 1))) = _
    rw [parseUint_ten (decimal_ne_nil _), parseDigits_decimal_self, if_neg hmax]
    change -min ((n + 1 : Nat) : Int) (2 ^ (bits - 1)) = _
    omega

/-- So does one with zeros before it. -/
theorem parseInt_zeros_decimal (hb : 0 < bits) (k n : Nat) :
    strconvParseInt 10 bits (List.replicate k 48#8 ++ decimal n) = min (n : Int) (2 ^ (bits - 1) - 1) := by
  cases k with
  | zero => exact parseInt_decimal hb n
  | succ k =>
    rw [← parseInt_decimal hb n, parseInt_decimal_eq, parseUint_ten (decimal_ne_nil n),
      ← parseDigits_zeros 10 _ (k + 1) (by decide), ← parseUint_ten (by simp [List.replicate_succ])]
    rfl

/-- Base 0 takes a decimal that is not too long for decimal. -/
theorem parseInt_zero_decimal (hn : n < 2 ^ (bits - 1)) : strconvParseInt 0 bits (decimal n) = n := by
  have hmax : ¬2 ^ bits - 1 < n := by
    have : 2 ^ (bits - 1) ≤ 2 ^ bits := Nat.pow_le_pow_right (by decide) (Nat.sub_le _ _)
    omega
  have hclamp : signed bits false (.ok n) = n := by
    have : (n : Int) < 2 ^ (bits - 1) := by exact_mod_cast hn
    change min (n : Int) (2 ^ (bits - 1) - 1) = n
    omega
  rw [parseInt_decimal_eq]
  rcases Nat.eq_zero_or_pos n with rfl | hpos
  · exact hclamp
  · have hbase : baseOf (decimal n) = (10, decimal n) := by
      obtain ⟨d, s, hd, hd', hs⟩ := decimal_head hpos
      rw [hs]
      interval_cases d <;> rfl
    have hplain : 95#8 ∉ decimal n := notMem_decimal (by decide)
    have hall : (decimal n).filter (· ≠ 95#8) = decimal n := by
      rw [List.filter_eq_self]
      rintro b hb
      exact decide_eq_true fun h => hplain (h ▸ hb)
    rw [strconvParseUint, if_neg (decimal_ne_nil n), if_neg (by simp), hbase]
    dsimp only
    rw [hall, parseDigits_decimal_self, if_neg hmax]
    dsimp only
    rw [if_neg fun h => hplain h.1, hclamp]

end BeehiveIm.Lib
