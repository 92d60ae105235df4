/-
Lists of addresses (`iplist_parse` of `sck_tcp.c`). A pointer is the memory from it on, up to the
NUL. What has no meaning in C is a fault: a read behind the NUL, a number that overflows, a copy of
a negative length. There is always memory for the list and its items, and the loop carries the
number of rounds that it may make. What a list of addresses should be stands behind the code: the
words between the separators are items.

What `iplist_parse` makes of every string: where a number overflows there is no answer, and the
words it accepts are items but for the digits of their octets, of which there may be none in the
middle and more than three anywhere.
-/
import BeehiveIm.Lib.CStr
import Mathlib.Data.List.Basic

namespace BeehiveIm.Core.Iplist

open BeehiveIm.Lib

/-- `iplist_item_t` -/
structure IplistItem where
  idx : Nat
  ipaddr : List Byte
  port : Nat
  deriving DecidableEq, Repr

/-- How a parse ends that does not succeed. -/
inductive Stop where
  | fault
  /-- `goto ERR_IPLIST` -/
  | errIplist
  deriving DecidableEq, Repr

/-- `INT_MAX` -/
def intMax : Nat := 2147483647

/-- A length that is kept in an `int` -/
def toInt (n : Nat) : Int := (BitVec.ofNat 32 n).toInt

/-- `isdigit` -/
def isdigit (c : Byte) : Bool := 48#8 ≤ c ∧ c ≤ 57#8

/-- `' ' == *ptr || ',' == *ptr` -/
def isSep (c : Byte) : Bool := c = 32#8 ∨ c = 44#8

/-- The loop over the separators -/
def skip : List Byte → Except Stop (List Byte)
  | [] => .error .fault
  | c :: ptr => if isSep c then skip ptr else .ok (c :: ptr)

/-- `digit = 10 * digit + (*ptr - '0')` as long as there are digits -/
def number (digit : Nat) : List Byte → Except Stop (Nat × List Byte)
  | [] => .error .fault
  | c :: ptr =>
    if isdigit c then
      let digit := 10 * digit + (c.toNat - 48)
      if intMax < digit then .error .fault else number digit ptr
    else .ok (digit, c :: ptr)

/-- One of the four fields, up to the character behind it; `least` is the smallest
number that is let through. -/
def field (least : Nat) (stop : Byte) (ptr : List Byte) : Except Stop (List Byte) := do
  let r ← number 0 ptr
  match r.2 with
  | [] => .error .fault
  | c :: ptr => if c ≠ stop ∨ r.1 < least ∨ 255 < r.1 then .error .errIplist else .ok ptr

/-- The fields: the first and the last are above 0, the last one ends at the colon. -/
def parts : List (Nat × Byte) := [(1, 46#8), (0, 46#8), (0, 46#8), (1, 58#8)]

/-- An item, and the pointer behind it. -/
def item (idx : Nat) (start : List Byte) : Except Stop (IplistItem × List Byte) := do
  let ptr ← parts.foldlM (fun ptr part => field part.1 part.2 ptr) start
  -- `end - start`; the pointer is behind the colon by now
  let len := toInt (start.length - ptr.length - 1)
  let r ← number 0 ptr
  if r.1 = 0 ∨ 65535 < r.1 then .error .errIplist
  else if 31 ≤ len then .error .errIplist
  else if len < 0 ∨ intMax ≤ idx then .error .fault
  else .ok (⟨idx, start.take len.toNat, r.1⟩, r.2)

/-- `while (1)` -/
def loop : Nat → Nat → List Byte → List IplistItem → Except Stop (List IplistItem)
  | 0, _, _, _ => .error .fault
  | fuel + 1, idx, ptr, list => do
    let start ← skip ptr
    if start.head? = some 0#8 then .ok list
    else
      let r ← item idx start
      loop fuel (idx + 1) r.2 (list ++ [r.1])

/-- `iplist_parse`; without an answer it is a fault. -/
def iplistParse (fuel : Nat) (iplist : CStr) : Option (Option (List IplistItem)) :=
  match loop fuel 0 (iplist.val ++ [0#8]) [] with
  | .error .fault => none
  | .error .errIplist => some none
  | .ok list => some (if list.length = 0 then none else some list)

/-! ## The grammar -/

def Digits (d : List Byte) : Prop := ∀ c ∈ d, isdigit c = true

/-- The number that digits stand for, behind a number that is read already -/
def valueFrom (n : Nat) (d : List Byte) : Nat := d.foldl (fun n c => 10 * n + (c.toNat - 48)) n

def value (d : List Byte) : Nat := valueFrom 0 d

/-- What is between the separators -/
def words (s : List Byte) : List (List Byte) := (s.splitOnP isSep).filter fun w => w ≠ []

/-- `ip:port` -/
structure IsItem (w d₁ d₂ d₃ d₄ d₅ : List Byte) : Prop where
  text : w = d₁ ++ 46#8 :: (d₂ ++ 46#8 :: (d₃ ++ 46#8 :: (d₄ ++ 58#8 :: d₅)))
  octets : ∀ d ∈ [d₁, d₂, d₃, d₄], Digits d ∧ 1 ≤ d.length ∧ d.length ≤ 3 ∧ value d ≤ 255
  ends : 1 ≤ value d₁ ∧ 1 ≤ value d₄
  port : Digits d₅ ∧ 1 ≤ value d₅ ∧ value d₅ ≤ 65535

def Strict (w : List Byte) : Prop := ∃ d₁ d₂ d₃ d₄ d₅, IsItem w d₁ d₂ d₃ d₄ d₅

/-- One item or more -/
def Grammar (s : List Byte) : Prop := words s ≠ [] ∧ ∀ w ∈ words s, Strict w

/-- An item under its number -/
def itemOf (k : Nat) (w : List Byte) : IplistItem :=
  ⟨k, w.takeWhile (· ≠ 58#8), value ((w.dropWhile (· ≠ 58#8)).drop 1)⟩

/-- The items of the words, in order -/
def items : Nat → List (List Byte) → List IplistItem
  | _, [] => []
  | k, w :: ws => itemOf k w :: items (k + 1) ws

/-- The parse ends without a fault, it succeeds on the lists of the grammar, and with their
items. -/
def Parses (s : CStr) : Prop :=
  ∃ r, (∀ fuel, s.val.length < fuel → iplistParse fuel s = some r) ∧ (r.isSome = true ↔ Grammar s.val) ∧
    ∀ list, r = some list → list = items 0 (words s.val)

/-! ## Words -/

theorem words_sep {c : Byte} (h : isSep c = true) (s : List Byte) : words (c :: s) = words s := by
  unfold words
  rw [List.splitOnP_cons_eq_if_modifyHead, if_pos h, List.filter_cons_of_neg (by simp)]

theorem words_seps {s : List Byte} : ∀ {seps : List Byte}, (∀ c ∈ seps, isSep c = true) → words (seps ++ s) = words s
  | [], _ => rfl
  | c :: seps, h => by
    rw [List.cons_append, words_sep (h c List.mem_cons_self), words_seps fun c hc => h c (List.mem_cons_of_mem _ hc)]

theorem words_word {w s : List Byte} (hw : w ≠ []) (h : ∀ c ∈ w, isSep c = false)
    (hs : ∀ c, s.head? = some c → isSep c = true) : words (w ++ s) = w :: words s := by
  cases s with
  | nil =>
    unfold words
    rw [List.append_nil, List.splitOnP_eq_singleton h, List.filter_cons_of_pos (by simpa using hw)]
    rfl
  | cons c s =>
    have hc := hs c rfl
    rw [words_sep hc]
    unfold words
    rw [List.splitOnP_append_cons_of_forall_mem h c hc, List.filter_cons_of_pos (by simpa using hw)]

/-- A string begins with separators, and a word if there is more. -/
theorem words_split (s : List Byte) : ((∀ c ∈ s, isSep c = true) ∧ words s = []) ∨
    ∃ seps w s', s = seps ++ (w ++ s') ∧ (∀ c ∈ seps, isSep c = true) ∧ w ≠ [] ∧ (∀ c ∈ w, isSep c = false) ∧
      (∀ c, s'.head? = some c → isSep c = true) ∧ words s = w :: words s' := by
  have hseps : ∀ c ∈ s.takeWhile isSep, isSep c = true := fun c hc => List.mem_takeWhile_imp hc
  have hs : s.takeWhile isSep ++ s.dropWhile isSep = s := List.takeWhile_append_dropWhile
  cases ht : s.dropWhile isSep with
  | nil =>
    rw [ht, List.append_nil] at hs
    rw [hs] at hseps
    refine Or.inl ⟨hseps, ?_⟩
    have hnil := words_seps (s := []) hseps
    rwa [List.append_nil] at hnil
  | cons c t =>
    have hc : isSep c = false := by
      have hhead := List.head_dropWhile_not isSep (l := s) (by rw [ht]; exact List.cons_ne_nil _ _)
      simpa [ht] using hhead
    have hw : (c :: t).takeWhile (!isSep ·) ≠ [] := by simp [hc]
    have hplain : ∀ x ∈ (c :: t).takeWhile (!isSep ·), isSep x = false := fun x hx => by
      simpa using List.mem_takeWhile_imp hx
    have hend : ∀ x, ((c :: t).dropWhile (!isSep ·)).head? = some x → isSep x = true := fun x hx => by
      have hnot := List.head?_dropWhile_not (!isSep ·) (c :: t)
      rw [hx] at hnot
      simpa using hnot
    have hsplit : (c :: t).takeWhile (!isSep ·) ++ (c :: t).dropWhile (!isSep ·) = c :: t :=
      List.takeWhile_append_dropWhile
    rw [ht, ← hsplit] at hs
    refine Or.inr ⟨_, _, _, hs.symm, hseps, hw, hplain, hend, ?_⟩
    rw [← hs, words_seps hseps, words_word hw hplain hend]

/-! ## Where the parse comes to -/

/-- The digits at the beginning stand for a number that is no `int`. -/
def Big (w : List Byte) : Prop := intMax < value (w.takeWhile isdigit)

/-- Digits whose number is in the bounds, and the character behind them -/
def Field (part : Nat × Byte) (w rest : List Byte) : Prop :=
  w.dropWhile isdigit = part.2 :: rest ∧ part.1 ≤ value (w.takeWhile isdigit) ∧ value (w.takeWhile isdigit) ≤ 255

def Fields : List (Nat × Byte) → List Byte → List Byte → Prop
  | [], w, rest => rest = w
  | part :: parts, w, rest => ∃ next, Field part w next ∧ Fields parts next rest

/-- The parse comes to such digits in one of the fields. -/
def BigIn : List (Nat × Byte) → List Byte → Prop
  | [], _ => False
  | part :: parts, w => Big w ∨ ∃ next, Field part w next ∧ BigIn parts next

/-- The parse comes to such digits in a field or in the port. -/
def Wild (w : List Byte) : Prop := BigIn parts w ∨ ∃ rest, Fields parts w rest ∧ Big rest

/-- Four fields, whose text has the length `n`, and a port, with `v` behind it -/
def Reads (w : List Byte) (n port : Nat) (v : List Byte) : Prop :=
  ∃ rest, Fields parts w rest ∧ n = w.length - rest.length - 1 ∧ port = value (rest.takeWhile isdigit) ∧ 1 ≤ port ∧
    port ≤ 65535 ∧ v = rest.dropWhile isdigit

/-- An item but for the digits of its octets: the ones in the middle may have none, and all
may have more than three. -/
def Loose (w : List Byte) : Prop := ∃ n port, Reads w n port [] ∧ toInt n < 31

/-- The word number `k` makes no `int` overflow. -/
def Safe (k : Nat) (w : List Byte) : Prop :=
  ¬Wild w ∧ ∀ n port v, Reads w n port v → toInt n < 31 → 0 ≤ toInt n ∧ k < intMax

/-- No word makes one overflow up to the first that is no item. -/
def AllSafe : Nat → List (List Byte) → Prop
  | _, [] => True
  | k, w :: ws => Safe k w ∧ (Loose w → AllSafe (k + 1) ws)

/-- Nothing overflows; and where all words are items but for the digits of octets, they are
items. -/
def Meets (s : List Byte) : Prop :=
  AllSafe 0 (words s) ∧ ((∀ w ∈ words s, Loose w) → ∀ w ∈ words s, Strict w)

variable {w t v rest : List Byte} {part : Nat × Byte} {n k port : Nat}

/-! ## Numbers -/

theorem le_valueFrom (d : List Byte) : ∀ n, n ≤ valueFrom n d := by
  induction d with
  | nil => exact fun n => le_refl n
  | cons c d ih =>
    intro n
    have hle := ih (10 * n + (c.toNat - 48))
    show n ≤ valueFrom (10 * n + (c.toNat - 48)) d
    omega

/-- The loop reads all the digits there are, and overflows with the number they stand for. -/
theorem number_eq (ptr : List Byte) (hend : ptr.dropWhile isdigit ≠ []) : ∀ {digit : Nat}, digit ≤ intMax →
    number digit ptr = if intMax < valueFrom digit (ptr.takeWhile isdigit) then .error .fault
      else .ok (valueFrom digit (ptr.takeWhile isdigit), ptr.dropWhile isdigit) := by
  induction ptr with
  | nil => exact absurd rfl hend
  | cons c ptr ih =>
    intro digit hdigit
    cases hc : isdigit c with
    | false =>
      rw [List.takeWhile_cons_of_neg (by simp [hc]), List.dropWhile_cons_of_neg (by simp [hc])]
      rw [show valueFrom digit [] = digit from rfl, if_neg (not_lt.mpr hdigit)]
      simp only [number, hc, Bool.false_eq_true, if_false]
    | true =>
      rw [List.dropWhile_cons_of_pos hc] at hend ⊢
      rw [List.takeWhile_cons_of_pos hc]
      simp only [number, hc, if_true]
      show _ = if intMax < valueFrom (10 * digit + (c.toNat - 48)) _ then _ else _
      by_cases hbig : intMax < 10 * digit + (c.toNat - 48)
      · rw [if_pos hbig, if_pos (hbig.trans_le (le_valueFrom _ _))]
      · rw [if_neg hbig, ih hend (not_lt.mp hbig)]
        rfl

/-! ## Words in memory -/

/-- A word holds no separator and no NUL. -/
def Plain (w : List Byte) : Prop := ∀ c ∈ w, isSep c = false ∧ c ≠ 0#8

/-- What is behind a word: a separator or the NUL -/
def Ends (t : List Byte) : Prop := ∃ c r, t = c :: r ∧ (isSep c = true ∨ c = 0#8)

theorem Ends.head {c : Byte} (h : isSep c = true ∨ c = 0#8) : isdigit c = false ∧ c ≠ 46#8 ∧ c ≠ 58#8 := by
  simp only [isSep, decide_eq_true_eq] at h
  rcases h with (rfl | rfl) | rfl <;> decide

theorem takeWhile_word (ht : Ends t) : (w ++ t).takeWhile isdigit = w.takeWhile isdigit := by
  obtain ⟨c, r, rfl, hc⟩ := ht
  induction w with
  | nil => exact List.takeWhile_cons_of_neg (by simp [(Ends.head hc).1])
  | cons d w ih =>
    cases hd : isdigit d with
    | false =>
      rw [List.cons_append, List.takeWhile_cons_of_neg (by simp [hd]), List.takeWhile_cons_of_neg (by simp [hd])]
    | true => rw [List.cons_append, List.takeWhile_cons_of_pos hd, List.takeWhile_cons_of_pos hd, ih]

theorem dropWhile_word (ht : Ends t) : (w ++ t).dropWhile isdigit = w.dropWhile isdigit ++ t := by
  have hsplit : (w ++ t).takeWhile isdigit ++ (w ++ t).dropWhile isdigit = w ++ t := List.takeWhile_append_dropWhile
  rw [takeWhile_word ht] at hsplit
  have hword : w.takeWhile isdigit ++ w.dropWhile isdigit = w := List.takeWhile_append_dropWhile
  nth_rewrite 3 [← hword] at hsplit
  rw [List.append_assoc] at hsplit
  exact List.append_cancel_left hsplit

/-- Behind a word there is more to read. -/
theorem dropWhile_ne_nil (ht : Ends t) : (w ++ t).dropWhile isdigit ≠ [] := by
  rw [dropWhile_word ht]
  obtain ⟨c, r, rfl, -⟩ := ht
  simp

theorem number_big (ht : Ends t) (h : Big w) : number 0 (w ++ t) = .error .fault := by
  rw [number_eq _ (dropWhile_ne_nil ht) (Nat.zero_le _), takeWhile_word ht]
  exact if_pos h

theorem number_small (ht : Ends t) (h : ¬Big w) :
    number 0 (w ++ t) = .ok (value (w.takeWhile isdigit), w.dropWhile isdigit ++ t) := by
  rw [number_eq _ (dropWhile_ne_nil ht) (Nat.zero_le _), takeWhile_word ht, dropWhile_word ht]
  exact if_neg h

/-! ## Fields -/

theorem Field.plain (h : Field part w rest) (hw : Plain w) : Plain rest := by
  intro c hc
  refine hw c ((List.dropWhile_suffix isdigit).subset ?_)
  rw [h.1]
  exact List.mem_cons_of_mem _ hc

theorem Fields.plain : ∀ {ps : List (Nat × Byte)} {w : List Byte}, Fields ps w rest → Plain w → Plain rest
  | [], _, rfl, hw => hw
  | _ :: _, _, ⟨_, hfield, hfields⟩, hw => hfields.plain (hfield.plain hw)

theorem field_big (ht : Ends t) (h : Big w) : field part.1 part.2 (w ++ t) = .error .fault := by
  unfold field
  rw [number_big ht h]
  rfl

theorem Field.not_big (h : Field part w rest) : ¬Big w := by
  have hmost := h.2.2
  unfold Big intMax
  omega

theorem field_ok (ht : Ends t) (h : Field part w rest) : field part.1 part.2 (w ++ t) = .ok (rest ++ t) := by
  unfold field
  rw [number_small ht h.not_big, h.1]
  refine if_neg ?_
  rintro (hstop | hleast | hmost)
  · exact hstop rfl
  · exact absurd h.2.1 (not_le.mpr hleast)
  · exact absurd h.2.2 (not_le.mpr hmost)

theorem field_err (ht : Ends t) (hstop : part.2 = 46#8 ∨ part.2 = 58#8) (hbig : ¬Big w)
    (h : ∀ rest, ¬Field part w rest) : field part.1 part.2 (w ++ t) = .error .errIplist := by
  unfold field
  rw [number_small ht hbig]
  cases hdrop : w.dropWhile isdigit with
  | nil =>
    obtain ⟨c, r, rfl, hc⟩ := ht
    have hne : c ≠ part.2 := by
      obtain ⟨-, hdot, hcolon⟩ := Ends.head hc
      rcases hstop with hstop | hstop <;> rw [hstop] <;> assumption
    exact if_pos (Or.inl hne)
  | cons c r =>
    refine if_pos ?_
    by_contra hnot
    push Not at hnot
    exact h r ⟨by rw [hdrop, hnot.1], hnot.2.1, hnot.2.2⟩

/-- Fields one behind the other -/
def fields (ps : List (Nat × Byte)) (ptr : List Byte) : Except Stop (List Byte) :=
  ps.foldlM (fun ptr part => field part.1 part.2 ptr) ptr

theorem fields_cons (ps : List (Nat × Byte)) (ptr : List Byte) :
    fields (part :: ps) ptr = field part.1 part.2 ptr >>= fields ps :=
  List.foldlM_cons

theorem fields_big (ht : Ends t) : ∀ {ps : List (Nat × Byte)} {w : List Byte}, BigIn ps w →
    fields ps (w ++ t) = .error .fault
  | _ :: _, _, .inl h => by
    rw [fields_cons, field_big ht h]
    rfl
  | _ :: _, _, .inr ⟨_, hfield, h⟩ => by
    rw [fields_cons, field_ok ht hfield]
    exact fields_big ht h

theorem fields_ok (ht : Ends t) : ∀ {ps : List (Nat × Byte)} {w : List Byte}, Fields ps w rest →
    fields ps (w ++ t) = .ok (rest ++ t)
  | [], _, rfl => rfl
  | _ :: _, _, ⟨_, hfield, h⟩ => by
    rw [fields_cons, field_ok ht hfield]
    exact fields_ok ht h

theorem fields_err (ht : Ends t) : ∀ {ps : List (Nat × Byte)} {w : List Byte},
    (∀ part ∈ ps, part.2 = 46#8 ∨ part.2 = 58#8) → ¬BigIn ps w → (∀ rest, ¬Fields ps w rest) →
    fields ps (w ++ t) = .error .errIplist
  | [], w, _, _, h => absurd rfl (h w)
  | part :: ps, w, hstops, hbig, h => by
    rw [fields_cons]
    by_cases hfield : ∃ next, Field part w next
    · obtain ⟨next, hfield⟩ := hfield
      rw [field_ok ht hfield]
      exact fields_err ht (fun p hp => hstops p (List.mem_cons_of_mem _ hp))
        (fun hb => hbig (Or.inr ⟨next, hfield, hb⟩))
        fun rest hrest => h rest ⟨next, hfield, hrest⟩
    · rw [field_err ht (hstops part List.mem_cons_self) (fun hb => hbig (Or.inl hb)) (not_exists.mp hfield)]
      rfl

theorem Fields.inj : ∀ {ps : List (Nat × Byte)} {w r r' : List Byte}, Fields ps w r → Fields ps w r' → r = r'
  | [], _, _, _, rfl, rfl => rfl
  | _ :: _, _, _, _, ⟨next, hfield, h⟩, ⟨next', hfield', h'⟩ => by
    have hnext : next = next' := (List.cons.inj (hfield.1.symm.trans hfield'.1)).2
    subst hnext
    exact h.inj h'

theorem Reads.inj {n' port' : Nat} {v' : List Byte} (h : Reads w n port v) (h' : Reads w n' port' v') :
    n = n' ∧ port = port' ∧ v = v' := by
  obtain ⟨rest, hfields, rfl, rfl, -, -, rfl⟩ := h
  obtain ⟨rest', hfields', rfl, rfl, -, -, rfl⟩ := h'
  obtain rfl := hfields.inj hfields'
  exact ⟨rfl, rfl, rfl⟩

theorem Reads.plain (h : Reads w n port v) (hw : Plain w) : Plain v := by
  obtain ⟨rest, hfields, -, -, -, -, rfl⟩ := h
  exact fun c hc => hfields.plain hw c ((List.dropWhile_suffix isdigit).subset hc)

theorem Reads.head (h : Reads w n port v) : ∀ c, v.head? = some c → isdigit c = false := by
  obtain ⟨rest, -, -, -, -, -, rfl⟩ := h
  intro c hc
  have hnot := List.head?_dropWhile_not isdigit rest
  rw [hc] at hnot
  simpa using hnot

/-! ## Items -/

theorem parts_stops : ∀ part ∈ parts, part.2 = 46#8 ∨ part.2 = 58#8 := by decide

theorem toNat_toInt_le (n : Nat) : (toInt n).toNat ≤ n := by
  unfold toInt
  rw [BitVec.toInt_eq_toNat_cond, BitVec.toNat_ofNat]
  have hmod := Nat.mod_le n (2 ^ 32)
  split <;> omega

theorem toInt_of_lt (h : n < 2 ^ 31) : toInt n = n := by
  unfold toInt
  rw [BitVec.toInt_eq_toNat_cond, BitVec.toNat_ofNat, Nat.mod_eq_of_lt (by omega), if_pos (by omega)]

theorem item_wild (ht : Ends t) (h : Wild w) : item k (w ++ t) = .error .fault := by
  rcases h with h | ⟨rest, hfields, hbig⟩
  · show (fields parts (w ++ t) >>= _) = _
    rw [fields_big ht h]
    rfl
  · show (fields parts (w ++ t) >>= _) = _
    rw [fields_ok ht hfields]
    show (number 0 (rest ++ t) >>= _) = _
    rw [number_big ht hbig]
    rfl

theorem item_err (ht : Ends t) (hwild : ¬Wild w) (h : ∀ n port v, ¬Reads w n port v) :
    item k (w ++ t) = .error .errIplist := by
  show (fields parts (w ++ t) >>= _) = _
  by_cases hfields : ∃ rest, Fields parts w rest
  · obtain ⟨rest, hfields⟩ := hfields
    rw [fields_ok ht hfields]
    show (number 0 (rest ++ t) >>= _) = _
    rw [number_small ht fun hbig => hwild (Or.inr ⟨rest, hfields, hbig⟩)]
    refine if_pos ?_
    by_contra hnot
    have hport : 1 ≤ value (rest.takeWhile isdigit) ∧ value (rest.takeWhile isdigit) ≤ 65535 := by
      simp only at hnot
      omega
    exact h _ _ _ ⟨rest, hfields, rfl, rfl, hport.1, hport.2, rfl⟩
  · rw [fields_err ht parts_stops (fun hb => hwild (Or.inl hb)) (not_exists.mp hfields)]
    rfl

/-- An item is stored when its text has less than 31 characters, as an `int` counts them. -/
theorem item_reads (ht : Ends t) (hwild : ¬Wild w) (h : Reads w n port v) : item k (w ++ t) =
    if 31 ≤ toInt n then .error .errIplist else if toInt n < 0 ∨ intMax ≤ k then .error .fault
    else .ok (⟨k, w.take (toInt n).toNat, port⟩, v ++ t) := by
  obtain ⟨rest, hfields, rfl, rfl, hleast, hmost, rfl⟩ := h
  show (fields parts (w ++ t) >>= _) = _
  rw [fields_ok ht hfields]
  show (number 0 (rest ++ t) >>= _) = _
  rw [number_small ht fun hbig => hwild (Or.inr ⟨rest, hfields, hbig⟩)]
  refine (if_neg (by simp only; omega)).trans ?_
  have hlen : (w ++ t).length - (rest ++ t).length - 1 = w.length - rest.length - 1 := by
    rw [List.length_append, List.length_append]
    omega
  have htext : (w ++ t).take (toInt (w.length - rest.length - 1)).toNat =
      w.take (toInt (w.length - rest.length - 1)).toNat := by
    refine List.take_append_of_le_length ?_
    have hle := toNat_toInt_le (w.length - rest.length - 1)
    omega
  simp only [hlen, htext]

theorem Safe.of_no_reads (hwild : ¬Wild w) (h : ∀ n port v, ¬Reads w n port v) : Safe k w :=
  ⟨hwild, fun n port v hreads _ => absurd hreads (h n port v)⟩

/-- What stands behind an item without a separator in between is no item. -/
theorem loop_behind {fuel : Nat} {list : List IplistItem} (hv : v ≠ []) (hplain : Plain v)
    (hdigit : ∀ c, v.head? = some c → isdigit c = false) :
    loop (fuel + 1) k (v ++ t) list = .error .errIplist := by
  cases v with
  | nil => exact absurd rfl hv
  | cons c v =>
    have hsep := (hplain c List.mem_cons_self).1
    have hnul := (hplain c List.mem_cons_self).2
    have hfield : field 1 46#8 (c :: v ++ t) = .error .errIplist := by
      unfold field
      have hnumber : number 0 (c :: v ++ t) = .ok (0, c :: v ++ t) := by
        simp only [List.cons_append, number, hdigit c rfl, Bool.false_eq_true, if_false]
      rw [hnumber]
      exact if_pos (Or.inr (Or.inl Nat.one_pos))
    have hskip : skip (c :: v ++ t) = .ok (c :: v ++ t) := by
      simp only [List.cons_append, skip, hsep, Bool.false_eq_true, if_false]
    have hitem : item k (c :: v ++ t) = .error .errIplist := by
      show (field 1 46#8 (c :: v ++ t) >>= _) >>= _ = _
      rw [hfield]
      rfl
    show (skip (c :: v ++ t) >>= _) = _
    rw [hskip]
    refine (if_neg (by simpa using hnul)).trans ?_
    rw [hitem]
    rfl

/-! ## The loop -/

theorem skip_seps {m : List Byte} : ∀ {seps : List Byte}, (∀ c ∈ seps, isSep c = true) → skip (seps ++ m) = skip m
  | [], _ => rfl
  | c :: seps, h => by
    rw [List.cons_append, skip, if_pos (h c List.mem_cons_self)]
    exact skip_seps fun c hc => h c (List.mem_cons_of_mem _ hc)

theorem skip_word (hw : w ≠ []) (hplain : Plain w) : skip (w ++ t) = .ok (w ++ t) ∧ (w ++ t).head? ≠ some 0#8 := by
  cases w with
  | nil => exact absurd rfl hw
  | cons c w =>
    obtain ⟨hsep, hnul⟩ := hplain c List.mem_cons_self
    refine ⟨?_, by simpa using hnul⟩
    simp only [List.cons_append, skip, hsep, Bool.false_eq_true, if_false]

/-- The items that are stored for words, the first of them under the number `k` -/
def Listed : Nat → List (List Byte) → List IplistItem → Prop
  | _, [], l => l = []
  | k, w :: ws, l => ∃ n port l', Reads w n port [] ∧ l = ⟨k, w.take (toInt n).toNat, port⟩ :: l' ∧ Listed (k + 1) ws l'

theorem Listed.inj : ∀ {ws : List (List Byte)} {k : Nat} {l l' : List IplistItem}, Listed k ws l → Listed k ws l' →
    l = l'
  | [], _, _, _, rfl, rfl => rfl
  | _ :: _, _, _, _, ⟨_, _, _, hreads, rfl, h⟩, ⟨_, _, _, hreads', rfl, h'⟩ => by
    obtain ⟨rfl, rfl, -⟩ := hreads.inj hreads'
    rw [h.inj h']

theorem Listed.length_eq : ∀ {ws : List (List Byte)} {k : Nat} {l : List IplistItem}, Listed k ws l →
    l.length = ws.length
  | [], _, _, rfl => rfl
  | _ :: _, _, _, ⟨_, _, _, _, rfl, h⟩ => congrArg (· + 1) h.length_eq

/-- How the loop ends on words, with `list` stored before -/
def Outcome (k : Nat) (ws : List (List Byte)) (list : List IplistItem) : Except Stop (List IplistItem) → Prop
  | .error .fault => ¬AllSafe k ws
  | .error .errIplist => AllSafe k ws ∧ ¬∀ w ∈ ws, Loose w
  | .ok r => AllSafe k ws ∧ (∀ w ∈ ws, Loose w) ∧ ∃ l, r = list ++ l ∧ Listed k ws l

/-- The word in front is no item, and makes nothing overflow. -/
theorem Outcome.refused {ws : List (List Byte)} {list : List IplistItem} (hsafe : Safe k w) (hloose : ¬Loose w) :
    Outcome k (w :: ws) list (.error .errIplist) :=
  ⟨⟨hsafe, fun h => absurd h hloose⟩, fun h => hloose (h w List.mem_cons_self)⟩

/-- The word in front is stored. -/
theorem Outcome.stored {ws : List (List Byte)} {list : List IplistItem} {r : Except Stop (List IplistItem)}
    (hsafe : Safe k w) (hreads : Reads w n port []) (hlen : toInt n < 31)
    (h : Outcome (k + 1) ws (list ++ [⟨k, w.take (toInt n).toNat, port⟩]) r) : Outcome k (w :: ws) list r := by
  have hloose : Loose w := ⟨n, port, hreads, hlen⟩
  match r, h with
  | .error .fault, h => exact fun hall => h (hall.2 hloose)
  | .error .errIplist, ⟨hall, hnot⟩ =>
    exact ⟨⟨hsafe, fun _ => hall⟩, fun h => hnot fun w hmem => h w (List.mem_cons_of_mem _ hmem)⟩
  | .ok r, ⟨hall, hloose', l, hr, hlisted⟩ =>
    refine ⟨⟨hsafe, fun _ => hall⟩, ?_, ⟨k, w.take (toInt n).toNat, port⟩ :: l, ?_, n, port, l, hreads, rfl, hlisted⟩
    · intro w' hw'
      rcases List.mem_cons.mp hw' with rfl | hw'
      · exact hloose
      · exact hloose' w' hw'
    · rw [hr, List.append_assoc]
      rfl

/-- A round for a word: `h` is what the rest of the loop does. -/
theorem Outcome.round {fuel : Nat} {ws : List (List Byte)} {list : List IplistItem} (hplain : Plain w) (ht : Ends t)
    (hfuel : 0 < fuel) (h : ∀ list, Outcome (k + 1) ws list (loop fuel (k + 1) t list)) :
    Outcome k (w :: ws) list (item k (w ++ t) >>= fun r => loop fuel (k + 1) r.2 (list ++ [r.1])) := by
  by_cases hwild : Wild w
  · rw [item_wild ht hwild]
    exact fun hall => hall.1.1 hwild
  by_cases hreads : ∃ n port v, Reads w n port v
  · obtain ⟨n, port, v, hreads⟩ := hreads
    rw [item_reads ht hwild hreads]
    by_cases hlen : 31 ≤ toInt n
    · rw [if_pos hlen]
      have hshort : ∀ {n' port' v'}, Reads w n' port' v' → ¬toInt n' < 31 := by
        intro n' port' v' hreads'
        obtain ⟨rfl, -⟩ := hreads.inj hreads'
        exact not_lt.mpr hlen
      exact refused ⟨hwild, fun n' port' v' hreads' hlt => absurd hlt (hshort hreads')⟩
        fun ⟨n', port', hreads', hlt⟩ => hshort hreads' hlt
    rw [if_neg hlen]
    by_cases hover : toInt n < 0 ∨ intMax ≤ k
    · rw [if_pos hover]
      intro hall
      have := hall.1.2 n port v hreads (not_le.mp hlen)
      omega
    rw [if_neg hover]
    have hsafe : Safe k w := by
      refine ⟨hwild, fun n' port' v' hreads' _ => ?_⟩
      obtain ⟨rfl, -⟩ := hreads.inj hreads'
      omega
    show Outcome k (w :: ws) list (loop fuel (k + 1) (v ++ t) (list ++ [⟨k, w.take (toInt n).toNat, port⟩]))
    by_cases hv : v = []
    · subst hv
      exact stored hsafe hreads (not_le.mp hlen) (h _)
    · obtain ⟨fuel, rfl⟩ := Nat.exists_eq_add_of_lt hfuel
      rw [Nat.zero_add, loop_behind hv (hreads.plain hplain) hreads.head]
      refine refused hsafe ?_
      rintro ⟨n', port', hreads', -⟩
      exact hv (hreads.inj hreads').2.2
  · have hnone : ∀ n port v, ¬Reads w n port v := fun n port v h => hreads ⟨n, port, v, h⟩
    rw [item_err ht hwild hnone]
    exact refused (Safe.of_no_reads hwild hnone) fun ⟨n, port, h, _⟩ => hnone n port [] h

/-- The loop takes the words of the string one after the other. -/
theorem loop_words : ∀ {fuel k : Nat} {s : List Byte} {list : List IplistItem}, s.length < fuel → 0#8 ∉ s →
    Outcome k (words s) list (loop fuel k (s ++ [0#8]) list)
  | 0, _, _, _, hfuel, _ => absurd hfuel (Nat.not_lt_zero _)
  | fuel + 1, k, s, list, hfuel, hnul => by
    rcases words_split s with ⟨hseps, hnone⟩ | ⟨seps, w, s', rfl, hseps, hw, hword, hend, hwords⟩
    · rw [hnone]
      have hloop : loop (fuel + 1) k (s ++ [0#8]) list = .ok list := by
        show (skip (s ++ [0#8]) >>= _) = _
        rw [skip_seps hseps]
        rfl
      rw [hloop]
      exact ⟨trivial, fun w h => absurd h List.not_mem_nil, [], (List.append_nil _).symm, rfl⟩
    · rw [hwords]
      have hplain : Plain w := by
        intro c hc
        refine ⟨hword c hc, ?_⟩
        rintro rfl
        exact hnul (List.mem_append_right _ (List.mem_append_left _ hc))
      have ht : Ends (s' ++ [0#8]) := by
        cases s' with
        | nil => exact ⟨0#8, [], rfl, Or.inr rfl⟩
        | cons c s' => exact ⟨c, s' ++ [0#8], rfl, Or.inl (hend c rfl)⟩
      have hlen : s'.length < fuel ∧ 0 < fuel := by
        have := List.length_pos_iff.mpr hw
        simp only [List.length_append] at hfuel
        omega
      obtain ⟨hskip, hhead⟩ := skip_word (t := s' ++ [0#8]) hw hplain
      show Outcome k (w :: words s') list (skip ((seps ++ (w ++ s')) ++ [0#8]) >>= _)
      rw [List.append_assoc, skip_seps hseps, List.append_assoc, hskip]
      show Outcome k (w :: words s') list (if (w ++ (s' ++ [0#8])).head? = some 0#8 then _ else _)
      rw [if_neg hhead]
      exact .round hplain ht hlen.2 fun list => loop_words hlen.1 fun h =>
        hnul (List.mem_append_right _ (List.mem_append_right _ h))

/-! ## Items of the grammar -/

theorem takeWhile_digits {d m : List Byte} {c : Byte} (hd : Digits d) (hc : isdigit c = false) :
    (d ++ c :: m).takeWhile isdigit = d ∧ (d ++ c :: m).dropWhile isdigit = c :: m := by
  have htake : (d ++ c :: m).takeWhile isdigit = d := by
    rw [List.takeWhile_append_of_pos hd, List.takeWhile_cons_of_neg (by simp [hc]), List.append_nil]
  refine ⟨htake, ?_⟩
  have hsplit : (d ++ c :: m).takeWhile isdigit ++ (d ++ c :: m).dropWhile isdigit = d ++ c :: m :=
    List.takeWhile_append_dropWhile
  rw [htake] at hsplit
  exact List.append_cancel_left hsplit

theorem Digits.field {d m : List Byte} (hd : Digits d) (part : Nat × Byte) (hstop : isdigit part.2 = false) (hleast : part.1 ≤ value d)
    (hmost : value d ≤ 255) : Field part (d ++ part.2 :: m) m := by
  obtain ⟨htake, hdrop⟩ := takeWhile_digits (m := m) hd hstop
  refine ⟨hdrop, ?_⟩
  rw [htake]
  exact ⟨hleast, hmost⟩

/-- The address of an item has no colon. -/
theorem takeWhile_colon {a m : List Byte} (ha : ∀ c ∈ a, c ≠ 58#8) :
    (a ++ 58#8 :: m).takeWhile (· ≠ 58#8) = a ∧ (a ++ 58#8 :: m).dropWhile (· ≠ 58#8) = 58#8 :: m := by
  have ha' : ∀ c ∈ a, decide (c ≠ 58#8) = true := fun c hc => decide_eq_true (ha c hc)
  constructor
  · rw [List.takeWhile_append_of_pos ha', List.takeWhile_cons_of_neg (by decide), List.append_nil]
  · rw [List.dropWhile_append_of_pos ha', List.dropWhile_cons_of_neg (by decide)]

theorem Digits.no_colon {d : List Byte} (hd : Digits d) : ∀ c ∈ d, c ≠ 58#8 := by
  rintro c hc rfl
  exact absurd (hd _ hc) (by decide)

/-- An item of the grammar is read, and it is stored as it should be. -/
theorem Strict.reads (h : Strict w) : ∃ n, Reads w n (itemOf k w).port [] ∧ n ≤ 15 ∧
    w.take n = (itemOf k w).ipaddr := by
  obtain ⟨d₁, d₂, d₃, d₄, d₅, ⟨htext, hoctets, hends, hport⟩⟩ := h
  simp only [List.forall_mem_cons, List.not_mem_nil, false_implies, implies_true, and_true] at hoctets
  obtain ⟨⟨hd₁, -, hl₁, hv₁⟩, ⟨hd₂, -, hl₂, hv₂⟩, ⟨hd₃, -, hl₃, hv₃⟩, ⟨hd₄, -, hl₄, hv₄⟩⟩ := hoctets
  obtain ⟨hd₅, hleast, hmost⟩ := hport
  have haddr : w = (d₁ ++ 46#8 :: (d₂ ++ 46#8 :: (d₃ ++ 46#8 :: d₄))) ++ 58#8 :: d₅ := by
    rw [htext]
    simp only [List.append_assoc, List.cons_append]
  have hcolon : ∀ c ∈ d₁ ++ 46#8 :: (d₂ ++ 46#8 :: (d₃ ++ 46#8 :: d₄)), c ≠ 58#8 := by
    intro c hc
    simp only [List.mem_append, List.mem_cons] at hc
    rcases hc with hc | rfl | hc | rfl | hc | rfl | hc
    · exact hd₁.no_colon c hc
    · decide
    · exact hd₂.no_colon c hc
    · decide
    · exact hd₃.no_colon c hc
    · decide
    · exact hd₄.no_colon c hc
  obtain ⟨htake, hdrop⟩ := takeWhile_colon (m := d₅) hcolon
  have hitem : itemOf k w = ⟨k, d₁ ++ 46#8 :: (d₂ ++ 46#8 :: (d₃ ++ 46#8 :: d₄)), value d₅⟩ := by
    unfold itemOf
    rw [haddr, htake, hdrop]
    rfl
  have hfields : Fields parts w d₅ := by
    rw [htext]
    exact ⟨_, hd₁.field (1, 46#8) rfl hends.1 hv₁, _, hd₂.field (0, 46#8) rfl (Nat.zero_le _) hv₂,
      _, hd₃.field (0, 46#8) rfl (Nat.zero_le _) hv₃, _, hd₄.field (1, 58#8) rfl hends.2 hv₄, rfl⟩
  have hlen : w.length - d₅.length - 1 = (d₁ ++ 46#8 :: (d₂ ++ 46#8 :: (d₃ ++ 46#8 :: d₄))).length := by
    rw [haddr, List.length_append, List.length_cons]
    omega
  refine ⟨_, ⟨d₅, hfields, rfl, ?_, ?_, ?_, ?_⟩, ?_, ?_⟩
  · rw [hitem, List.takeWhile_eq_self_iff.mpr hd₅]
  · rw [hitem]
    exact hleast
  · rw [hitem]
    exact hmost
  · exact (List.dropWhile_eq_nil_iff.mpr hd₅).symm
  · rw [hlen]
    simp only [List.length_append, List.length_cons]
    omega
  · rw [hitem, hlen, haddr]
    exact List.take_left

theorem Strict.loose (h : Strict w) : Loose w := by
  obtain ⟨n, hreads, hn, -⟩ := h.reads (k := 0)
  refine ⟨n, _, hreads, ?_⟩
  rw [toInt_of_lt (by omega)]
  omega

theorem Listed.eq_items : ∀ {ws : List (List Byte)} {k : Nat} {l : List IplistItem}, Listed k ws l →
    (∀ w ∈ ws, Strict w) → l = items k ws
  | [], _, _, rfl, _ => rfl
  | w :: ws, k, _, ⟨n, port, l, hreads, rfl, h⟩, hstrict => by
    obtain ⟨n', hreads', hn', htext⟩ := (hstrict w List.mem_cons_self).reads (k := k)
    obtain ⟨rfl, rfl, -⟩ := hreads.inj hreads'
    rw [h.eq_items fun w hw => hstrict w (List.mem_cons_of_mem _ hw), toInt_of_lt (by omega), Int.toNat_natCast, htext]
    rfl

/-! ## The parse -/

variable {s : CStr} {fuel : Nat}

theorem parse_not_safe (hfuel : s.val.length < fuel) (h : ¬AllSafe 0 (words s.val)) : iplistParse fuel s = none := by
  have hloop : Outcome 0 (words s.val) [] _ := loop_words hfuel s.prop
  unfold iplistParse
  match loop fuel 0 (s.val ++ [0#8]) [], hloop with
  | .error .fault, _ => rfl
  | .error .errIplist, hloop => exact absurd hloop.1 h
  | .ok _, hloop => exact absurd hloop.1 h

theorem parse_refused (hfuel : s.val.length < fuel) (h : AllSafe 0 (words s.val))
    (hloose : ¬∀ w ∈ words s.val, Loose w) : iplistParse fuel s = some none := by
  have hloop : Outcome 0 (words s.val) [] _ := loop_words hfuel s.prop
  unfold iplistParse
  match loop fuel 0 (s.val ++ [0#8]) [], hloop with
  | .error .fault, hloop => exact absurd h hloop
  | .error .errIplist, _ => rfl
  | .ok _, hloop => exact absurd hloop.2.1 hloose

theorem parse_listed (hfuel : s.val.length < fuel) (h : AllSafe 0 (words s.val)) (hloose : ∀ w ∈ words s.val, Loose w) :
    ∃ l, Listed 0 (words s.val) l ∧ iplistParse fuel s = some (if l.length = 0 then none else some l) := by
  have hloop : Outcome 0 (words s.val) [] _ := loop_words hfuel s.prop
  unfold iplistParse
  match loop fuel 0 (s.val ++ [0#8]) [], hloop with
  | .error .fault, hloop => exact absurd h hloop
  | .error .errIplist, hloop => exact absurd hloose hloop.2
  | .ok _, ⟨_, _, l, rfl, hlisted⟩ => exact ⟨l, hlisted, rfl⟩

/-- `iplist_parse` is right on exactly the strings where no number overflows and no word has an
octet that it lets through by mistake, or another word is refused anyway. -/
theorem parse_right_iff (s : CStr) : Parses s ↔ Meets s.val := by
  constructor
  · rintro ⟨r, hrun, hsome, -⟩
    have hrun := hrun _ (Nat.lt_succ_self _)
    have hsafe : AllSafe 0 (words s.val) := by
      by_contra hnot
      rw [parse_not_safe (Nat.lt_succ_self _) hnot] at hrun
      exact absurd hrun.symm (Option.some_ne_none r)
    refine ⟨hsafe, fun hloose => ?_⟩
    obtain ⟨l, hlisted, hparse⟩ := parse_listed (Nat.lt_succ_self _) hsafe hloose
    have hr : (if l.length = 0 then none else some l) = r := Option.some.inj (hparse.symm.trans hrun)
    by_cases hnone : words s.val = []
    · intro w hw
      rw [hnone] at hw
      exact absurd hw List.not_mem_nil
    · have hlen : l.length ≠ 0 := by
        rw [hlisted.length_eq]
        exact fun h => hnone (List.length_eq_zero_iff.mp h)
      rw [if_neg hlen] at hr
      exact (hsome.mp (by rw [← hr]; rfl)).2
  · rintro ⟨hsafe, hstrict⟩
    by_cases hloose : ∀ w ∈ words s.val, Loose w
    · obtain ⟨l, hlisted, -⟩ := parse_listed (Nat.lt_succ_self _) hsafe hloose
      refine ⟨if l.length = 0 then none else some l, fun fuel hfuel => ?_, ?_, ?_⟩
      · obtain ⟨l', hlisted', hparse⟩ := parse_listed hfuel hsafe hloose
        rw [hlisted.inj hlisted', hparse]
      · have hlen := hlisted.length_eq
        by_cases hnone : words s.val = []
        · rw [hnone] at hlen
          simp [hlen, hnone, Grammar]
        · have hne : l.length ≠ 0 := by
            rw [hlen]
            exact fun h => hnone (List.length_eq_zero_iff.mp h)
          rw [if_neg hne]
          exact iff_of_true rfl ⟨hnone, hstrict hloose⟩
      · intro list hlist
        split at hlist
        · exact absurd hlist (Option.some_ne_none list).symm
        · rw [← Option.some.inj hlist]
          exact hlisted.eq_items (hstrict hloose)
    · refine ⟨none, fun fuel hfuel => parse_refused hfuel hsafe hloose, ?_,
        fun list h => absurd h (Option.some_ne_none list).symm⟩
      refine iff_of_false Bool.false_ne_true fun h => hloose fun w hw => (h.2 w hw).loose

/-- `1...4:80` is taken for an address, and `99999999999` makes an `int` overflow. -/
theorem parse_wrong :
    iplistParse 9 ⟨[49#8, 46#8, 46#8, 46#8, 52#8, 58#8, 56#8, 48#8], by decide⟩ =
      some (some [⟨0, [49#8, 46#8, 46#8, 46#8, 52#8], 80⟩]) ∧
    ¬Parses ⟨[49#8, 46#8, 46#8, 46#8, 52#8, 58#8, 56#8, 48#8], by decide⟩ ∧
    iplistParse 12 ⟨List.replicate 11 57#8, by decide⟩ = none ∧ ¬Parses ⟨List.replicate 11 57#8, by decide⟩ := by
  have hrun : iplistParse 9 ⟨[49#8, 46#8, 46#8, 46#8, 52#8, 58#8, 56#8, 48#8], by decide⟩ =
      some (some [⟨0, [49#8, 46#8, 46#8, 46#8, 52#8], 80⟩]) := by decide
  have hfault : iplistParse 12 ⟨List.replicate 11 57#8, by decide⟩ = none := by decide
  refine ⟨hrun, ?_, hfault, ?_⟩
  · rintro ⟨r, hr, hsome, -⟩
    have hr' := Option.some.inj ((hr 9 (by decide)).symm.trans hrun)
    have hgrammar := hsome.mp (by rw [hr']; rfl)
    have hwords : words [49#8, 46#8, 46#8, 46#8, 52#8, 58#8, 56#8, 48#8] =
        [[49#8, 46#8, 46#8, 46#8, 52#8, 58#8, 56#8, 48#8]] :=
      words_word (w := [49#8, 46#8, 46#8, 46#8, 52#8, 58#8, 56#8, 48#8]) (s := []) (by decide) (by decide)
        fun c hc => absurd hc (Option.some_ne_none c).symm
    obtain ⟨d₁, d₂, d₃, d₄, d₅, hitem⟩ := hgrammar.2 _ (by rw [hwords]; exact List.mem_singleton_self _)
    -- the first octet is 1, so there is nothing left for the second
    have hd₁ := hitem.octets d₁ (by simp)
    have hd₂ := hitem.octets d₂ (by simp)
    have hbehind := (takeWhile_digits (m := d₂ ++ 46#8 :: (d₃ ++ 46#8 :: (d₄ ++ 58#8 :: d₅))) hd₁.1
      (by decide : isdigit 46#8 = false)).2
    rw [← hitem.text] at hbehind
    have hsecond := (List.cons.inj hbehind).2
    have hnone := (takeWhile_digits (m := d₃ ++ 46#8 :: (d₄ ++ 58#8 :: d₅)) hd₂.1 (by decide : isdigit 46#8 = false)).1
    rw [← hsecond] at hnone
    have hlen := hd₂.2.1
    rw [← hnone] at hlen
    exact absurd hlen (by decide)
  · rintro ⟨r, hr, -⟩
    exact absurd ((hr 12 (by decide)).symm.trans hfault) (Option.some_ne_none r)

end BeehiveIm.Core.Iplist
