/-
The dictionary of addresses (`lib/comm/ipdict.go`): the ranges of addresses with their nations and
operators, as they are read from a text, and the search for the range of an address. An index
outside a list is a panic.
-/
import BeehiveIm.Lib.Bisect
import BeehiveIm.Lib.Strconv
import Mathlib.Data.List.Chain

namespace BeehiveIm.IpDict

open BeehiveIm.Lib

/-- `IpDictItem` -/
structure IpDictItem where
  startIp : BitVec 32
  endIp : BitVec 32
  opid : BitVec 32
  operator : List Byte
  nation : List Byte
  deriving DecidableEq

/-- The loop of `Ipv4Str2Uint32`. -/
def ipv4Loop : List (List Byte) → BitVec 32 → BitVec 32
  | [], ip => ip
  | seg :: segment, ip =>
    let digit := strconvParseInt 0 32 seg
    if 255 < digit then 0 else ipv4Loop segment (ip + BitVec.ofInt 32 (digit * 2 ^ (8 * segment.length)))

/-- `Ipv4Str2Uint32` -/
def ipv4Str2Uint32 (ipv4 : List Byte) : BitVec 32 :=
  let segment := ipv4.splitOn 46#8
  if segment.length ≠ 4 then 0 else ipv4Loop segment 0

/-! ## Lines -/

/-- A line, given backwards, without the carriage return at its end. -/
def dropCr : List Byte → List Byte
  | 13#8 :: line => line.reverse
  | line => line.reverse

/-- The lines of a text as `bufio.Reader.ReadLine` returns them one by one, `buf` being what its
buffer has of the next, backwards. A line that the buffer does not hold comes in parts. -/
def readLines (buf : List Byte) : List Byte → List (List Byte)
  | [] =>
    if buf = [] then []
    else if buf.length < 4096 then [buf.reverse]
    else
      match buf with
      | 13#8 :: line => [line.reverse, [13#8]]
      | line => [line.reverse]
  | b :: text =>
    if buf.length < 4096 then
      if b = 10#8 then dropCr buf :: readLines [] text else readLines (b :: buf) text
    else
      -- a carriage return at the end of a full buffer is put back
      match buf with
      | 13#8 :: line =>
        line.reverse :: if b = 10#8 then [] :: readLines [] text else readLines [b, 13#8] text
      | line => line.reverse :: if b = 10#8 then [] :: readLines [] text else readLines [b] text

/-! ## Loading -/

/-- The item of a line that has five fields: the operator's number is the seventh. -/
def parseItem (segment : List (List Byte)) : Option IpDictItem := do
  let start ← segment[0]?
  let stop ← segment[1]?
  let opid ← segment[6]?
  let operator ← segment.getLast?
  let nation ← segment[2]?
  return ⟨ipv4Str2Uint32 start, ipv4Str2Uint32 stop, ipv4Str2Uint32 opid, operator, nation⟩

/-- What loading comes to where it does not panic. -/
abbrev Loaded := Except String (List IpDictItem)

def loadLines : List (List Byte) → List IpDictItem → Option Loaded
  | [], items => some (.ok items)
  | line :: lines, items =>
    let idx := items.length + 1
    let segment := line.splitOn 44#8
    if segment.length < 5 then some (.error ("Data isn't right! line:" ++ toString idx))
    else
      match parseItem segment with
      | none => none
      | some item =>
        if item.startIp = 0 ∨ item.endIp = 0 ∨ item.nation = [] ∨ item.operator = [] then
          some (.error ("Data isn't right! line:" ++ toString idx))
        else
          match items.getLast? with
          | none => loadLines lines (items ++ [item])
          | some last =>
            if item.startIp ≤ last.endIp then some (.error ("Ip addr less than last line! line:" ++ toString idx))
            else loadLines lines (items ++ [item])

/-- `LoadIpDict` of a file that can be read -/
def loadIpDict (text : List Byte) : Option Loaded := loadLines (readLines [] text) []

/-! ## Searching -/

/-- `dict.items[i]` -/
def itemAt (items : List IpDictItem) (i : Int) : Option IpDictItem := if i < 0 then none else items[i.toNat]?

/-- The loop that lowers `high`. -/
def lower (items : List IpDictItem) (ip : BitVec 32) (low : Int) : Nat → Int → Option Int
  | 0, _ => none
  | fuel + 1, high => do
    let item ← itemAt items ((low + high).tdiv 2)
    if ip < item.startIp ∧ low ≤ high then lower items ip low fuel ((low + high).tdiv 2 - 1) else some high

/-- The loop that raises `low`. -/
def raise (items : List IpDictItem) (ip : BitVec 32) (high : Int) : Nat → Int → Option Int
  | 0, _ => none
  | fuel + 1, low => do
    let item ← itemAt items ((low + high).tdiv 2)
    if item.endIp < ip ∧ low ≤ high then raise items ip high fuel ((low + high).tdiv 2 + 1) else some low

/-- Whether the address is in the item's range. -/
def IpDictItem.Has (item : IpDictItem) (ip : BitVec 32) : Prop := item.startIp ≤ ip ∧ ip ≤ item.endIp

instance (item : IpDictItem) (ip : BitVec 32) : Decidable (item.Has ip) := inferInstanceAs (Decidable (_ ∧ _))

/-- The outer loop. -/
def search (items : List IpDictItem) (ip : BitVec 32) : Nat → Int → Int → Option (Option IpDictItem)
  | 0, _, _ => none
  | fuel + 1, low, high =>
    if high < low then some none
    else do
      let item ← itemAt items ((low + high).tdiv 2)
      if item.Has ip then some (some item)
      else
        let high ← lower items ip low (items.length + 1) high
        let low ← raise items ip high (items.length + 1) low
        search items ip fuel low high

/-- `Query`; `none` is a panic, or a loop that does not end. -/
def query (items : List IpDictItem) (ipv4 : List Byte) : Option (Option IpDictItem) :=
  if items.length = 0 then some none
  else
    let ip := ipv4Str2Uint32 ipv4
    if ip = 0 then some none else search items ip (items.length + 1) 0 (items.length - 1)

/-! # The search

What the search of the dictionary returns, for every text that is loaded. Where a line may end
before it starts, the search can be led past the range that has the address.
-/

variable {items : List IpDictItem} {item : IpDictItem} {ip : BitVec 32} {lo hi fuel : Nat} {up : Bool}

/-! ## What is loaded -/

/-- No address is zero, and every range starts behind the end of the one before. -/
structure Accepted (items : List IpDictItem) : Prop where
  start_ne : ∀ item ∈ items, item.startIp ≠ 0
  end_ne : ∀ item ∈ items, item.endIp ≠ 0
  chain : items.IsChain fun a b => a.endIp < b.startIp

/-- One line more. -/
theorem Accepted.concat (h : Accepted items) (hstart : item.startIp ≠ 0) (hend : item.endIp ≠ 0)
    (hlast : ∀ last, items.getLast? = some last → last.endIp < item.startIp) : Accepted (items ++ [item]) where
  start_ne := List.forall_mem_append.2 ⟨h.start_ne, List.forall_mem_singleton.2 hstart⟩
  end_ne := List.forall_mem_append.2 ⟨h.end_ne, List.forall_mem_singleton.2 hend⟩
  chain := by
    rw [List.isChain_append]
    refine ⟨h.chain, .singleton _, ?_⟩
    rintro last hl _ ⟨⟩
    exact hlast last hl

theorem accepted_loadLines : ∀ (lines : List (List Byte)) {items items' : List IpDictItem}, Accepted items →
    loadLines lines items = some (.ok items') → Accepted items'
  | [], items, items', h, hload => by
    cases hload
    exact h
  | line :: lines, items, items', h, hload => by
    rw [loadLines] at hload
    split at hload
    · cases hload
    · split at hload
      · cases hload
      · rename_i item hitem
        split at hload
        · cases hload
        · rename_i hfields
          rw [not_or, not_or] at hfields
          split at hload
          · rename_i hnone
            exact accepted_loadLines lines (h.concat hfields.1 hfields.2.1 (by simp [hnone])) hload
          · rename_i last hlast
            split at hload
            · cases hload
            · rename_i hlt
              refine accepted_loadLines lines (h.concat hfields.1 hfields.2.1 fun last' hl => ?_) hload
              obtain rfl := Option.some.inj (hlast.symm.trans hl)
              exact BitVec.not_le.1 hlt

theorem accepted_loadIpDict {text : List Byte} (h : loadIpDict text = some (.ok items)) : Accepted items :=
  accepted_loadLines _ ⟨by simp, by simp, .nil⟩ h

/-! ## The loops -/

/-- The item at a probe, if it has the address. -/
def found (items : List IpDictItem) (ip : BitVec 32) (i : Nat) : Option IpDictItem :=
  items[i]?.filter fun item => item.Has ip

/-- The side on which the loops go on from an item that does not have the address. An item that ends
before the address and starts behind it leaves both open: the loop that is under way goes on. -/
def right (items : List IpDictItem) (ip : BitVec 32) (up : Bool) (i : Nat) : Bool :=
  match items[i]? with
  | none => false
  | some item => if ip < item.startIp then decide (item.endIp < ip) && up else true

theorem mid_eq (hle : lo ≤ hi) : ((lo : Int) + ((hi : Int) - 1)).tdiv 2 = ((lo + hi - 1) / 2 : Nat) := by
  rcases Nat.eq_zero_or_pos (lo + hi) with h | h
  · obtain ⟨rfl, rfl⟩ : lo = 0 ∧ hi = 0 := by omega
    rfl
  · rw [Int.tdiv_eq_ediv_of_nonneg (by omega)]
    omega

/-- A probe is within the list, also where the interval is empty. -/
theorem itemAt_mid (hle : lo ≤ hi) (hhi : hi ≤ items.length) (hne : items ≠ []) :
    ∃ item, items[(lo + hi - 1) / 2]? = some item ∧ itemAt items
    (((lo : Int) + ((hi : Int) - 1)).tdiv 2) = some item := by
  have hpos := List.length_pos_iff.2 hne
  have hlt : (lo + hi - 1) / 2 < items.length := by omega
  refine ⟨items[(lo + hi - 1) / 2], List.getElem?_eq_getElem hlt, ?_⟩
  rw [mid_eq hle, itemAt, if_neg (by omega), Int.toNat_natCast, List.getElem?_eq_getElem hlt]

theorem found_eq_none (hitem : items[(lo + hi - 1) / 2]? = some item) (h : ¬item.Has ip) :
    found items ip ((lo + hi - 1) / 2) = none := by
  rw [found, hitem, Option.filter_some, if_neg (by simpa using h)]

theorem right_eq (hitem : items[(lo + hi - 1) / 2]? = some item) :
    right items ip up ((lo + hi - 1) / 2) = if ip < item.startIp then decide (item.endIp < ip) && up else true := by
  rw [right, hitem]

/-- The first inner loop leaves the rest of the search, as it goes on to the right if at all. -/
theorem lower_spec (ip : BitVec 32) (hne : items ≠ []) :
    ∀ (fuel hi : Nat), lo ≤ hi → hi ≤ items.length → hi - lo < fuel →
    ∃ hi' : Nat, lower items ip lo fuel ((hi : Int) - 1) = some ((hi' : Int) - 1) ∧ lo ≤ hi' ∧ hi' ≤ hi ∧
      bisect (found items ip) (right items ip) lo hi false = bisect (found items ip) (right items ip) lo hi' true ∧
      (hi' = hi → lo < hi → ∀ item, items[(lo + hi - 1) / 2]? = some item → item.startIp ≤ ip)
  | 0, _, _, _, hfuel => absurd hfuel (Nat.not_lt_zero _)
  | fuel + 1, hi, hle, hhi, hfuel => by
    obtain ⟨item, hitem, hat⟩ := itemAt_mid hle hhi hne
    have hstep : lower items ip lo (fuel + 1) ((hi : Int) - 1) = if ip < item.startIp ∧ (lo : Int) ≤ (hi : Int) - 1 then
        lower items ip lo fuel (((lo + hi - 1) / 2 : Nat) - 1) else some ((hi : Int) - 1) := by
      rw [lower, hat, mid_eq hle]
      rfl
    rw [hstep]
    by_cases h : ip < item.startIp ∧ (lo : Int) ≤ (hi : Int) - 1
    · obtain ⟨hi', hrun, hlo', hhi', hb, -⟩ :=
        lower_spec ip hne fuel ((lo + hi - 1) / 2) (by omega) (by omega) (by omega)
      refine ⟨hi', (if_pos h).trans hrun, hlo', by omega, ?_, fun he => by omega⟩
      rw [← hb]
      refine bisect_left (by omega) (found_eq_none hitem fun hhas => ?_) ?_
      · exact absurd hhas.1 (BitVec.not_le.2 h.1)
      · rw [right_eq hitem, if_pos h.1, Bool.and_false]
    · have hstart : lo < hi → item.startIp ≤ ip := fun hlt => BitVec.not_lt.1 fun hip => h ⟨hip, by omega⟩
      refine ⟨hi, if_neg h, hle, le_rfl, bisect_up fun hlt => ?_, fun _ hlt item' hitem' => ?_⟩
      · rw [right_eq hitem, right_eq hitem, if_neg (BitVec.not_lt.2 (hstart hlt)),
          if_neg (BitVec.not_lt.2 (hstart hlt))]
      · obtain rfl := Option.some.inj (hitem.symm.trans hitem')
        exact hstart hlt

/-- The second leaves the rest as it goes on from the outer loop. -/
theorem raise_spec (ip : BitVec 32) (hne : items ≠ []) (hhi : hi ≤ items.length) :
    ∀ (fuel lo : Nat), lo ≤ hi → hi - lo < fuel →
    ∃ lo' : Nat, raise items ip ((hi : Int) - 1) fuel lo = some (lo' : Int) ∧ lo ≤ lo' ∧ lo' ≤ hi ∧
      bisect (found items ip) (right items ip) lo hi true = bisect (found items ip) (right items ip) lo' hi false ∧
      (lo' = lo → lo < hi → ∀ item, items[(lo + hi - 1) / 2]? = some item → ip ≤ item.endIp)
  | 0, _, _, hfuel => absurd hfuel (Nat.not_lt_zero _)
  | fuel + 1, lo, hle, hfuel => by
    obtain ⟨item, hitem, hat⟩ := itemAt_mid hle hhi hne
    have hstep : raise items ip ((hi : Int) - 1) (fuel + 1) lo = if item.endIp < ip ∧ (lo : Int) ≤ (hi : Int) - 1 then
        raise items ip ((hi : Int) - 1) fuel (((lo + hi - 1) / 2 + 1 : Nat) : Int) else some (lo : Int) := by
      rw [raise, hat, mid_eq hle]
      rfl
    rw [hstep]
    by_cases h : item.endIp < ip ∧ (lo : Int) ≤ (hi : Int) - 1
    · obtain ⟨lo', hrun, hlo', hhi', hb, -⟩ := raise_spec ip hne hhi fuel ((lo + hi - 1) / 2 + 1) (by omega) (by omega)
      refine ⟨lo', (if_pos h).trans hrun, by omega, hhi', ?_, fun he => by omega⟩
      rw [← hb]
      refine bisect_right (by omega) (found_eq_none hitem fun hhas => ?_) ?_
      · exact absurd hhas.2 (BitVec.not_le.2 h.1)
      · rw [right_eq hitem, decide_eq_true h.1]
        exact ite_self _
    · have hend : lo < hi → ip ≤ item.endIp := fun hlt => BitVec.not_lt.1 fun hip => h ⟨hip, by omega⟩
      refine ⟨lo, if_neg h, le_rfl, hle, bisect_up fun hlt => ?_, fun _ hlt item' hitem' => ?_⟩
      · rw [right_eq hitem, right_eq hitem, decide_eq_false (BitVec.not_lt.2 (hend hlt)), Bool.false_and,
          Bool.false_and]
      · obtain rfl := Option.some.inj (hitem.symm.trans hitem')
        exact hend hlt

/-- The loops end, stay within the list and come to what the search by halves does. -/
theorem search_eq (ip : BitVec 32) (hne : items ≠ []) :
    ∀ (fuel lo hi : Nat), lo ≤ hi → hi ≤ items.length → hi - lo < fuel →
    search items ip fuel lo ((hi : Int) - 1) = some (bisect (found items ip) (right items ip) lo hi false)
  | 0, _, _, _, _, hfuel => absurd hfuel (Nat.not_lt_zero _)
  | fuel + 1, lo, hi, hle, hhi, hfuel => by
    obtain ⟨item, hitem, hat⟩ := itemAt_mid hle hhi hne
    by_cases hlt : lo < hi
    · by_cases hhas : item.Has ip
      · rw [search, if_neg (by omega), hat]
        refine (if_pos hhas).trans ?_
        rw [bisect_found hlt (a := item)]
        rw [found, hitem, Option.filter_some, if_pos (by simpa using hhas)]
      · obtain ⟨hi', hlow, hle', hhi', hb, hstay⟩ := lower_spec ip hne (items.length + 1) hi hle hhi (by omega)
        obtain ⟨lo', hraise, hlo', hle'', hb', hstay'⟩ :=
          raise_spec ip hne (hhi'.trans hhi) (items.length + 1) lo hle' (by omega)
        -- one of the two loops has moved
        have hmoved : hi' - lo' < hi - lo := by
          by_contra hnot
          obtain rfl : hi' = hi := by omega
          obtain rfl : lo' = lo := by omega
          exact hhas ⟨hstay rfl hlt item hitem, hstay' rfl hlt item hitem⟩
        have hrest := search_eq ip hne fuel lo' hi' (by omega) (by omega) (by omega)
        rw [search, if_neg (by omega), hat]
        refine (if_neg hhas).trans ?_
        rw [hlow]
        change (raise items ip ((hi' : Int) - 1) (items.length + 1) lo).bind _ = _
        rw [hraise, hb, hb']
        exact hrest
    · rw [search, if_pos (by omega), bisect_empty (by omega)]

/-! ## What is found -/

theorem found_isSome {i : Nat} : (found items ip i).isSome ↔ ∃ item, items[i]? = some item ∧ item.Has ip := by
  unfold found
  cases items[i]? with
  | none => simp
  | some item => by_cases h : item.Has ip <;> simp [h]

theorem mem_of_found {i : Nat} (h : found items ip i = some item) : item ∈ items ∧ item.Has ip := by
  obtain ⟨hitem, hhas⟩ := Option.filter_eq_some_iff.1 h
  exact ⟨List.mem_of_getElem? hitem, by simpa using hhas⟩

/-- Some item that has the address is the one that the halves lead to. -/
def Reached (items : List IpDictItem) (ip : BitVec 32) : Prop :=
  ∃ j < items.length, (found items ip j).isSome ∧ LedTo (found items ip) (right items ip) j 0 items.length false

/-- The search ends within the list, with an item that has the address if there is one. -/
def Right (items : List IpDictItem) (ipv4 : List Byte) : Prop :=
  match query items ipv4 with
  | none => False
  | some none => ∀ item ∈ items, ¬item.Has (ipv4Str2Uint32 ipv4)
  | some (some item) => item ∈ items ∧ item.Has (ipv4Str2Uint32 ipv4)

theorem query_eq (h : Accepted items) (ipv4 : List Byte) : query items ipv4 =
    some (bisect (found items (ipv4Str2Uint32 ipv4)) (right items (ipv4Str2Uint32 ipv4)) 0 items.length false) := by
  unfold query
  by_cases hne : items = []
  · subst hne
    exact (if_pos rfl).trans (congrArg some (bisect_empty le_rfl).symm)
  · rw [if_neg (by simpa using hne)]
    by_cases hip : ipv4Str2Uint32 ipv4 = 0
    · refine (if_pos hip).trans (congrArg some ?_)
      cases hb : bisect (found items (ipv4Str2Uint32 ipv4))
        (right items (ipv4Str2Uint32 ipv4)) 0 items.length false with
      | none => rfl
      | some item =>
        -- no range has the address 0
        obtain ⟨i, -, -, hi⟩ := found_of_bisect hb
        obtain ⟨hmem, hstart, -⟩ := mem_of_found hi
        rw [hip] at hstart
        exact absurd (BitVec.le_zero_iff.1 hstart) (h.start_ne item hmem)
    · exact (if_neg hip).trans (search_eq (ipv4Str2Uint32 ipv4) hne (items.length + 1) 0 items.length
        (Nat.zero_le _) le_rfl (by omega))

/-- The search ends within the list, whatever the list. -/
theorem query_isSome (items : List IpDictItem) (ipv4 : List Byte) : (query items ipv4).isSome := by
  unfold query
  by_cases hne : items = []
  · rw [if_pos (by simpa using hne)]
    rfl
  · rw [if_neg (by simpa using hne)]
    by_cases hip : ipv4Str2Uint32 ipv4 = 0
    · simp [hip]
    · have := search_eq (ipv4Str2Uint32 ipv4) hne (items.length + 1) 0 items.length (Nat.zero_le _) le_rfl (by omega)
      simp only [hip, if_false]
      exact Option.isSome_iff_exists.2 ⟨_, this⟩

theorem reached_iff : Reached items ip ↔ (bisect (found items ip) (right items ip) 0 items.length false).isSome := by
  rw [bisect_isSome_iff]
  exact exists_congr fun j => (and_iff_right (Nat.zero_le j)).symm

theorem right_iff (h : Accepted items) (ipv4 : List Byte) : Right items ipv4 ↔
    ((∃ item ∈ items, item.Has (ipv4Str2Uint32 ipv4)) → Reached items (ipv4Str2Uint32 ipv4)) := by
  rw [reached_iff, Right, query_eq h]
  cases hb : bisect (found items (ipv4Str2Uint32 ipv4)) (right items (ipv4Str2Uint32 ipv4)) 0 items.length false with
  | none => simp
  | some item =>
    obtain ⟨i, -, -, hi⟩ := found_of_bisect hb
    exact iff_of_true (mem_of_found hi) fun _ => rfl

/-- Over every text that is loaded: the search always ends within the list, and is right just if the
halves lead to an item that has the address where there is one. -/
theorem query_right_iff {text : List Byte} (h : loadIpDict text = some (.ok items)) (ipv4 : List Byte) :
    (query items ipv4).isSome ∧ (Right items ipv4 ↔
      ((∃ item ∈ items, item.Has (ipv4Str2Uint32 ipv4)) → Reached items (ipv4Str2Uint32 ipv4))) :=
  ⟨query_isSome items ipv4, right_iff (accepted_loadIpDict h) ipv4⟩

/-- Two ranges, of which the first ends before it starts. -/
def invertedText : List Byte :=
  ascii "0.0.0.100,0.0.0.50,CN,,,,0,op\n0.0.0.60,0.0.0.70,CN,,,,0,op\n".toList

def invertedItems : List IpDictItem :=
  [⟨100, 50, 0, ascii ['o', 'p'], ascii ['C', 'N']⟩, ⟨60, 70, 0, ascii ['o', 'p'], ascii ['C', 'N']⟩]

theorem load_inverted : loadIpDict invertedText = some (.ok invertedItems) := by
  rfl

theorem query_right_inverted : (query invertedItems (ascii "0.0.0.65".toList)).isSome ∧ (Right invertedItems (ascii "0.0.0.65".toList) ↔
    ((∃ item ∈ invertedItems, item.Has (ipv4Str2Uint32 (ascii "0.0.0.65".toList))) →
      Reached invertedItems (ipv4Str2Uint32 (ascii "0.0.0.65".toList)))) :=
  query_right_iff load_inverted _

/-- The address 0.0.0.65 is in the second, and is not found. -/
theorem query_inverted : ¬∀ (text : List Byte) (items : List IpDictItem), loadIpDict text = some (.ok items) →
    ∀ ipv4 : List Byte, Right items ipv4 := by
  intro h
  have hright := h invertedText invertedItems load_inverted (ascii "0.0.0.65".toList)
  have hnil : query invertedItems (ascii "0.0.0.65".toList) = some none := by decide
  rw [Right, hnil] at hright
  exact absurd (hright ⟨60, 70, 0, ascii ['o', 'p'], ascii ['C', 'N']⟩ (by decide)) (by decide)

/-! ## Dictionaries in order -/

theorem Accepted.end_lt_start (h : Accepted items) (hord : ∀ item ∈ items, item.startIp ≤ item.endIp) {i j : Nat}
    (hij : i < j) (hj : j < items.length) : items[i].endIp < items[j].startIp := by
  induction j, hij using Nat.le_induction with
  | base => exact List.isChain_iff_getElem.1 h.chain i hj
  | succ j hij ih =>
    have hbefore : items[i].endIp < items[j].startIp := ih (by omega)
    have hrange : items[j].startIp ≤ items[j].endIp := hord _ (List.getElem_mem _)
    have hnext : items[j].endIp < items[j + 1].startIp := List.isChain_iff_getElem.1 h.chain j hj
    rw [BitVec.lt_def] at hbefore hnext ⊢
    rw [BitVec.le_def] at hrange
    omega

/-- Where no range ends before it starts, every address is found that is in a range. -/
theorem right_of_ordered (h : Accepted items) (hord : ∀ item ∈ items, item.startIp ≤ item.endIp) (ipv4 : List Byte) :
    Right items ipv4 := by
  refine (right_iff h ipv4).2 fun ⟨item, hmem, hhas⟩ => reached_iff.2 ?_
  obtain ⟨j, hj, rfl⟩ := List.mem_iff_getElem.1 hmem
  refine bisect_isSome_of_ordered (j := j) (fun up i _ hi hnone => ?_) (Nat.zero_le j) hj
    (found_isSome.2 ⟨_, List.getElem?_eq_getElem hj, hhas⟩)
  have hrange := hord _ (List.getElem_mem hi)
  rw [right, List.getElem?_eq_getElem hi]
  obtain ⟨hstart, hend⟩ := hhas
  rw [BitVec.le_def] at hrange hstart hend
  rcases Nat.lt_trichotomy i j with hlt | rfl | hgt
  · have := h.end_lt_start hord hlt hj
    rw [BitVec.lt_def] at this
    simp only [BitVec.lt_def]
    rw [if_neg (by omega), decide_eq_true hlt]
  · rw [found, List.getElem?_eq_getElem hi, Option.filter_some,
      if_pos (by simpa [IpDictItem.Has, BitVec.le_def] using ⟨hstart, hend⟩)] at hnone
    cases hnone
  · have := h.end_lt_start hord hgt hi
    rw [BitVec.lt_def] at this
    simp only [BitVec.lt_def]
    rw [if_pos (by omega), decide_eq_false (by omega), decide_eq_false (by omega), Bool.false_and]

/-- A dotted address reads as its four numbers. -/
theorem ipv4Str2Uint32_dotted (a b c d : Byte) :
    ipv4Str2Uint32 (decimal a.toNat ++ 46#8 ::
    (decimal b.toNat ++ 46#8 :: (decimal c.toNat ++ 46#8 :: decimal d.toNat))) =
      BitVec.ofNat 32 (a.toNat * 2 ^ 24 + b.toNat * 2 ^ 16 + c.toNat * 2 ^ 8 + d.toNat) := by
  have hdot : ∀ n, 46#8 ∉ decimal n := fun n => notMem_decimal (by decide)
  have hread : ∀ a : Byte, strconvParseInt 0 32 (decimal a.toNat) = a.toNat :=
    fun a => parseInt_zero_decimal (by have := a.isLt; omega)
  have hsmall : ∀ a : Byte, ¬(255 : Int) < a.toNat := fun a => by have := a.isLt; omega
  have hsplit : (decimal a.toNat ++ 46#8 ::
    (decimal b.toNat ++ 46#8 :: (decimal c.toNat ++ 46#8 :: decimal d.toNat))).splitOn 46#8 =
      [decimal a.toNat, decimal b.toNat, decimal c.toNat, decimal d.toNat] := by
    rw [List.splitOn_append_cons_self_of_not_mem (hdot _), List.splitOn_append_cons_self_of_not_mem (hdot _),
      List.splitOn_append_cons_self_of_not_mem (hdot _), List.splitOn_eq_singleton (hdot _)]
  rw [ipv4Str2Uint32, hsplit]
  simp only [List.length_cons, List.length_nil, ne_eq, not_true_eq_false, if_false, ipv4Loop, hread, hsmall]
  have hpart : ∀ (n k : Nat), BitVec.ofInt 32 ((n : Int) * 2 ^ k) = BitVec.ofNat 32 (n * 2 ^ k) := fun n k => by
    rw [← BitVec.ofInt_natCast]
    push_cast
    rfl
  simp only [hpart, BitVec.ofNat_add]
  norm_num

end BeehiveIm.IpDict
