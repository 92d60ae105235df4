/-
Reference counts of memory blocks (`mref.c`), kept in a hash table under the block's address. A
failed `assert` ends the process: `none`. There is always memory for an item of the table. The
counts are natural numbers: 2^32 references to one block do not fit in memory.
-/
import BeehiveIm.Core.HashTab
import BeehiveIm.Core.HashTab.Slots

namespace BeehiveIm.Core

open BeehiveIm.Lib

/-- The address of a block. -/
abbrev Addr := BitVec 64

/-- `gMemRefTab`: a block and its count. -/
abbrev MrefTab := HashTab (Addr × Nat)

namespace MrefTab

/-- `MREF_SLOT_LEN` -/
def mrefSlotLen : Nat := 999

def mrefInit : MrefTab := HashTab.hashTabCreat _ mrefSlotLen

/-- `mref_add` -/
def mrefAdd (tab : MrefTab) (addr : Addr) : Option MrefTab :=
  match idKey.query Prod.fst tab addr with
  | none => none
  | some (some _) => idKey.write Prod.fst tab addr fun item => (item.1, item.2 + 1)
  | some none => (idKey.insert Prod.fst tab (addr, 1) true).map (·.1)

/-- `mref_inc` -/
def mrefInc (tab : MrefTab) (addr : Addr) : Option MrefTab :=
  match idKey.query Prod.fst tab addr with
  | none => none
  | some (some _) => idKey.write Prod.fst tab addr fun item => (item.1, item.2 + 1)
  | some none => none

/-- `mref_dec`, and whether the block is released. -/
def mrefDec (tab : MrefTab) (addr : Addr) : Option (MrefTab × Bool) :=
  match idKey.query Prod.fst tab addr with
  | none => none
  | some none => none
  | some (some item) =>
    match idKey.write Prod.fst tab addr fun item => (item.1, item.2 - 1) with
    | none => none
    | some tab =>
      if item.2 - 1 = 0 then (idKey.delete Prod.fst tab addr).map fun r => (r.1, true)
      else some (tab, false)

/-! ## The counts

The table of reference counts as a function from addresses to counts, zero for a block that has no
item.
-/

/-- The count an item keeps for `a`. -/
def count (live : List (Addr × Nat)) (a : Addr) : Nat := (lookup Prod.fst live a).elim 0 (·.2)

/-- The table keeps the counts `c`, of blocks in the lower half of the address space. -/
structure Counts (tab : MrefTab) (c : Addr → Nat) : Prop where
  ex : ∃ live, Holds idKey Prod.fst tab live ∧ (∀ e ∈ live, 0 ≤ e.1.toInt ∧ e.2 ≠ 0) ∧ count live = c

variable {tab : MrefTab} {c : Addr → Nat} {live : List (Addr × Nat)} {a : Addr}

theorem mrefInit_counts : Counts mrefInit fun _ => 0 :=
  ⟨[], hashTabCreat_holds (by decide) (by decide), by simp, rfl⟩

theorem count_eq_zero (hpos : ∀ e ∈ live, 0 ≤ e.1.toInt ∧ e.2 ≠ 0) :
    count live a = 0 ↔ lookup Prod.fst live a = none := by
  unfold count
  cases hl : lookup Prod.fst live a with
  | none => simp
  | some e => simpa using (hpos e (lookup_mem hl).1).2

theorem lookup_of_count (hc : count live = c) (ha : c a ≠ 0) : lookup Prod.fst live a = some (a, c a) := by
  subst hc
  unfold count at ha ⊢
  cases hl : lookup Prod.fst live a with
  | none => simp [hl] at ha
  | some e => obtain ⟨-, rfl⟩ := lookup_mem hl; rfl

theorem count_cons (n : Nat) : count ((a, n) :: live) = Function.update (count live) a n := by
  funext b
  by_cases hb : b = a
  · subst hb; simp [count, lookup_cons]
  · simp [count, lookup_cons, hb, Ne.symm hb]

theorem count_writeAt (g : Nat → Nat) (ha : count live a ≠ 0) :
    count (writeAt Prod.fst a (fun e => (e.1, g e.2)) live) = Function.update (count live) a (g (count live a)) := by
  funext b
  rw [count, lookup_writeAt (by simp)]
  by_cases hb : b = a
  · subst hb
    simp [lookup_of_count rfl ha]
  · simp [hb, count]

theorem count_without : count (without Prod.fst live a) = Function.update (count live) a 0 := by
  funext b
  rw [count, lookup_without]
  by_cases hb : b = a
  · simp [hb]
  · simp [hb, count]

/-- A new block has one reference. -/
theorem Counts.add (h : Counts tab c) (ha : c a = 0) (hlow : 0 ≤ a.toInt) :
    ∃ tab', tab.mrefAdd a = some tab' ∧ Counts tab' (Function.update c a 1) := by
  obtain ⟨live, hH, hpos, rfl⟩ := h
  have hl := (count_eq_zero hpos).1 ha
  have hord : CmpOn idKey.cmp (slotKeys idKey Prod.fst tab.len live a) := by
    refine cmpOn_idKey.mono ?_
    rintro k (rfl | ⟨e, he, -, rfl⟩)
    exacts [hlow, (hpos e he).1]
  obtain ⟨tab', hins, hH', -⟩ := hH.insert_ok (e := (a, 1)) (.inl hlow) hl hord
  refine ⟨tab', ?_, (a, 1) :: live, hH', ?_, count_cons 1⟩
  · unfold mrefAdd
    rw [hH.query (.inl hlow), hl]
    simp [hins]
  · rintro e (_ | ⟨_, he⟩)
    exacts [⟨hlow, Nat.one_ne_zero⟩, hpos e he]

/-- A change of the count of a block that has an item. -/
theorem Counts.write (h : Counts tab c) (ha : c a ≠ 0) (g : Nat → Nat) : ∃ tab' live,
    idKey.query Prod.fst tab a = some (some (a, c a)) ∧
    idKey.write Prod.fst tab a (fun item => (item.1, g item.2)) = some tab' ∧
    Holds idKey Prod.fst tab' (writeAt Prod.fst a (fun e => (e.1, g e.2)) live) ∧ 0 ≤ a.toInt ∧
    (∀ e ∈ live, 0 ≤ e.1.toInt ∧ e.2 ≠ 0) ∧ count live = c := by
  obtain ⟨live, hH, hpos, rfl⟩ := h
  have hl := lookup_of_count rfl ha
  have hlow : 0 ≤ a.toInt := (hpos _ (lookup_mem hl).1).1
  obtain ⟨tab', hw, hH', -⟩ := hH.write (k := a) (.inl hlow) (g := fun e => (e.1, g e.2)) (by simp)
  exact ⟨tab', live, by rw [hH.query (.inl hlow), hl], hw, hH', hlow, hpos, rfl⟩

theorem pos_writeAt {g : Nat → Nat} (hpos : ∀ e ∈ live, 0 ≤ e.1.toInt ∧ e.2 ≠ 0) (hn : (live.map Prod.fst).Nodup)
    (ha : count live a ≠ 0) (hg : g (count live a) ≠ 0) :
    ∀ e ∈ writeAt Prod.fst a (fun e => (e.1, g e.2)) live, 0 ≤ e.1.toInt ∧ e.2 ≠ 0 := by
  intro e he
  obtain ⟨x, hx, rfl⟩ := List.mem_map.1 he
  split
  · rename_i hxa
    have hl := lookup_eq_some hn hx
    rw [hxa, lookup_of_count rfl ha] at hl
    obtain rfl := Option.some.inj hl
    exact ⟨(hpos _ hx).1, hg⟩
  · exact hpos x hx

/-- One reference more to a block that has one. -/
theorem Counts.inc (h : Counts tab c) (ha : c a ≠ 0) :
    ∃ tab', tab.mrefInc a = some tab' ∧ Counts tab' (Function.update c a (c a + 1)) := by
  obtain ⟨tab', live, hq, hw, hH, -, hpos, rfl⟩ := h.write ha (· + 1)
  refine ⟨tab', by unfold mrefInc; rw [hq]; exact hw, _, hH, ?_, count_writeAt (· + 1) ha⟩
  exact pos_writeAt hpos (by simpa [map_key_writeAt] using hH.nodup) ha (Nat.succ_ne_zero _)

/-- One reference less; the block is released with its last one. -/
theorem Counts.dec (h : Counts tab c) (ha : c a ≠ 0) :
    ∃ tab', tab.mrefDec a = some (tab', decide (c a = 1)) ∧ Counts tab' (Function.update c a (c a - 1)) := by
  obtain ⟨tab', live, hq, hw, hH, hlow, hpos, rfl⟩ := h.write ha (· - 1)
  unfold mrefDec
  rw [hq]
  simp only
  rw [hw]
  by_cases h1 : count live a = 1
  · have hl : lookup Prod.fst (writeAt Prod.fst a (fun e => (e.1, e.2 - 1)) live) a =
        some (a, count live a - 1) := by
      rw [lookup_writeAt (by simp), if_pos rfl, lookup_of_count rfl ha]; rfl
    obtain ⟨tab'', hdel, hH', -⟩ := hH.delete_some hl
    refine ⟨tab'', by simp [h1, hdel], _, hH', ?_, ?_⟩
    · intro e he
      obtain ⟨he, hea⟩ := mem_without.1 he
      obtain ⟨x, hx, rfl⟩ := List.mem_map.1 he
      split at hea
      · exact absurd (by assumption) hea
      · rename_i hxa; rw [if_neg hxa]; exact hpos x hx
    · rw [count_without, count_writeAt (· - 1) ha, Function.update_idem, h1]
  · have h2 : count live a - 1 ≠ 0 := by omega
    refine ⟨tab', by simp [h1, h2], _, hH, ?_, count_writeAt (· - 1) ha⟩
    exact pos_writeAt (g := (· - 1)) hpos (by simpa [map_key_writeAt] using hH.nodup) ha h2

/-! ## Races

Threads in `mref_alloc`, `mref_inc` and `mref_dec` at once. A step is one section under a lock of
the table's slot, or one use of the allocator; the counts are `uint32_t`. A failed `assert` ends the
process. Left out: the pool and the callback an item carries, and the counts that are answered.
-/

/-- The address of memory of the process: the lower half of the address space. -/
abbrev Block := {addr : Addr // 0 ≤ addr.toInt}

/-- Where a thread stands. -/
inductive Pc where
  | idle
  /-- `mref_add`: `hash_tab_query(tab, &key, RDLOCK)` -/
  | addQuery (addr : Block)
  /-- `hash_tab_insert(tab, item, WRLOCK)` -/
  | addInsert (addr : Block)
  /-- `mref_dec`, the count is 0: `hash_tab_query(tab, &key, WRLOCK)` -/
  | decQuery (addr : Block)
  /-- `item->dealloc(item->pool, item->addr)` -/
  | decDealloc (addr : Block)
  deriving DecidableEq

/-- The block a call is about. -/
def Pc.block : Pc → Option Block
  | .idle => none
  | .addQuery a => some a
  | .addInsert a => some a
  | .decQuery a => some a
  | .decDealloc a => some a

/-- The table, the threads and the allocator. `mem` are the blocks allocated; `twice` is whether a
block was given back that is not allocated. -/
structure Race (τ : Type) where
  tab : HashTab (Addr × BitVec 32)
  pc : τ → Pc
  mem : Block → Bool
  twice : Bool
  aborted : Bool

/-- `alloc` is a call of `mref_alloc` whose allocator answers the block. `more` is a thread's next
step; `room` is whether there is memory for an item of the table. -/
inductive Act where
  | alloc (addr : Block)
  | inc (addr : Block)
  | dec (addr : Block)
  | more (room : Bool)

namespace Race

variable {τ : Type}

/-- `mref_init` -/
def init (τ : Type) : Race τ where
  tab := HashTab.hashTabCreat _ mrefSlotLen
  pc := fun _ => .idle
  mem := fun _ => false
  twice := false
  aborted := false

/-- `assert(0)` -/
def abort (R : Race τ) : Race τ := { R with aborted := true }

/-- What `hash_tab_query` answers in one section. -/
def query (R : Race τ) (a : Block) : Option (Option (Addr × BitVec 32)) := idKey.query Prod.fst R.tab a.1

/-- A write to the count in the section of the query. -/
def write (R : Race τ) (a : Block) (g : BitVec 32 → BitVec 32) : Option (Race τ) :=
  (idKey.write Prod.fst R.tab a.1 fun item => (item.1, g item.2)).map fun tab => { R with tab := tab }

variable [DecidableEq τ]

def goto (R : Race τ) (t : τ) (pc : Pc) : Race τ := { R with pc := Function.update R.pc t pc }

/-- The first sections of `mref_inc` and `mref_dec`. -/
def mrefInc (R : Race τ) (a : Block) : Option (Race τ) :=
  match R.query a with
  | none => none
  | some none => some R.abort
  | some (some _) => R.write a (· + 1)

def mrefDec (R : Race τ) (t : τ) (a : Block) : Option (Race τ) :=
  match R.query a with
  | none => none
  | some none => some R.abort
  | some (some item) => (R.write a (· - 1)).map fun R => if item.2 - 1 = 0 then R.goto t (.decQuery a) else R

/-- The later sections. -/
def more (R : Race τ) (t : τ) (room : Bool) : Option (Race τ) :=
  match R.pc t with
  | .idle => some R
  | .addQuery a =>
    match R.query a with
    | none => none
    | some (some _) => (R.write a (· + 1)).map fun R => R.goto t .idle
    | some none => if room then some (R.goto t (.addInsert a)) else some R.abort
  | .addInsert a =>
    match idKey.insert Prod.fst R.tab (a.1, 1) room with
    | none => none
    | some (tab, ret) => some ({ R with tab := tab }.goto t (if ret = RbtRet.ok then .idle else .addQuery a))
  | .decQuery a =>
    match R.query a with
    | none => none
    | some none => some (R.goto t .idle)
    | some (some item) =>
      if item.2 = 0 then
        (idKey.delete Prod.fst R.tab a.1).map fun r => { R with tab := r.1 }.goto t (.decDealloc a)
      else some (R.goto t .idle)
  | .decDealloc a =>
    some { R.goto t .idle with mem := Function.update R.mem a false, twice := R.twice || !R.mem a }

/-- A call begins only in a thread that is in none; the allocator hands out a block
that is not allocated. -/
def step (R : Race τ) (t : τ) (act : Act) : Option (Race τ) :=
  if R.aborted then some R
  else
    match act with
    | .alloc a =>
      if R.pc t = .idle ∧ R.mem a = false then
        some { R.goto t (.addQuery a) with mem := Function.update R.mem a true }
      else some R
    | .inc a => if R.pc t = .idle then R.mrefInc a else some R
    | .dec a => if R.pc t = .idle then R.mrefDec t a else some R
    | .more room => R.more t room

def run (R : Race τ) (acts : List (τ × Act)) : Option (Race τ) := acts.foldlM (fun R x => R.step x.1 x.2) R

end Race

end MrefTab

end BeehiveIm.Core
