/-
The hash table (`hash_tab.c`): an array of red-black trees. The hash is a signed 64-bit number, its
C remainder by the length is stored to an `unsigned int`; an index outside the array is a fault
(`none`). The locks of the slots are left out: every operation holds its slot's lock.
-/
import BeehiveIm.Core.RbTree

namespace BeehiveIm.Core

open BeehiveIm.Lib

structure HashTab (α : Type) where
  len : Nat
  total : Nat
  tree : Nat → RbTree α

/-- `idx = htab->hash(key) % htab->len`, `idx` being an `unsigned int`. -/
def hashIdx (len : Nat) (hash : Int) : Nat := ((hash.tmod len) % 2 ^ 32).toNat

/-- The same index in `hash_tab_trav_slot`, where `idx` is an `int`. -/
def travSlotIdx (len : Nat) (hash : Int) : Int := hash.tmod len

namespace HashTab

variable {α : Type}

def hashTabCreat (α : Type) (len : Nat) : HashTab α where
  len := len
  total := 0
  tree := fun _ => RbTree.rbtCreat α

/-- `hash_tab_insert` of `data`, whose hash is `hash` and whose comparisons `ck` answers. -/
def hashTabInsert (H : HashTab α) (hash : Int) (ck : α → Int) (data : α) (mem : Bool) :
    Option (HashTab α × RbtRet) :=
  let idx := hashIdx H.len hash
  if idx < H.len then
    match (H.tree idx).rbtInsert ck data mem with
    | none => none
    | some (T, ret) =>
      some ({ H with
        tree := Function.update H.tree idx T
        total := if ret = .ok then H.total + 1 else H.total }, ret)
  else none

/-- `hash_tab_query` -/
def hashTabQuery (H : HashTab α) (hash : Int) (ck : α → Int) : Option (Option α) :=
  let idx := hashIdx H.len hash
  if idx < H.len then (H.tree idx).rbtQuery ck else none

/-- `hash_tab_delete` -/
def hashTabDelete (H : HashTab α) (hash : Int) (ck : α → Int) : Option (HashTab α × Option α) :=
  let idx := hashIdx H.len hash
  if idx < H.len then
    match (H.tree idx).rbtDelete ck with
    | none => none
    | some (T, data) =>
      some ({ H with
        tree := Function.update H.tree idx T
        total := if data.isSome then H.total - 1 else H.total }, data)
  else none

/-- A write to the element that `hash_tab_query` answers. -/
def hashTabWrite (H : HashTab α) (hash : Int) (ck : α → Int) (g : α → α) : Option (HashTab α) :=
  let idx := hashIdx H.len hash
  if idx < H.len then
    ((H.tree idx).rbtWrite ck g).map fun T => { H with tree := Function.update H.tree idx T }
  else none

/-- The elements in the order `hash_tab_trav` hands them to its callback. -/
def hashTabTrav (H : HashTab α) : Option (List α) :=
  (List.range H.len).foldlM (fun out idx => ((H.tree idx).rbtTrav).map (out ++ ·)) []

/-- The elements in the order `hash_tab_trav_slot` hands them to its callback. -/
def hashTabTravSlot (H : HashTab α) (hash : Int) : Option (List α) :=
  let idx := travSlotIdx H.len hash
  if 0 ≤ idx ∧ idx < H.len then (H.tree idx.toNat).rbtTrav else none

end HashTab

/-! ## Keys -/

/-- How a table hashes and compares its keys; only equal keys compare as equal. -/
structure HashKey (κ : Type) where
  hash : κ → Int
  cmp : κ → κ → Int
  cmp_eq_zero : ∀ a b, cmp a b = 0 ↔ a = b

namespace HashKey

variable {κ α : Type}

/-- The comparisons of a key with the elements stored, each under the key that `key` reads off
it. -/
def probe (K : HashKey κ) (key : α → κ) (k : κ) (e : α) : Int := K.cmp k (key e)

def insert (K : HashKey κ) (key : α → κ) (H : HashTab α) (e : α) (mem : Bool) : Option (HashTab α × RbtRet) :=
  H.hashTabInsert (K.hash (key e)) (K.probe key (key e)) e mem

def query (K : HashKey κ) (key : α → κ) (H : HashTab α) (k : κ) : Option (Option α) :=
  H.hashTabQuery (K.hash k) (K.probe key k)

def delete (K : HashKey κ) (key : α → κ) (H : HashTab α) (k : κ) : Option (HashTab α × Option α) :=
  H.hashTabDelete (K.hash k) (K.probe key k)

def write (K : HashKey κ) (key : α → κ) (H : HashTab α) (k : κ) (g : α → α) : Option (HashTab α) :=
  H.hashTabWrite (K.hash k) (K.probe key k) g

end HashKey

theorem toInt_sub_eq_zero {w : Nat} (a b : BitVec w) : (a - b).toInt = 0 ↔ a = b := by
  constructor
  · intro h
    have h0 : a - b = 0#w := BitVec.eq_of_toInt_eq (by rw [h]; simp)
    have := congrArg (· + b) h0
    simpa [BitVec.sub_add_cancel] using this
  · rintro rfl; simp

/-- A 64-bit id: `chat_room_hash_cb` and `chat_room_cmp_cb`, and `chat_sid2cid_hash_cb` and
`chat_sid2cid_cmp_cb`. The id goes through the signed `hash_cb_t`. -/
def idKey : HashKey (BitVec 64) where
  hash k := k.toInt
  cmp a b := (a - b).toInt
  cmp_eq_zero := toInt_sub_eq_zero

/-- A session on a connection: `chat_session_hash_cb` and `chat_session_cmp_cb`. -/
def sessionKey : HashKey (BitVec 64 × BitVec 64) where
  hash k := k.1.toInt
  cmp a b := let diff := (a.1 - b.1).toInt; if diff = 0 then (a.2 - b.2).toInt else diff
  cmp_eq_zero a b := by
    simp only
    split
    · rename_i h
      rw [toInt_sub_eq_zero] at h
      rw [toInt_sub_eq_zero, Prod.ext_iff]
      simp [h]
    · rename_i h
      rw [toInt_sub_eq_zero] at h
      simp only [Prod.ext_iff, h, false_and, iff_false]
      rwa [toInt_sub_eq_zero]

end BeehiveIm.Core
