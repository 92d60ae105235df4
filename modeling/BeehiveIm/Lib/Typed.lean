/-
Keys with types: a key holds a set or a sorted set, or does not exist. One that becomes empty exists
no longer, and a command for the other type fails and changes nothing.
-/
import BeehiveIm.Lib.ZSet
import Mathlib.Data.Finset.Basic

namespace BeehiveIm.Lib

variable {α : Type}

/-- What a key holds is not empty. -/
inductive Value (α : Type) where
  | set (members : Finset α) (ne : members.Nonempty)
  | zset (z : ZSet α) (ne : z.list ≠ [])

namespace Value

/-- The key after its set has become `members`. -/
def ofSet (members : Finset α) : Option (Value α) := if ne : members.Nonempty then some (.set members ne) else none

/-- The key after its sorted set has become `z`. -/
def ofZSet (z : ZSet α) : Option (Value α) :=
  match h : z.list with
  | [] => none
  | _ :: _ => some (.zset z (by simp [h]))

end Value

inductive Command (α : Type) where
  | sadd (a : α)
  | srem (a : α)
  | sismember (a : α)
  | zadd (score : Int) (a : α)
  | zrem (a : α)
  | del

def wrongType : String := "WRONGTYPE Operation against a key holding the wrong kind of value"

namespace Command

variable [DecidableEq α] [Text α]

/-- The answer, whether something was added, removed or found, and the key after the command. -/
def run : Command α → Option (Value α) → Except String Bool × Option (Value α)
  | .sadd a, none => (.ok true, Value.ofSet {a})
  | .sadd a, some (.set m _) => (.ok (a ∉ m), Value.ofSet (insert a m))
  | .srem _, none => (.ok false, none)
  | .srem a, some (.set m _) => (.ok (a ∈ m), Value.ofSet (m.erase a))
  | .sismember _, none => (.ok false, none)
  | .sismember a, some (.set m ne) => (.ok (a ∈ m), some (.set m ne))
  | .zadd score a, none => (.ok true, Value.ofZSet (ZSet.add ∅ score a))
  | .zadd score a, some (.zset z _) => (.ok (a ∉ z), Value.ofZSet (z.add score a))
  | .zrem _, none => (.ok false, none)
  | .zrem a, some (.zset z _) => (.ok (a ∈ z), Value.ofZSet (z.rem a))
  | .del, v => (.ok v.isSome, none)
  | _, v => (.error wrongType, v)

end Command

/-! ## Keys that are only used as sets -/

namespace Value

variable {m : Finset α}

@[simp] theorem ofSet_empty : ofSet (∅ : Finset α) = none := dif_neg Finset.not_nonempty_empty

theorem ofSet_of_nonempty (ne : m.Nonempty) : ofSet m = some (.set m ne) := dif_pos ne

theorem ofSet_eq_none : ofSet m = none ↔ m = ∅ := by
  rw [ofSet, dite_eq_right_iff]
  constructor
  · intro h
    by_contra hne
    exact absurd (h (Finset.nonempty_iff_ne_empty.2 hne)) (Option.some_ne_none _)
  · rintro rfl ne
    exact absurd ne Finset.not_nonempty_empty

/-- A set and a key that does not exist are told apart by nothing that is asked of sets. -/
theorem ofSet_cases (P : Option (Value α) → Finset α → Prop) (hnone : P none ∅) (hset : ∀ m ne, P (some (.set m ne)) m)
    (m : Finset α) : P (ofSet m) m := by
  rcases m.eq_empty_or_nonempty with rfl | ne
  · rw [ofSet_empty]
    exact hnone
  · rw [ofSet_of_nonempty ne]
    exact hset m ne

end Value

namespace Command

variable [DecidableEq α] [Text α] (a : α) (m : Finset α)

theorem run_sadd : (Command.sadd a).run (Value.ofSet m) = (.ok (a ∉ m), Value.ofSet (insert a m)) :=
  Value.ofSet_cases (fun v m => (Command.sadd a).run v = (.ok (a ∉ m), Value.ofSet (insert a m))) (by simp [run])
  (fun _ _ => rfl) m

theorem run_srem : (Command.srem a).run (Value.ofSet m) = (.ok (a ∈ m), Value.ofSet (m.erase a)) :=
  Value.ofSet_cases (fun v m => (Command.srem a).run v = (.ok (a ∈ m), Value.ofSet (m.erase a))) (by simp [run])
  (fun _ _ => rfl) m

theorem run_sismember : (Command.sismember a).run (Value.ofSet m) = (.ok (a ∈ m), Value.ofSet m) :=
  Value.ofSet_cases (fun v m => (Command.sismember a).run v = (.ok (a ∈ m), v)) (by simp [run]) (fun _ _ => rfl) m

/-- It removes nothing from a key that does not exist. -/
theorem run_zrem : (Command.zrem a).run none = (.ok false, none) := rfl

end Command

end BeehiveIm.Lib
