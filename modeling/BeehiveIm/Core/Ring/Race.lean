/-
Threads in `ring_mpush` and `ring_mpop` at once. A step is one access to memory that other threads
can see: a read or a write of an index or of a cell, or an atomic instruction. Memory is
sequentially consistent. What is pushed and popped is recorded, and the clock at which a thread last
read a head; no step depends on these.
-/
import BeehiveIm.Core.Ring

namespace BeehiveIm.Core.Ring

open BeehiveIm.Lib

/-- Where a thread stands, with its local variables. -/
inductive Pc where
  | idle
  /-- `prod_head = rq->prod.head` -/
  | pushHead (addr : List Ptr)
  /-- `cons_tail = rq->cons.tail`, and the test for room -/
  | pushTail (addr : List Ptr) (prodHead : BitVec 32)
  /-- `atomic32_cmp_and_set(&rq->prod.head, prod_head, prod_next)` -/
  | pushCas (addr : List Ptr) (prodHead : BitVec 32)
  /-- `rq->data[(prod_head+i) & rq->mask] = addr[i]`, then `rq->prod.tail != prod_head` -/
  | pushFill (addr : List Ptr) (prodHead : BitVec 32) (i : Nat)
  /-- `rq->prod.tail = prod_next` -/
  | pushDone (addr : List Ptr) (prodHead : BitVec 32)
  /-- `atomic32_add(&rq->num, num)` -/
  | pushNum (addr : List Ptr)
  /-- `cons_head = rq->cons.head` -/
  | popHead (num : BitVec 32)
  /-- `prod_tail = rq->prod.tail`, and the test for data -/
  | popTail (num consHead : BitVec 32)
  /-- `atomic32_cmp_and_set(&rq->cons.head, cons_head, cons_next)` -/
  | popCas (num consHead : BitVec 32)
  /-- `addr[i] = rq->data[(cons_head+i) & rq->mask]`, then `rq->cons.tail != cons_head` -/
  | popFill (num consHead : BitVec 32) (addr : List Ptr)
  /-- `rq->cons.tail = cons_next` -/
  | popDone (num consHead : BitVec 32) (addr : List Ptr)
  /-- `atomic32_sub(&rq->num, num)` -/
  | popNum (num : BitVec 32)

structure Race (τ : Type) where
  ring : Ring
  pc : τ → Pc
  /-- The steps taken. -/
  clock : Nat
  /-- The clock when a thread last read a head. -/
  seen : τ → Nat
  /-- The pointers admitted, in the order of the `atomic32_cmp_and_set`. -/
  pushed : List Ptr
  /-- The pointers that pops take away, in the order in which `cons.tail` passes them. -/
  popped : List Ptr

inductive Act where
  | push (addr : List Ptr)
  | pop (num : BitVec 32)
  | go

variable {τ : Type} [DecidableEq τ]

def Race.init (τ : Type) (max : BitVec 32) : Race τ := ⟨ringCreat max, fun _ => .idle, 0, fun _ => 0, [], []⟩

/-- `t` moves on to `pc`; the clock ticks. -/
def Race.at (S : Race τ) (t : τ) (pc : Pc) : Race τ :=
  { S with pc := Function.update S.pc t pc, clock := S.clock + 1 }

/-- The next step of a thread in a call. -/
def Race.go (S : Race τ) (t : τ) : Option (Race τ) :=
  let rq := S.ring
  match S.pc t with
  | .idle => none
  | .pushHead addr =>
    some { S.at t (.pushTail addr rq.prod.head) with seen := Function.update S.seen t (S.clock + 1) }
  | .pushTail addr prodHead =>
    some (S.at t (if rq.hasRoom prodHead rq.cons.tail (BitVec.ofNat 32 addr.length) then .pushCas addr prodHead
      else .idle))
  | .pushCas addr prodHead =>
    if rq.prod.head = prodHead then
      some { S.at t (.pushFill addr prodHead 0) with
        ring := { rq with prod := { rq.prod with head := prodHead + BitVec.ofNat 32 addr.length } }
        pushed := S.pushed ++ addr }
    else some (S.at t (.pushHead addr))
  | .pushFill addr prodHead i =>
    match addr[i]? with
    | some a =>
      some { S.at t (.pushFill addr prodHead (i + 1)) with ring := rq.put (prodHead + BitVec.ofNat 32 i) a }
    | none => some (S.at t (if rq.prod.tail = prodHead then .pushDone addr prodHead else .pushFill addr prodHead i))
  | .pushDone addr prodHead =>
    some { S.at t (.pushNum addr) with
      ring := { rq with prod := { rq.prod with tail := prodHead + BitVec.ofNat 32 addr.length } } }
  | .pushNum addr =>
    some { S.at t .idle with ring := { rq with num := rq.num + BitVec.ofNat 32 addr.length } }
  | .popHead num => some { S.at t (.popTail num rq.cons.head) with seen := Function.update S.seen t (S.clock + 1) }
  | .popTail num consHead =>
    some (S.at t (if hasData consHead rq.prod.tail num then .popCas num consHead else .idle))
  | .popCas num consHead =>
    if rq.cons.head = consHead then
      some { S.at t (.popFill num consHead []) with
        ring := { rq with cons := { rq.cons with head := consHead + num } } }
    else some (S.at t (.popHead num))
  | .popFill num consHead addr =>
    if addr.length < num.toNat then
      some (S.at t (.popFill num consHead
        (addr ++ [rq.data (rq.cell (consHead + BitVec.ofNat 32 addr.length))])))
    else some (S.at t (if rq.cons.tail = consHead then .popDone num consHead addr else .popFill num consHead addr))
  | .popDone num consHead addr =>
    some { S.at t (.popNum num) with
      ring := { rq with cons := { rq.cons with tail := consHead + num } }
      popped := S.popped ++ addr }
  | .popNum num => some { S.at t .idle with ring := { rq with num := rq.num - num } }

/-- A step of one thread: it calls when it is in no call, and goes on when it is in one. -/
def Race.step (S : Race τ) (o : τ × Act) : Option (Race τ) :=
  match o.2, S.pc o.1 with
  | .push addr, .idle => some (S.at o.1 (.pushHead addr))
  | .pop num, .idle => some (S.at o.1 (.popHead num))
  | .go, _ => S.go o.1
  | _, _ => none

/-! ## What is asked of the threads -/

/-- A call of `ring_mpush` with something to push. -/
def Batch (addr : List Ptr) : Prop := 0 < addr.length ∧ addr.length < 2 ^ 32

/-- A call about one pointer at least. -/
def Act.Proper : Act → Prop
  | .push addr => Batch addr
  | .pop num => 0 < num.toNat
  | .go => True

/-- Between the read of a head and its comparison no 2 ^ 32 steps are taken. -/
def Race.InTime (S : Race τ) (t : τ) : Prop :=
  match S.pc t with
  | .pushCas _ _ | .popCas _ _ => S.clock < S.seen t + 2 ^ 32
  | _ => True

/-- A step that the threads can take: one that exists, of a proper call, not stalled too long. -/
def Race.Allowed (S : Race τ) (o : τ × Act) : Prop := (S.step o).isSome ∧ o.2.Proper ∧ S.InTime o.1

instance : DecidablePred Act.Proper
  | .push addr => inferInstanceAs (Decidable (0 < addr.length ∧ addr.length < 2 ^ 32))
  | .pop num => inferInstanceAs (Decidable (0 < num.toNat))
  | .go => inferInstanceAs (Decidable True)

instance (S : Race τ) (t : τ) : Decidable (S.InTime t) := by
  unfold Race.InTime
  split <;> infer_instance

instance (S : Race τ) (o : τ × Act) : Decidable (S.Allowed o) :=
  inferInstanceAs (Decidable ((S.step o).isSome ∧ o.2.Proper ∧ S.InTime o.1))

end BeehiveIm.Core.Ring
