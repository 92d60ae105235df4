/-
The ring of pointers (`ring.c`, `power2` of `comm.c`), with the memory pool (`slot.c`) and the queue
(`queue.c`) made of it. The four indices are 32-bit numbers that only go up. The functions here are
calls that no other thread disturbs; one that would spin for ever is a fault (`none`).
-/
import BeehiveIm.Lib.PtrTree
import Mathlib.Logic.Function.Basic

namespace BeehiveIm.Core

open BeehiveIm.Lib

/-! ## The size of a ring -/

/-- `ISPOWEROF2` -/
def isPowerOf2 (x : BitVec 32) : Bool := (x - 1) &&& x = 0

/-- `power2` -/
def power2 (v : BitVec 32) : BitVec 32 :=
  if isPowerOf2 v then v
  else
    let idx := (List.range 32).foldl (fun idx i => if v &&& ((1 : BitVec 32) <<< i) ≠ 0 then i else idx) 0
    (1 : BitVec 32) <<< (idx + 1)

/-! ## The ring -/

/-- The indices of the producers, and those of the consumers. -/
structure Span where
  head : BitVec 32
  tail : BitVec 32
  deriving DecidableEq

/-- `ring_t` -/
structure Ring where
  max : BitVec 32
  mask : BitVec 32
  num : BitVec 32
  data : Nat → Ptr
  prod : Span
  cons : Span

namespace Ring

/-- `ring_creat` -/
def ringCreat (max : BitVec 32) : Ring where
  max := power2 max
  mask := power2 max - 1
  num := 0
  data := fun _ => 0
  prod := ⟨0, 0⟩
  cons := ⟨0, 0⟩

/-- The cell of an index. -/
def cell (rq : Ring) (i : BitVec 32) : Nat := (i &&& rq.mask).toNat

/-- `rq->data[i & rq->mask] = addr` -/
def put (rq : Ring) (i : BitVec 32) (addr : Ptr) : Ring :=
  { rq with data := Function.update rq.data (rq.cell i) addr }

/-- The loop of `ring_mpush`: `rq->data[(prod_head+i) & rq->mask] = addr[i]`. -/
def store (rq : Ring) (head : BitVec 32) : List Ptr → Ring
  | [] => rq
  | addr :: rest => (rq.put head addr).store (head + 1) rest

/-- The loop of `ring_mpop`: `addr[i] = rq->data[(cons_head+i) & rq->mask]`. -/
def load (rq : Ring) (head : BitVec 32) : Nat → List Ptr
  | 0 => []
  | num + 1 => rq.data (rq.cell head) :: rq.load (head + 1) num

/-- Room for `num` pointers: the test of `ring_mpush`. -/
def hasRoom (rq : Ring) (prodHead consTail num : BitVec 32) : Bool := num ≤ rq.max + consTail - prodHead

/-- `num` pointers to take: the test of `ring_mpop`. -/
def hasData (consHead prodTail num : BitVec 32) : Bool := num ≤ prodTail - consHead

/-- `ring_mpush`; answers whether there was room. -/
def ringMpush (rq : Ring) (addr : List Ptr) : Option (Ring × Bool) :=
  let num := BitVec.ofNat 32 addr.length
  let prodHead := rq.prod.head
  if rq.hasRoom prodHead rq.cons.tail num then
    let prodNext := prodHead + num
    if rq.prod.tail = prodHead then
      some ({ rq.store prodHead addr with prod := ⟨prodNext, prodNext⟩, num := rq.num + num }, true)
    else none
  else some (rq, false)

/-- `ring_mpop`; the pointers taken, none when there are fewer than `num`. -/
def ringMpop (rq : Ring) (num : BitVec 32) : Option (Ring × List Ptr) :=
  let consHead := rq.cons.head
  if hasData consHead rq.prod.tail num then
    let consNext := consHead + num
    if rq.cons.tail = consHead then
      some ({ rq with cons := ⟨consNext, consNext⟩, num := rq.num - num }, rq.load consHead num.toNat)
    else none
  else some (rq, [])

/-- `ring_push` -/
def ringPush (rq : Ring) (addr : Ptr) : Option (Ring × Bool) := rq.ringMpush [addr]

/-- `ring_pop`; answers `NULL` on an empty ring. -/
def ringPop (rq : Ring) : Option (Ring × Ptr) :=
  (rq.ringMpop 1).map fun (rq, addr) => (rq, addr.headD 0)

end Ring

/-! ## The memory pool -/

/-- `slot_t` -/
structure Slot where
  max : BitVec 32
  size : Nat
  ring : Ring

namespace Slot

/-- The addresses of the blocks: `slot_creat` cuts them from one piece of memory that starts at
`base`. -/
def blocks (base : Ptr) (num size : Nat) : List Ptr := (List.range num).map fun i => base + i * size

/-- The loop of `slot_creat`: it gives up when a block finds no room. -/
def pushBlock (ring : Ring) (ptr : Ptr) : Option Ring :=
  match ring.ringPush ptr with
  | some (ring, true) => some ring
  | _ => none

/-- `slot_creat` -/
def slotCreat (base : Ptr) (num : BitVec 32) (size : Nat) : Option Slot :=
  ((blocks base num.toNat size).foldlM pushBlock (Ring.ringCreat num)).map fun ring => ⟨num, size, ring⟩

/-- `slot_alloc` -/
def slotAlloc (slot : Slot) (size : Nat) : Option (Slot × Ptr) :=
  if size > slot.size then some (slot, 0)
  else slot.ring.ringPop.map fun (ring, ptr) => ({ slot with ring := ring }, ptr)

/-- `slot_dealloc` -/
def slotDealloc (slot : Slot) (p : Ptr) : Option Slot :=
  (slot.ring.ringPush p).map fun (ring, _) => { slot with ring := ring }

end Slot

/-! ## The queue -/

/-- `queue_t` -/
structure Queue where
  slot : Slot
  ring : Ring

namespace Queue

/-- `queue_creat`; the blocks are cut from the memory at `base`. -/
def queueCreat (base : Ptr) (max : BitVec 32) (size : Nat) : Option Queue :=
  if max = 0 ∨ size = 0 then none
  else (Slot.slotCreat base max size).map fun slot => ⟨slot, Ring.ringCreat max⟩

/-- `queue_malloc` -/
def queueMalloc (q : Queue) (size : Nat) : Option (Queue × Ptr) :=
  (q.slot.slotAlloc size).map fun (slot, ptr) => ({ q with slot := slot }, ptr)

/-- `queue_dealloc` -/
def queueDealloc (q : Queue) (p : Ptr) : Option Queue :=
  (q.slot.slotDealloc p).map fun slot => { q with slot := slot }

/-- `queue_push` -/
def queuePush (q : Queue) (addr : Ptr) : Option (Queue × Bool) :=
  (q.ring.ringPush addr).map fun (ring, ok) => ({ q with ring := ring }, ok)

/-- `queue_mpop` -/
def queueMpop (q : Queue) (num : BitVec 32) : Option (Queue × List Ptr) :=
  (q.ring.ringMpop num).map fun (ring, addr) => ({ q with ring := ring }, addr)

/-- `queue_used` -/
def queueUsed (q : Queue) : BitVec 32 := q.ring.num

end Queue

end BeehiveIm.Core
