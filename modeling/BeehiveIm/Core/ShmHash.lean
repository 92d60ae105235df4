/-
The hash table in shared memory (`shm_hash.c`), over the lists of `shm_list.c` and the rings of
`shm_ring.c`, which are the rings of `ring.c` with offsets in the cells: a cell keeps the 64 bits of
an `off_t`. Blocks and nodes are handed out by two rings of free offsets. The keys that clients keep
in their blocks are part of the state, since the comparison reads them there. `shm_creat` and the
locks of the slots, which no function here takes, are left out.
-/
import BeehiveIm.Core.Ring
import BeehiveIm.Core.ShmList

namespace BeehiveIm.Core

open BeehiveIm.Lib

/-! ## Rings of offsets -/

/-- `off_t` -/
abbrev Off := BitVec 64

/-- `shm_ring_total` -/
def shmRingTotal (max : BitVec 32) : Nat := 32 + (power2 max).toNat * 8

/-- `shm_ring_init` -/
def shmRingInit (max : BitVec 32) : Option Ring :=
  if isPowerOf2 max then some ⟨max, max - 1, 0, fun _ => 0, ⟨0, 0⟩, ⟨0, 0⟩⟩ else none

/-- `shm_ring_push` -/
def shmRingPush (rq : Ring) (off : Off) : Option (Ring × Bool) := rq.ringMpush [off.toNat]

/-- `shm_ring_pop`; answers -1 on an empty ring. -/
def shmRingPop (rq : Ring) : Option (Ring × Off) :=
  (rq.ringMpop 1).map fun r => (r.1, (r.2.head?.map (BitVec.ofNat 64)).getD (-1))

/-! ## The table -/

/-- `hash_time33_ex`; a `char` is signed. -/
def hashTime33Ex (key : List UInt8) : BitVec 64 :=
  let hash := key.foldl (fun (hash : BitVec 64) p => hash + (hash <<< (5 : Nat) + p.toBitVec.signExtend 64)) 5381
  hash &&& 0x7FFFFFFFFFFFFFFF

/-- `shm_hash_t`: the address of the memory, its head, its slots, nodes and pools, and
the keys in the blocks. -/
structure ShmHash where
  addr : BitVec 64
  len : Nat
  max : BitVec 32
  size : Nat
  slot : Nat → ShmList
  node : ShmMem Off
  nodePool : Ring
  dataPool : Ring
  key : BitVec 64 → List UInt8

namespace ShmHash

/-- `SHM_HASH_NODE_OFFSET` -/
def nodeOffset (len : Nat) (max : BitVec 32) : Nat := 40 + len * 24 + 2 * shmRingTotal max

/-- `SHM_HASH_DATA_OFFSET` -/
def dataOffset (len : Nat) (max : BitVec 32) : Nat := nodeOffset len max + max.toNat * 24

/-- `SHM_HASH_TOTAL_SIZE` -/
def totalSize (len : Nat) (max : BitVec 32) (size : Nat) : Nat := dataOffset len max + max.toNat * size

/-- The offsets that a pool starts with -/
def offsets (start step : Nat) (max : BitVec 32) : List Nat := (List.range max.toNat).map fun i => start + i * step

/-- The loops of `shm_hash_init`: they give up when an offset finds no room. -/
def pushOff (rq : Ring) (off : Nat) : Option Ring :=
  match shmRingPush rq (BitVec.ofNat 64 off) with
  | some (rq, true) => some rq
  | _ => none

/-- `shm_hash_init`, with the memory at `addr` -/
def shmHashInit (addr : BitVec 64) (len : Nat) (max : BitVec 32) (size : Nat) (node : ShmMem Off)
    (key : BitVec 64 → List UInt8) : Option ShmHash := do
  let ring ← shmRingInit max
  let nodePool ← (offsets (nodeOffset len max) 24 max).foldlM pushOff ring
  let ring ← shmRingInit max
  let dataPool ← (offsets (dataOffset len max) size max).foldlM pushOff ring
  some ⟨addr, len, max, size, fun _ => ⟨0, 0⟩, node, nodePool, dataPool, key⟩

/-- `shm_hash_alloc` -/
def shmHashAlloc (sh : ShmHash) : Option (ShmHash × Option (BitVec 64)) :=
  (shmRingPop sh.dataPool).map fun r =>
    if r.2 = -1 then ({ sh with dataPool := r.1 }, none) else ({ sh with dataPool := r.1 }, some (sh.addr + r.2))

/-- `shm_hash_dealloc` -/
def shmHashDealloc (sh : ShmHash) (addr : BitVec 64) : Option ShmHash :=
  let off := sh.addr - addr
  (shmRingPush sh.dataPool off).map fun r => { sh with dataPool := r.1 }

/-- The slot of a key -/
def idx (sh : ShmHash) (key : List UInt8) : Nat := (hashTime33Ex key).toNat % sh.len

/-- `shm_hash_push`; the client has put the key into the block. -/
def shmHashPush (sh : ShmHash) (key : List UInt8) (data : BitVec 64) : Option (ShmHash × Int) :=
  let dataOff := data - sh.addr
  (shmRingPop sh.nodePool).map fun r =>
    if r.2 = -1 then ({ sh with nodePool := r.1 }, -1)
    else
      let s := ShmList.shmListLpush (setData sh.node r.2.toNat dataOff) (sh.slot (sh.idx key)) r.2.toNat
      ({ sh with nodePool := r.1, node := s.1, slot := Function.update sh.slot (sh.idx key) s.2 }, 0)

/-- `shm_hash_pop`; `cmp` compares the key with the one in a block. -/
def shmHashPop (fuel : Nat) (cmp : List UInt8 → List UInt8 → Bool) (sh : ShmHash) (key : List UInt8) :
    Option (ShmHash × Option (BitVec 64)) :=
  match ShmList.shmListQueryAndDelete fuel sh.node (sh.slot (sh.idx key)) fun off => cmp key (sh.key (sh.addr + off)) with
  | none => none
  | some (s, off) =>
    let sh := { sh with node := s.1, slot := Function.update sh.slot (sh.idx key) s.2 }
    if off = 0 then some (sh, none)
    else
      let data := sh.addr + (sh.node off).data
      (shmRingPush sh.nodePool (BitVec.ofNat 64 off)).map fun r => ({ sh with nodePool := r.1 }, some data)

/-! ## Clients -/

/-- A call of the one process; before it pushes a block it writes the key into it. -/
inductive Call where
  | alloc
  | dealloc (addr : BitVec 64)
  | push (key : List UInt8) (data : BitVec 64)
  | pop (key : List UInt8)

/-- The blocks in hand, those that are stored, the last one first, and how many calls there were of
`shm_hash_alloc` and of `shm_hash_dealloc`. -/
structure Ledger where
  held : List (BitVec 64)
  stored : List (List UInt8 × BitVec 64)
  allocs : Nat
  deallocs : Nat

/-- The blocks in use -/
def Ledger.used (g : Ledger) : List (BitVec 64) := g.held ++ g.stored.map Prod.snd

/-- The matching block that was pushed last -/
def Ledger.find (g : Ledger) (cmp : List UInt8 → List UInt8 → Bool) (key : List UInt8) : Option (BitVec 64) :=
  (g.stored.find? fun e => cmp key e.1).map Prod.snd

def Ledger.alloc (g : Ledger) (addr : Option (BitVec 64)) : Ledger :=
  { g with held := addr.toList ++ g.held, allocs := g.allocs + 1 }

def Ledger.dealloc (g : Ledger) (addr : BitVec 64) : Ledger :=
  { g with held := g.held.erase addr, deallocs := g.deallocs + 1 }

def Ledger.push (g : Ledger) (key : List UInt8) (addr : BitVec 64) : Ledger :=
  { g with held := g.held.erase addr, stored := (key, addr) :: g.stored }

/-- The block that was found is in hand again. -/
def Ledger.pop (g : Ledger) (cmp : List UInt8 → List UInt8 → Bool) (key : List UInt8) (addr : BitVec 64) : Ledger :=
  { g with held := addr :: g.held, stored := g.stored.eraseP fun e => cmp key e.1 }

/-- What a call has returned, with the ledger before it. -/
inductive Answer where
  | block (ledger : Ledger) (addr : Option (BitVec 64))
  | popped (ledger : Ledger) (key : List UInt8) (addr : Option (BitVec 64))
  | other

/-- The table, the ledger of the process, and the last answer. -/
structure World where
  sh : ShmHash
  ledger : Ledger
  last : Answer

variable (fuel : Nat) (cmp : List UInt8 → List UInt8 → Bool)

def World.next (w : World) : Call → Option World
  | .alloc => w.sh.shmHashAlloc.map fun r => ⟨r.1, w.ledger.alloc r.2, .block w.ledger r.2⟩
  | .dealloc p => (w.sh.shmHashDealloc p).map fun sh => ⟨sh, w.ledger.dealloc p, .other⟩
  | .push key p => (shmHashPush { w.sh with key := Function.update w.sh.key p key } key p).map fun r =>
    ⟨r.1, if r.2 = 0 then w.ledger.push key p else w.ledger, .other⟩
  | .pop key => (shmHashPop fuel cmp w.sh key).map fun r =>
    ⟨r.1, r.2.elim w.ledger (w.ledger.pop cmp key), .popped w.ledger key r.2⟩

end ShmHash

end BeehiveIm.Core
