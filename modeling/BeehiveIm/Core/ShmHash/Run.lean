/-
Runs of the calls of one process on a hash table in shared memory. A block that goes
back to the pool goes back with the sign of its offset turned, so all is right until the
pool hands one of those out.
-/
import BeehiveIm.Core.Ring.Fifo
import BeehiveIm.Core.ShmHash
import BeehiveIm.Core.ShmList

namespace BeehiveIm.Core.ShmHash

open BeehiveIm.Lib

/-! ## What is right -/

/-- The block lies in the data area. -/
def Inside (sh : ShmHash) (p : BitVec 64) : Prop :=
  let start := sh.addr.toNat + dataOffset sh.len sh.max
  let stop := sh.addr.toNat + totalSize sh.len sh.max sh.size
  start ≤ p.toNat ∧ p.toNat < stop ∧ p.toNat + sh.size ≤ stop

/-- No block is refused while there is one; the block that is popped is the one that was
pushed last under the key. -/
def Answers (cmp : List UInt8 → List UInt8 → Bool) (sh : ShmHash) : Answer → Prop
  | .block g none => sh.max.toNat ≤ g.used.length
  | .block _ (some _) => True
  | .popped g key p => p = g.find cmp key
  | .other => True

/-- The blocks in use are distinct and lie in the data area, and the last call has answered
right. -/
structure Right (cmp : List UInt8 → List UInt8 → Bool) (w : World) : Prop where
  nodup : w.ledger.used.Nodup
  inside : ∀ p ∈ w.ledger.used, Inside w.sh p
  answer : Answers cmp w.sh w.last

/-- A process gives away only what it holds. -/
def Owns (w : World) : Call → Prop
  | .dealloc p => p ∈ w.ledger.held
  | .push _ p => p ∈ w.ledger.held
  | _ => True

/-- The pool has not gone round, or no block has come back to it. -/
def Meets (w : World) : Call → Prop
  | .alloc => 0 < w.sh.size ∧ (w.ledger.allocs < w.sh.max.toNat ∨ w.ledger.deallocs = 0)
  | _ => True

/-! ## Offsets -/

variable {sh : ShmHash} {g : Ledger} {w : World} {p : BitVec 64} {i j fuel : Nat} {rq : Ring} {items : List Ptr}

/-- The memory is mapped below the upper half of the addresses. -/
structure Mapped (addr : BitVec 64) (len : Nat) (max : BitVec 32) (size : Nat) : Prop where
  slots : 0 < len
  pow : ∃ k ≤ 30, max.toNat = 2 ^ k
  fits : addr.toNat + totalSize len max size ≤ 2 ^ 63

/-- The offset of a block -/
def blockOff (sh : ShmHash) (i : Nat) : Nat := dataOffset sh.len sh.max + i * sh.size

/-- The address of a block -/
def block (sh : ShmHash) (i : Nat) : BitVec 64 := sh.addr + BitVec.ofNat 64 (sh.blockOff i)

theorem dataOffset_pos (len : Nat) (max : BitVec 32) : 40 ≤ dataOffset len max := by
  unfold dataOffset nodeOffset
  omega

theorem blockOff_le (hi : i < sh.max.toNat) : sh.blockOff i + sh.size ≤ totalSize sh.len sh.max sh.size := by
  have hmul : (i + 1) * sh.size ≤ sh.max.toNat * sh.size := Nat.mul_le_mul_right _ hi
  rw [Nat.succ_mul] at hmul
  unfold blockOff totalSize
  omega

variable (hmapped : Mapped sh.addr sh.len sh.max sh.size)

include hmapped

theorem block_toNat (hi : i < sh.max.toNat) : (sh.block i).toNat = sh.addr.toNat + sh.blockOff i := by
  have hfits := hmapped.fits
  have hle := blockOff_le hi
  unfold block
  rw [BitVec.toNat_add, BitVec.toNat_ofNat]
  omega

theorem block_inside (hi : i < sh.max.toNat) (hsize : 0 < sh.size) : Inside sh (sh.block i) := by
  have hle := blockOff_le hi
  have hstart : dataOffset sh.len sh.max ≤ sh.blockOff i := Nat.le_add_right _ _
  unfold Inside
  rw [block_toNat hmapped hi]
  dsimp only
  omega

theorem block_inj (hi : i < sh.max.toNat) (hj : j < sh.max.toNat) (hsize : 0 < sh.size) (h : sh.block i = sh.block j) :
    i = j := by
  have hnat : sh.addr.toNat + sh.blockOff i = sh.addr.toNat + sh.blockOff j := by
    rw [← block_toNat hmapped hi, ← block_toNat hmapped hj, h]
  unfold blockOff at hnat
  exact Nat.eq_of_mul_eq_mul_right hsize (by omega)

/-- What `shm_hash_dealloc` keeps of a block -/
theorem dealloc_off (hi : i < sh.max.toNat) : (sh.addr - sh.block i).toNat = 2 ^ 64 - sh.blockOff i := by
  have hfits := hmapped.fits
  have hle := blockOff_le hi
  have hpos : 40 ≤ sh.blockOff i := (dataOffset_pos sh.len sh.max).trans (Nat.le_add_right _ _)
  rw [BitVec.toNat_sub, block_toNat hmapped hi]
  omega

/-- The pool does not take it for an empty ring's answer, and it is not the offset of a block. -/
theorem turned_outside (hi : i < sh.max.toNat) :
    BitVec.ofNat 64 (2 ^ 64 - sh.blockOff i) ≠ -1 ∧ ¬Inside sh (sh.addr + BitVec.ofNat 64 (2 ^ 64 - sh.blockOff i)) := by
  have hfits := hmapped.fits
  have hle := blockOff_le hi
  have hpos : 40 ≤ sh.blockOff i := (dataOffset_pos sh.len sh.max).trans (Nat.le_add_right _ _)
  have hstart : dataOffset sh.len sh.max ≤ sh.blockOff i := Nat.le_add_right _ _
  have hoff : (BitVec.ofNat 64 (2 ^ 64 - sh.blockOff i)).toNat = 2 ^ 64 - sh.blockOff i := by
    rw [BitVec.toNat_ofNat]
    omega
  constructor
  · intro h
    rw [h] at hoff
    have hneg : (-1 : BitVec 64).toNat = 2 ^ 64 - 1 := rfl
    omega
  · intro hinside
    unfold Inside at hinside
    rw [BitVec.toNat_add, hoff] at hinside
    dsimp only at hinside
    omega

omit hmapped

/-! ## Pools -/

theorem pop_keeps (h : rq.Keeps items) :
    ∃ rq', shmRingPop rq = some (rq', (items.head?.map (BitVec.ofNat 64)).getD (-1)) ∧ rq'.max = rq.max ∧
      rq'.Keeps items.tail := by
  obtain ⟨rq', hpop, hmax, h'⟩ := h.mpop_one
  refine ⟨rq', ?_, hmax, h'⟩
  rw [shmRingPop, hpop]
  cases items <;> rfl

theorem push_keeps (h : rq.Keeps items) (off : Off) (hroom : items.length < rq.max.toNat) :
    ∃ rq', shmRingPush rq off = some (rq', true) ∧ rq'.max = rq.max ∧ rq'.Keeps (items ++ [off.toNat]) :=
  h.push off.toNat hroom

/-- Offsets that are 64-bit numbers go into the ring as they are. -/
theorem foldlM_pushOff : ∀ {offs : List Nat} (rq : Ring), (∀ off ∈ offs, off < 2 ^ 64) →
    offs.foldlM pushOff rq = offs.foldlM Slot.pushBlock rq
  | [], _, _ => rfl
  | off :: offs, rq, h => by
    have hoff : (BitVec.ofNat 64 off).toNat = off := by
      rw [BitVec.toNat_ofNat]
      exact Nat.mod_eq_of_lt (h off List.mem_cons_self)
    have hone : pushOff rq off = Slot.pushBlock rq off := by
      unfold pushOff shmRingPush
      rw [hoff]
      rfl
    rw [List.foldlM_cons, List.foldlM_cons, hone]
    congr 1
    funext rq'
    exact foldlM_pushOff rq' fun off hoff => h off (List.mem_cons_of_mem _ hoff)

/-- A ring of a power of two is filled. -/
theorem pool_keeps {max : BitVec 32} (hmax : ∃ k ≤ 30, max.toNat = 2 ^ k) {offs : List Nat} (hlen : offs.length = max.toNat)
    (hoffs : ∀ off ∈ offs, off < 2 ^ 64) :
    ∃ ring rq, shmRingInit max = some ring ∧ offs.foldlM pushOff ring = some rq ∧ rq.max = max ∧ rq.Keeps offs := by
  obtain ⟨k, hk, hpow⟩ := hmax
  have hle : max.toNat ≤ 2 ^ 30 := hpow ▸ Nat.pow_le_pow_right (by omega) hk
  have hne : max ≠ 0 := by
    rintro rfl
    exact absurd hpow (Nat.two_pow_pos k).ne
  have hp : isPowerOf2 max = true := (isPowerOf2_iff hne).2 ⟨k, hpow⟩
  have hpower : power2 max = max := if_pos hp
  have hring : Ring.ringCreat max = ⟨max, max - 1, 0, fun _ => 0, ⟨0, 0⟩, ⟨0, 0⟩⟩ := by
    unfold Ring.ringCreat
    rw [hpower]
  obtain ⟨rq, hfold, hrqmax, hkeeps⟩ := Queue.foldlM_pushBlock offs (Ring.ringCreat_keeps hle) (by
    show 0 + offs.length ≤ (power2 max).toNat
    rw [hpower]
    omega)
  refine ⟨Ring.ringCreat max, rq, ?_, ?_, ?_, ?_⟩
  · rw [shmRingInit, if_pos hp, hring]
  · rw [foldlM_pushOff _ hoffs, hfold]
  · rw [hrqmax]
    exact hpower
  · exact hkeeps

/-! ## The invariant -/

/-- A stored block: its node, its key, its address -/
abbrev Entry := Nat × List UInt8 × BitVec 64

variable {es es₁ es₂ : List Entry} {e : Entry} {nodes back : List Nat}

/-- The list of a slot -/
def slotList (sh : ShmHash) (es : List Entry) (j : Nat) : List (Nat × Off) :=
  (es.filter fun e => sh.idx e.2.1 = j).map fun e => (e.1, e.2.2 - sh.addr)

/-- The blocks that are in use are among those that the pool gave out on its first round. -/
structure Blocks (sh : ShmHash) (allocs deallocs : Nat) (used : List (BitVec 64)) : Prop where
  nodup : used.Nodup
  given : ∀ p ∈ used, ∃ i < min allocs sh.max.toNat, p = sh.block i
  count : used.length + deallocs = min allocs sh.max.toNat

/-- What the memory keeps of the blocks: `es` are stored, `nodes` are free, and `back` has
come back to the pool. -/
structure Kept (sh : ShmHash) (g : Ledger) (es : List Entry) (nodes back : List Nat) : Prop where
  mapped : Mapped sh.addr sh.len sh.max sh.size
  stored : es.map Prod.snd = g.stored
  key : ∀ e ∈ es, sh.key e.2.2 = e.2.1
  slots : ∀ j, ShmList.Shows (sh.node, sh.slot j) (sh.slotList es j)
  nodeMax : sh.nodePool.max = sh.max
  nodePool : sh.nodePool.Keeps nodes
  perm : (es.map Prod.fst ++ nodes).Perm (offsets (nodeOffset sh.len sh.max) 24 sh.max)
  dataMax : sh.dataPool.max = sh.max
  dataPool : sh.dataPool.Keeps ((offsets (dataOffset sh.len sh.max) sh.size sh.max).drop g.allocs ++ back)
  turned : ∀ b ∈ back, ∃ i < sh.max.toNat, b = 2 ^ 64 - sh.blockOff i
  returned : back.length = g.deallocs
  blocks : Blocks sh g.allocs g.deallocs g.used
  sized : 0 < sh.size ∨ g.allocs = 0

theorem length_offsets (start step : Nat) (max : BitVec 32) : (offsets start step max).length = max.toNat := by
  simp [offsets]

theorem Blocks.perm {used used' : List (BitVec 64)} {a d : Nat} (h : Blocks sh a d used) (hp : used'.Perm used) :
    Blocks sh a d used' :=
  ⟨hp.nodup_iff.2 h.nodup, fun p hmem => h.given p (hp.mem_iff.1 hmem), by rw [hp.length_eq]; exact h.count⟩

/-- Only the place and the size of the blocks matter. -/
theorem Blocks.move {used : List (BitVec 64)} {a d : Nat} (h : Blocks sh a d used) {sh' : ShmHash}
    (hblock : sh'.block = sh.block) (hmax : sh'.max = sh.max) : Blocks sh' a d used :=
  ⟨h.nodup, by rw [hblock, hmax]; exact h.given, by rw [hmax]; exact h.count⟩

theorem Blocks.inside {used : List (BitVec 64)} {a d : Nat} (h : Blocks sh a d used)
    (hmapped : Mapped sh.addr sh.len sh.max sh.size) (hsize : 0 < sh.size ∨ a = 0) : ∀ p ∈ used, Inside sh p := by
  intro p hp
  obtain ⟨i, hi, rfl⟩ := h.given p hp
  exact block_inside hmapped (by omega) (by omega)

/-- Every node is one of the area of the nodes. -/
theorem Kept.node_range (h : Kept sh g es nodes back) {n : Nat} (hn : n ∈ es.map Prod.fst ++ nodes) :
    40 ≤ n ∧ n < 2 ^ 63 := by
  have hfits := h.mapped.fits
  obtain ⟨i, hi, rfl⟩ := List.mem_map.1 (h.perm.mem_iff.1 hn)
  rw [List.mem_range] at hi
  unfold totalSize dataOffset at hfits
  unfold nodeOffset at hfits ⊢
  omega

theorem Kept.nodup (h : Kept sh g es nodes back) : (es.map Prod.fst ++ nodes).Nodup := by
  refine h.perm.nodup_iff.2 ?_
  refine List.Nodup.map_on (fun i _ j _ hij => ?_) List.nodup_range
  omega

theorem Kept.count (h : Kept sh g es nodes back) : es.length + nodes.length = sh.max.toNat := by
  have hlen := h.perm.length_eq
  rwa [List.length_append, List.length_map, length_offsets] at hlen

theorem slotList_cons (e : Entry) (es : List Entry) (j : Nat) :
    sh.slotList (e :: es) j = (if sh.idx e.2.1 = j then [(e.1, e.2.2 - sh.addr)] else []) ++ sh.slotList es j := by
  unfold slotList
  rw [List.filter_cons]
  by_cases h : sh.idx e.2.1 = j <;> simp [h]

theorem mem_slotList {n : Nat} (h : n ∈ (sh.slotList es j).map Prod.fst) : ∃ e ∈ es, e.1 = n ∧ sh.idx e.2.1 = j := by
  unfold slotList at h
  rw [List.map_map] at h
  obtain ⟨e, he, rfl⟩ := List.mem_map.1 h
  obtain ⟨he, hj⟩ := List.mem_filter.1 he
  exact ⟨e, he, rfl, by simpa using hj⟩

theorem length_slotList_le : (sh.slotList es j).length ≤ es.length := by
  unfold slotList
  rw [List.length_map]
  exact List.length_filter_le _ _

/-- The nodes of two slots are different ones. -/
theorem Kept.slot_disjoint (h : Kept sh g es nodes back) (hij : i ≠ j) {n : Nat}
    (hn : n ∈ (sh.slotList es i).map Prod.fst) : n ∉ (sh.slotList es j).map Prod.fst := by
  intro hn'
  obtain ⟨e, he, rfl, rfl⟩ := mem_slotList hn
  obtain ⟨e', he', hfst, rfl⟩ := mem_slotList hn'
  have hinj := List.inj_on_of_nodup_map h.nodup.of_append_left
  rw [hinj he' he hfst] at hij
  exact hij rfl

/-! ## The calls -/

/-- The table as `shm_hash_init` leaves it -/
theorem init_kept {addr : BitVec 64} {len size : Nat} {max : BitVec 32} (hmapped : Mapped addr len max size)
    (node : ShmMem Off) (key : BitVec 64 → List UInt8) :
    ∃ sh, shmHashInit addr len max size node key = some sh ∧ sh.max = max ∧
      Kept sh ⟨[], [], 0, 0⟩ [] (offsets (nodeOffset len max) 24 max) [] := by
  have hfits := hmapped.fits
  obtain ⟨ring₁, nodePool, hring₁, hfold₁, hmax₁, hkeeps₁⟩ :=
    pool_keeps hmapped.pow (length_offsets (nodeOffset len max) 24 max) fun off hoff => by
      obtain ⟨i, hi, rfl⟩ := List.mem_map.1 hoff
      rw [List.mem_range] at hi
      unfold totalSize dataOffset at hfits
      omega
  obtain ⟨ring₂, dataPool, hring₂, hfold₂, hmax₂, hkeeps₂⟩ :=
    pool_keeps hmapped.pow (length_offsets (dataOffset len max) size max) fun off hoff => by
      obtain ⟨i, hi, rfl⟩ := List.mem_map.1 hoff
      rw [List.mem_range] at hi
      have hmul : i * size ≤ max.toNat * size := Nat.mul_le_mul_right _ hi.le
      unfold totalSize at hfits
      omega
  refine ⟨⟨addr, len, max, size, fun _ => ⟨0, 0⟩, node, nodePool, dataPool, key⟩, ?_, rfl, ?_⟩
  · obtain rfl : ring₁ = ring₂ := Option.some.inj (hring₁.symm.trans hring₂)
    unfold shmHashInit
    simp only [hring₁, Option.bind_eq_bind, Option.bind_some, hfold₁, hfold₂]
  · exact {
      mapped := hmapped
      stored := rfl
      key := fun _ he => (List.not_mem_nil he).elim
      slots := fun j => ⟨rings_nil, fun _ he => (List.not_mem_nil he).elim, rfl⟩
      nodeMax := hmax₁
      nodePool := hkeeps₁
      perm := List.Perm.refl _
      dataMax := hmax₂
      dataPool := by
        rw [List.append_nil, List.drop_zero]
        exact hkeeps₂
      turned := fun _ hb => (List.not_mem_nil hb).elim
      returned := rfl
      blocks := ⟨List.nodup_nil, fun _ hp => (List.not_mem_nil hp).elim, by simp [Ledger.used]⟩
      sized := Or.inr rfl }

variable {cmp : List UInt8 → List UInt8 → Bool}

theorem not_inside_of_size (hsize : sh.size = 0) : ¬Inside sh p := by
  unfold Inside totalSize
  rw [hsize]
  dsimp only
  omega

theorem block_off_ne (hmapped : Mapped sh.addr sh.len sh.max sh.size) (hi : i < sh.max.toNat) :
    BitVec.ofNat 64 (sh.blockOff i) ≠ -1 := by
  have hfits := hmapped.fits
  have hle := blockOff_le hi
  intro h
  have hnat : (BitVec.ofNat 64 (sh.blockOff i)).toNat = 2 ^ 64 - 1 := by rw [h]; rfl
  rw [BitVec.toNat_ofNat] at hnat
  omega

theorem used_alloc (g : Ledger) (q : Option (BitVec 64)) : (g.alloc q).used = q.toList ++ g.used := List.append_assoc ..

/-- The pool of the blocks changes, and nothing else. -/
theorem Kept.setDataPool (h : Kept sh g es nodes back) {g' : Ledger} {back' : List Nat} (hstored : g'.stored = g.stored)
    (hmax : rq.max = sh.max)
    (hpool : rq.Keeps ((offsets (dataOffset sh.len sh.max) sh.size sh.max).drop g'.allocs ++ back'))
    (hturned : ∀ b ∈ back', ∃ i < sh.max.toNat, b = 2 ^ 64 - sh.blockOff i) (hreturned : back'.length = g'.deallocs)
    (hblocks : Blocks sh g'.allocs g'.deallocs g'.used) (hsized : 0 < sh.size ∨ g'.allocs = 0) :
    Kept { sh with dataPool := rq } g' es nodes back' where
  mapped := h.mapped
  stored := h.stored.trans hstored.symm
  key := h.key
  slots := h.slots
  nodeMax := h.nodeMax
  nodePool := h.nodePool
  perm := h.perm
  dataMax := hmax
  dataPool := hpool
  turned := hturned
  returned := hreturned
  blocks := hblocks.move rfl rfl
  sized := hsized

/-- While the pool is on its first round it gives out the next block; then it is empty, or
has one that came back. -/
theorem Kept.alloc (h : Kept w.sh w.ledger es nodes back) :
    ∃ w', w.next fuel cmp .alloc = some w' ∧ (Right cmp w' → Meets w .alloc) ∧
      (Meets w .alloc → Kept w'.sh w'.ledger es nodes back ∧ Answers cmp w'.sh w'.last) := by
  obtain ⟨k, -, hpow⟩ := h.mapped.pow
  have hmaxpos : 0 < w.sh.max.toNat := hpow ▸ Nat.two_pow_pos k
  obtain ⟨rq, hpop, hrqmax, hkeeps⟩ := pop_keeps h.dataPool
  rcases Nat.lt_or_ge w.ledger.allocs w.sh.max.toNat with hlt | hge
  · have hdrop : (offsets (dataOffset w.sh.len w.sh.max) w.sh.size w.sh.max).drop w.ledger.allocs =
        w.sh.blockOff w.ledger.allocs ::
          (offsets (dataOffset w.sh.len w.sh.max) w.sh.size w.sh.max).drop (w.ledger.allocs + 1) := by
      rw [List.drop_eq_getElem_cons (by rwa [length_offsets])]
      simp [offsets, blockOff]
    rw [hdrop, List.cons_append] at hpop hkeeps
    have hnext : w.next fuel cmp .alloc = some ⟨{ w.sh with dataPool := rq },
        w.ledger.alloc (some (w.sh.block w.ledger.allocs)), .block w.ledger (some (w.sh.block w.ledger.allocs))⟩ := by
      unfold World.next shmHashAlloc
      rw [hpop]
      simp only [List.head?_cons, Option.map_some, Option.getD_some, if_neg (block_off_ne h.mapped hlt)]
      rfl
    refine ⟨_, hnext, fun hright => ⟨?_, Or.inl hlt⟩, fun hmeets => ⟨?_, trivial⟩⟩
    · by_contra hsize
      have hin := hright.inside (w.sh.block w.ledger.allocs) (by simp [used_alloc])
      exact not_inside_of_size (by show w.sh.size = 0; omega) hin
    · have hfresh : w.sh.block w.ledger.allocs ∉ w.ledger.used := by
        intro hmem
        obtain ⟨i, hi, heq⟩ := h.blocks.given _ hmem
        have hinj := block_inj h.mapped hlt (by omega) hmeets.1 heq
        omega
      have hcount := h.blocks.count
      refine h.setDataPool rfl (hrqmax.trans h.dataMax) hkeeps h.turned h.returned ?_ (Or.inl hmeets.1)
      rw [used_alloc]
      refine ⟨List.nodup_cons.2 ⟨hfresh, h.blocks.nodup⟩, fun p hp => ?_, ?_⟩
      · show ∃ i < min (w.ledger.allocs + 1) w.sh.max.toNat, p = w.sh.block i
        rcases List.mem_cons.1 hp with rfl | hp
        · exact ⟨w.ledger.allocs, by omega, rfl⟩
        · obtain ⟨i, hi, rfl⟩ := h.blocks.given p hp
          exact ⟨i, by omega, rfl⟩
      · show (_ :: w.ledger.used).length + w.ledger.deallocs = min (w.ledger.allocs + 1) w.sh.max.toNat
        rw [List.length_cons]
        omega
  · rw [List.drop_of_length_le (by rwa [length_offsets]), List.nil_append] at hpop hkeeps
    have hcount := h.blocks.count
    cases back with
    | nil =>
      have hzero : w.ledger.deallocs = 0 := h.returned.symm
      have hnext : w.next fuel cmp .alloc =
          some ⟨{ w.sh with dataPool := rq }, w.ledger.alloc none, .block w.ledger none⟩ := by
        unfold World.next shmHashAlloc
        rw [hpop]
        rfl
      have hsize : 0 < w.sh.size := h.sized.resolve_right (by omega)
      refine ⟨_, hnext, fun _ => ⟨hsize, Or.inr hzero⟩, fun _ => ⟨?_, ?_⟩⟩
      · have hround : rq.Keeps
            ((offsets (dataOffset w.sh.len w.sh.max) w.sh.size w.sh.max).drop (w.ledger.allocs + 1) ++ []) := by
          rw [List.drop_of_length_le (by rw [length_offsets]; exact Nat.le_succ_of_le hge)]
          exact hkeeps
        refine h.setDataPool rfl (hrqmax.trans h.dataMax) hround h.turned h.returned ?_ (Or.inl hsize)
        rw [used_alloc]
        refine ⟨h.blocks.nodup, fun p hp => ?_, ?_⟩
        · show ∃ i < min (w.ledger.allocs + 1) w.sh.max.toNat, p = w.sh.block i
          obtain ⟨i, hi, rfl⟩ := h.blocks.given p hp
          exact ⟨i, by omega, rfl⟩
        · show w.ledger.used.length + w.ledger.deallocs = min (w.ledger.allocs + 1) w.sh.max.toNat
          omega
      · show w.sh.max.toNat ≤ w.ledger.used.length
        omega
    | cons b back =>
      obtain ⟨i, hi, rfl⟩ := h.turned b List.mem_cons_self
      obtain ⟨hne, houtside⟩ := turned_outside h.mapped hi
      have hnext : w.next fuel cmp .alloc = some ⟨{ w.sh with dataPool := rq },
          w.ledger.alloc (some (w.sh.addr + BitVec.ofNat 64 (2 ^ 64 - w.sh.blockOff i))),
          .block w.ledger (some (w.sh.addr + BitVec.ofNat 64 (2 ^ 64 - w.sh.blockOff i)))⟩ := by
        unfold World.next shmHashAlloc
        rw [hpop]
        simp only [List.head?_cons, Option.map_some, Option.getD_some, if_neg hne]
      have hreturned := h.returned
      rw [List.length_cons] at hreturned
      refine ⟨_, hnext, fun hright => ?_, fun hmeets => ?_⟩
      · exact absurd (hright.inside _ (by rw [used_alloc]; exact List.mem_cons_self)) houtside
      · exact absurd hmeets.2 (by omega)

/-- The pool has room for a block that was in use; what goes into it has its sign turned. -/
theorem Kept.dealloc (h : Kept w.sh w.ledger es nodes back) (hp : p ∈ w.ledger.held) :
    ∃ w' back', w.next fuel cmp (.dealloc p) = some w' ∧ Kept w'.sh w'.ledger es nodes back' ∧
      Answers cmp w'.sh w'.last := by
  have hperm : (p :: (w.ledger.dealloc p).used).Perm w.ledger.used := by
    show (p :: (w.ledger.held.erase p ++ _)).Perm (w.ledger.held ++ _)
    rw [← List.cons_append]
    exact (List.perm_cons_erase hp).symm.append_right _
  have hblocks := h.blocks.perm hperm
  obtain ⟨i, hi, hpi⟩ := hblocks.given p List.mem_cons_self
  have hcount := hblocks.count
  rw [List.length_cons] at hcount
  have hturned : (w.sh.addr - p).toNat = 2 ^ 64 - w.sh.blockOff i := by
    rw [hpi]
    exact dealloc_off h.mapped (by omega)
  have hroom : ((offsets (dataOffset w.sh.len w.sh.max) w.sh.size w.sh.max).drop w.ledger.allocs ++ back).length <
      w.sh.dataPool.max.toNat := by
    rw [List.length_append, List.length_drop, length_offsets, h.returned, h.dataMax]
    omega
  obtain ⟨rq, hpush, hrqmax, hkeeps⟩ := push_keeps h.dataPool (w.sh.addr - p) hroom
  rw [List.append_assoc] at hkeeps
  have hnext : w.next fuel cmp (.dealloc p) = some ⟨{ w.sh with dataPool := rq }, w.ledger.dealloc p, .other⟩ := by
    unfold World.next shmHashDealloc
    simp only [hpush, Option.map_some]
  refine ⟨_, back ++ [(w.sh.addr - p).toNat], hnext, ?_, trivial⟩
  refine h.setDataPool rfl (hrqmax.trans h.dataMax) hkeeps (fun b hb => ?_) ?_ ?_ h.sized
  · rcases List.mem_append.1 hb with hb | hb
    · exact h.turned b hb
    · exact ⟨i, by omega, (List.mem_singleton.1 hb).trans hturned⟩
  · rw [List.length_append, h.returned]
    rfl
  · refine ⟨(List.nodup_cons.1 hblocks.nodup).2, fun q hq => hblocks.given q (List.mem_cons_of_mem p hq), ?_⟩
    show (w.ledger.dealloc p).used.length + (w.ledger.deallocs + 1) = min w.ledger.allocs w.sh.max.toNat
    omega

/-- There is a node for every block, and the list of the slot takes it at its head. -/
theorem Kept.push (h : Kept w.sh w.ledger es nodes back) (hp : p ∈ w.ledger.held) (key : List UInt8) :
    ∃ w' es' nodes', w.next fuel cmp (.push key p) = some w' ∧ Kept w'.sh w'.ledger es' nodes' back ∧
      Answers cmp w'.sh w'.last := by
  have hperm : (w.ledger.push key p).used.Perm w.ledger.used := by
    show (w.ledger.held.erase p ++ (p :: _)).Perm (w.ledger.held ++ _)
    refine List.perm_middle.trans ?_
    rw [← List.cons_append]
    exact (List.perm_cons_erase hp).symm.append_right _
  have hlen : es.length < w.sh.max.toNat := by
    have hcount := h.blocks.count
    have hstored := congrArg List.length h.stored
    rw [List.length_map] at hstored
    have hheld := List.length_pos_of_mem hp
    unfold Ledger.used at hcount
    rw [List.length_append, List.length_map] at hcount
    omega
  have hsize := h.count
  obtain ⟨n, nodes', hnodes⟩ := List.exists_cons_of_length_pos (l := nodes) (by omega)
  subst hnodes
  obtain ⟨hlow, hhigh⟩ := h.node_range (n := n) (by simp)
  have hn : (BitVec.ofNat 64 n).toNat = n := by
    rw [BitVec.toNat_ofNat]
    omega
  have hne : BitVec.ofNat 64 n ≠ -1 := by
    intro heq
    have hneg : (BitVec.ofNat 64 n).toNat = 2 ^ 64 - 1 := by rw [heq]; rfl
    omega
  have hnodup := h.nodup
  have hfree : ∀ e ∈ es, e.1 ≠ n := fun e he heq =>
    (List.nodup_append.1 hnodup).2.2 e.1 (List.mem_map_of_mem he) n List.mem_cons_self heq
  have hnotin : ∀ j, n ∉ (w.sh.slotList es j).map Prod.fst := fun j hmem => by
    obtain ⟨e, he, heq, -⟩ := mem_slotList hmem
    exact hfree e he heq
  -- the key is written into a block that no entry has
  have hother : ∀ e ∈ es, e.2.2 ≠ p := fun e he heq => by
    have hmem : p ∈ w.ledger.stored.map Prod.snd := by
      rw [← h.stored, List.map_map, ← heq]
      exact List.mem_map_of_mem he
    exact (List.nodup_append.1 h.blocks.nodup).2.2 p hp p hmem rfl
  obtain ⟨rq, hpop, hrqmax, hkeeps⟩ := pop_keeps h.nodePool
  let s := ShmList.shmListLpush (setData w.sh.node n (p - w.sh.addr)) (w.sh.slot (w.sh.idx key)) n
  have hnext : w.next fuel cmp (.push key p) = some ⟨{ w.sh with
      key := Function.update w.sh.key p key
      nodePool := rq
      node := s.1
      slot := Function.update w.sh.slot (w.sh.idx key) s.2 }, w.ledger.push key p, .other⟩ := by
    unfold World.next shmHashPush
    simp only [hpop, List.head?_cons, Option.map_some, Option.getD_some, if_neg hne, hn]
    rfl
  refine ⟨_, (n, key, p) :: es, nodes', hnext, ?_, trivial⟩
  exact {
    mapped := h.mapped
    stored := by
      rw [List.map_cons, h.stored]
      rfl
    key := fun e he => by
      rcases List.mem_cons.1 he with rfl | he
      · exact Function.update_self ..
      · exact (Function.update_of_ne (hother e he) ..).trans (h.key e he)
    slots := fun j => by
      show ShmList.Shows (s.1, Function.update w.sh.slot (w.sh.idx key) s.2 j) (w.sh.slotList ((n, key, p) :: es) j)
      rw [slotList_cons]
      by_cases hj : w.sh.idx key = j
      · rw [if_pos hj, ← hj, Function.update_self]
        exact (h.slots _).lpush (by omega) (hnotin _)
      · rw [if_neg hj, Function.update_of_ne (fun heq => hj heq.symm)]
        refine (h.slots j).congr fun x hx => ShmList.lpush_frame (h.slots (w.sh.idx key)) ?_ ?_
        · exact h.slot_disjoint (fun heq => hj heq.symm) hx
        · rintro rfl
          exact hnotin j hx
    nodeMax := hrqmax.trans h.nodeMax
    nodePool := hkeeps
    perm := by
      refine (List.Perm.trans ?_ List.perm_middle.symm).trans h.perm
      rfl
    dataMax := h.dataMax
    dataPool := h.dataPool
    turned := h.turned
    returned := h.returned
    blocks := (h.blocks.perm hperm).move rfl rfl
    sized := h.sized }

section Find

variable (hcmp : ∀ k k', cmp k k' = true → hashTime33Ex k = hashTime33Ex k') (key : List UInt8)

include hcmp

theorem idx_of_cmp {k : List UInt8} (h : cmp key k = true) : sh.idx k = sh.idx key := by
  unfold idx
  rw [hcmp key k h]

/-- The walk in the slot of the key finds what a walk over all entries would. -/
theorem find_slotList : ∀ {es : List Entry}, (∀ e ∈ es, sh.key e.2.2 = e.2.1) →
    (sh.slotList es (sh.idx key)).find? (fun x => cmp key (sh.key (sh.addr + x.2))) =
      (es.find? fun e => cmp key e.2.1).map fun e => (e.1, e.2.2 - sh.addr)
  | [], _ => rfl
  | e :: es, h => by
    have hrest := find_slotList fun e he => h e (List.mem_cons_of_mem _ he)
    have hkey : sh.key (sh.addr + (e.2.2 - sh.addr)) = e.2.1 := by
      rw [BitVec.add_comm, BitVec.sub_add_cancel]
      exact h e List.mem_cons_self
    rw [slotList_cons, List.find?_cons]
    cases hc : cmp key e.2.1 with
    | true =>
      rw [if_pos (idx_of_cmp hcmp key hc), List.singleton_append, List.find?_cons, hkey, hc]
      rfl
    | false =>
      split
      · rw [List.singleton_append, List.find?_cons, hkey, hc]
        exact hrest
      · exact hrest

theorem eraseP_slotList : ∀ {es : List Entry}, (∀ e ∈ es, sh.key e.2.2 = e.2.1) →
    (sh.slotList es (sh.idx key)).eraseP (fun x => cmp key (sh.key (sh.addr + x.2))) =
      sh.slotList (es.eraseP fun e => cmp key e.2.1) (sh.idx key)
  | [], _ => rfl
  | e :: es, h => by
    have hrest := eraseP_slotList fun e he => h e (List.mem_cons_of_mem _ he)
    have hkey : sh.key (sh.addr + (e.2.2 - sh.addr)) = e.2.1 := by
      rw [BitVec.add_comm, BitVec.sub_add_cancel]
      exact h e List.mem_cons_self
    rw [slotList_cons, List.eraseP_cons]
    cases hc : cmp key e.2.1 with
    | true =>
      rw [if_pos (idx_of_cmp hcmp key hc), List.singleton_append, List.eraseP_cons, hkey, hc]
      rfl
    | false =>
      rw [cond_false, slotList_cons]
      split
      · rw [List.singleton_append, List.singleton_append, List.eraseP_cons, hkey, hc, cond_false, hrest]
      · rw [List.nil_append, List.nil_append, hrest]

/-- The other slots keep their lists. -/
theorem slotList_eraseP (hj : j ≠ sh.idx key) : ∀ {es : List Entry},
    sh.slotList (es.eraseP fun e => cmp key e.2.1) j = sh.slotList es j
  | [] => rfl
  | e :: es => by
    rw [List.eraseP_cons]
    cases hc : cmp key e.2.1 with
    | true =>
      rw [cond_true, slotList_cons e es, if_neg (by rw [idx_of_cmp hcmp key hc]; exact hj.symm), List.nil_append]
    | false => rw [cond_false, slotList_cons, slotList_cons, slotList_eraseP hj]

/-- The entry that is found goes out of its slot, and its node goes back to the nodes. -/
theorem Kept.pop (h : Kept w.sh w.ledger es nodes back) (hfuel : w.sh.max.toNat ≤ fuel) :
    ∃ w' es' nodes', w.next fuel cmp (.pop key) = some w' ∧ Kept w'.sh w'.ledger es' nodes' back ∧
      Answers cmp w'.sh w'.last := by
  have hcount := h.count
  have hlen : (w.sh.slotList es (w.sh.idx key)).length ≤ fuel := length_slotList_le.trans (by omega)
  obtain ⟨r, hr, hshows, hnode⟩ := (h.slots (w.sh.idx key)).queryAndDelete
    (fun off => cmp key (w.sh.key (w.sh.addr + off))) hlen
  obtain ⟨hdata, hframe⟩ := ShmList.queryAndDelete_frame (h.slots (w.sh.idx key)) hlen hr
  rw [eraseP_slotList hcmp key h.key] at hshows
  rw [find_slotList hcmp key h.key] at hnode
  have hslots : ∀ j, ShmList.Shows (r.1.1, Function.update w.sh.slot (w.sh.idx key) r.1.2 j)
      (w.sh.slotList (es.eraseP fun e => cmp key e.2.1) j) := fun j => by
    by_cases hj : j = w.sh.idx key
    · rw [hj, Function.update_self]
      exact hshows
    · rw [Function.update_of_ne hj, slotList_eraseP hcmp key hj]
      exact (h.slots j).congr fun x hx => hframe x (h.slot_disjoint hj hx)
  have hstored : (es.eraseP fun e => cmp key e.2.1).map Prod.snd = w.ledger.stored.eraseP fun e => cmp key e.1 := by
    rw [← h.stored, List.eraseP_map]
    rfl
  have hanswer : w.ledger.find cmp key = (es.find? fun e => cmp key e.2.1).map fun e => e.2.2 := by
    unfold Ledger.find
    rw [← h.stored, List.find?_map, Option.map_map]
    rfl
  cases hfind : es.find? (fun e => cmp key e.2.1) with
  | none =>
    rw [hfind] at hnode hanswer
    have hnext : w.next fuel cmp (.pop key) = some ⟨{ w.sh with
        node := r.1.1
        slot := Function.update w.sh.slot (w.sh.idx key) r.1.2 }, w.ledger, .popped w.ledger key none⟩ := by
      have hzero : r.2 = 0 := hnode
      unfold World.next shmHashPop
      simp only [hr, hzero, if_true, Option.map_some]
      rfl
    have hsame : (es.eraseP fun e => cmp key e.2.1) = es :=
      List.eraseP_of_forall_not fun e he => List.find?_eq_none.1 hfind e he
    rw [hsame] at hslots
    exact ⟨_, es, nodes, hnext, { h with slots := hslots, blocks := h.blocks.move rfl rfl }, hanswer.symm⟩
  | some e =>
    rw [hfind] at hnode hanswer
    obtain ⟨l₁, l₂, hsplit, herase⟩ := eraseP_of_find? hfind
    rw [herase] at hslots hstored
    have hmem : e ∈ es := List.mem_of_find?_eq_some hfind
    have hoff : r.2 = e.1 := hnode
    obtain ⟨hlow, hhigh⟩ := h.node_range (List.mem_append_left nodes (List.mem_map_of_mem hmem))
    have hn : (BitVec.ofNat 64 e.1).toNat = e.1 := by
      rw [BitVec.toNat_ofNat]
      omega
    have hpayload : w.sh.addr + (r.1.1 e.1).data = e.2.2 := by
      have hin : (e.1, e.2.2 - w.sh.addr) ∈ w.sh.slotList es (w.sh.idx key) := by
        refine List.mem_map.2 ⟨e, List.mem_filter.2 ⟨hmem, ?_⟩, rfl⟩
        exact decide_eq_true (idx_of_cmp hcmp key (by simpa using List.find?_some hfind))
      have hold : (w.sh.node e.1).data = e.2.2 - w.sh.addr := (h.slots _).rings.data _ hin
      rw [hdata, hold, BitVec.add_comm, BitVec.sub_add_cancel]
    have hroom : nodes.length < w.sh.nodePool.max.toNat := by
      have hpos := List.length_pos_of_mem hmem
      rw [h.nodeMax]
      omega
    obtain ⟨rq, hpush, hrqmax, hkeeps⟩ := push_keeps h.nodePool (BitVec.ofNat 64 e.1) hroom
    rw [hn] at hkeeps
    have hnext : w.next fuel cmp (.pop key) = some ⟨{ w.sh with
        node := r.1.1
        slot := Function.update w.sh.slot (w.sh.idx key) r.1.2
        nodePool := rq }, w.ledger.pop cmp key e.2.2, .popped w.ledger key (some e.2.2)⟩ := by
      unfold World.next shmHashPop
      simp only [hr, hoff, if_neg (show ¬e.1 = 0 by omega), hpush, hpayload, Option.map_some]
      rfl
    have hperm : (w.ledger.pop cmp key e.2.2).used.Perm w.ledger.used := by
      show (e.2.2 :: (w.ledger.held ++ (w.ledger.stored.eraseP fun e => cmp key e.1).map Prod.snd)).Perm
        (w.ledger.held ++ w.ledger.stored.map Prod.snd)
      rw [← hstored, ← h.stored, hsplit]
      refine List.perm_middle.symm.trans (List.Perm.append_left _ ?_)
      simp only [List.map_append, List.map_cons]
      exact List.perm_middle.symm
    refine ⟨_, l₁ ++ l₂, nodes ++ [e.1], hnext, ?_, hanswer.symm⟩
    exact {
      mapped := h.mapped
      stored := hstored
      key := fun x hx => h.key x (by rw [hsplit]; rw [List.mem_append] at hx ⊢; exact hx.imp_right (List.mem_cons_of_mem e))
      slots := hslots
      nodeMax := hrqmax.trans h.nodeMax
      nodePool := hkeeps
      perm := by
        refine List.Perm.trans ?_ h.perm
        rw [hsplit]
        simp only [List.map_append, List.map_cons, ← List.append_assoc]
        refine List.perm_append_comm.trans ?_
        rw [List.singleton_append, ← List.cons_append]
        exact List.Perm.append_right nodes List.perm_middle.symm
      dataMax := h.dataMax
      dataPool := h.dataPool
      turned := h.turned
      returned := h.returned
      blocks := (h.blocks.perm hperm).move rfl rfl
      sized := h.sized }

end Find

/-! ## Runs -/

theorem next_max {w' : World} {call : Call} (h : w.next fuel cmp call = some w') : w'.sh.max = w.sh.max := by
  cases call with
  | alloc =>
    obtain ⟨r, hr, rfl⟩ := Option.map_eq_some_iff.1 h
    obtain ⟨q, -, rfl⟩ := Option.map_eq_some_iff.1 hr
    by_cases hempty : q.2 = -1
    · rw [if_pos hempty]
    · rw [if_neg hempty]
  | dealloc p =>
    obtain ⟨r, hr, rfl⟩ := Option.map_eq_some_iff.1 h
    obtain ⟨q, -, rfl⟩ := Option.map_eq_some_iff.1 hr
    rfl
  | push key p =>
    obtain ⟨r, hr, rfl⟩ := Option.map_eq_some_iff.1 h
    obtain ⟨q, -, rfl⟩ := Option.map_eq_some_iff.1 hr
    by_cases hempty : q.2 = -1
    · rw [if_pos hempty]
    · rw [if_neg hempty]
  | pop key =>
    obtain ⟨r, hr, rfl⟩ := Option.map_eq_some_iff.1 h
    unfold shmHashPop at hr
    split at hr
    · cases hr
    · dsimp only at hr
      split at hr
      · cases hr
        rfl
      · obtain ⟨q, -, rfl⟩ := Option.map_eq_some_iff.1 hr
        rfl

/-- The state between two calls -/
def Fits (fuel : Nat) (cmp : List UInt8 → List UInt8 → Bool) (w : World) : Prop :=
  w.sh.max.toNat ≤ fuel ∧ Answers cmp w.sh w.last ∧ ∃ es nodes back, Kept w.sh w.ledger es nodes back

theorem Fits.right (h : Fits fuel cmp w) : Right cmp w := by
  obtain ⟨-, hanswer, es, nodes, back, hkept⟩ := h
  exact ⟨hkept.blocks.nodup, hkept.blocks.inside hkept.mapped hkept.sized, hanswer⟩

theorem Fits.next (hcmp : ∀ k k', cmp k k' = true → hashTime33Ex k = hashTime33Ex k') (h : Fits fuel cmp w)
    (call : Call) (howns : Owns w call) :
    ∃ w', w.next fuel cmp call = some w' ∧ (Right cmp w' → Meets w call) ∧ (Meets w call → Fits fuel cmp w') := by
  obtain ⟨hfuel, -, es, nodes, back, hkept⟩ := h
  cases call with
  | alloc =>
    obtain ⟨w', hnext, hmeets, hkeep⟩ := hkept.alloc
    refine ⟨w', hnext, hmeets, fun h => ⟨next_max hnext ▸ hfuel, (hkeep h).2, es, nodes, back, (hkeep h).1⟩⟩
  | dealloc p =>
    obtain ⟨w', back', hnext, hkeep, hanswer⟩ := hkept.dealloc howns
    exact ⟨w', hnext, fun _ => trivial, fun _ => ⟨next_max hnext ▸ hfuel, hanswer, es, nodes, back', hkeep⟩⟩
  | push key p =>
    obtain ⟨w', es', nodes', hnext, hkeep, hanswer⟩ := hkept.push howns key
    exact ⟨w', hnext, fun _ => trivial, fun _ => ⟨next_max hnext ▸ hfuel, hanswer, es', nodes', back, hkeep⟩⟩
  | pop key =>
    obtain ⟨w', es', nodes', hnext, hkeep, hanswer⟩ := hkept.pop hcmp key hfuel
    exact ⟨w', hnext, fun _ => trivial, fun _ => ⟨next_max hnext ▸ hfuel, hanswer, es', nodes', back, hkeep⟩⟩

/-- All is right after every call just where every call of `shm_hash_alloc` is among the first `max`
ones, or comes before any of `shm_hash_dealloc`. -/
theorem run_right_iff {addr : BitVec 64} {len size : Nat} {max : BitVec 32} (hmapped : Mapped addr len max size)
    (node : ShmMem Off) (key : BitVec 64 → List UInt8)
    (hcmp : ∀ k k', cmp k k' = true → hashTime33Ex k = hashTime33Ex k') (hfuel : max.toNat ≤ fuel) :
    ∃ sh, shmHashInit addr len max size node key = some sh ∧
      ∀ calls, Along (World.next fuel cmp) Owns ⟨sh, ⟨[], [], 0, 0⟩, .other⟩ calls →
        ((∀ before, before <+: calls →
          ∃ w, before.foldlM (World.next fuel cmp) ⟨sh, ⟨[], [], 0, 0⟩, .other⟩ = some w ∧ Right cmp w) ↔
            Along (World.next fuel cmp) Meets ⟨sh, ⟨[], [], 0, 0⟩, .other⟩ calls) := by
  obtain ⟨sh, hinit, hmax, hkept⟩ := init_kept hmapped node key
  refine ⟨sh, hinit, fun calls howns => ?_⟩
  refine along_iff (fun w h => Fits.right h) (fun w call h => Fits.next hcmp h call) calls ?_ howns
  exact ⟨hmax ▸ hfuel, trivial, [], _, [], hkept⟩

theorem run_right_iff_page :
    ∃ sh, shmHashInit 4096 7 4 16 (fun _ => ⟨0, 0, 0⟩) (fun _ => []) = some sh ∧
      ∀ calls, Along (World.next 4 (fun k k' => k == k')) Owns ⟨sh, ⟨[], [], 0, 0⟩, .other⟩ calls →
        ((∀ before, before <+: calls → ∃ w, before.foldlM (World.next 4 (fun k k' => k == k'))
          ⟨sh, ⟨[], [], 0, 0⟩, .other⟩ = some w ∧ Right (fun k k' => k == k') w) ↔
            Along (World.next 4 (fun k k' => k == k')) Meets ⟨sh, ⟨[], [], 0, 0⟩, .other⟩ calls) :=
  run_right_iff ⟨by decide, ⟨2, by decide, by decide⟩, by decide⟩ _ _ (fun k k' h => by rw [eq_of_beq h]) (by decide)

/-- The only block is given back and asked for again: what comes is an address before the memory. -/
theorem block_turned : ∃ sh w, shmHashInit 4096 1 1 8 (fun _ => ⟨0, 0, 0⟩) (fun _ => []) = some sh ∧
    Along (World.next 1 (fun k k' => k == k')) Owns ⟨sh, ⟨[], [], 0, 0⟩, .other⟩ [.alloc, .dealloc 4264, .alloc] ∧
    [Call.alloc, .dealloc 4264, .alloc].foldlM (World.next 1 (fun k k' => k == k')) ⟨sh, ⟨[], [], 0, 0⟩, .other⟩ =
      some w ∧
    w.ledger.used = [3928] ∧ ¬Right (fun k k' => k == k') w := by
  refine ⟨_, _, rfl, ⟨trivial, fun w hw => ?_⟩, rfl, rfl, fun h => ?_⟩
  · cases hw
    exact ⟨List.mem_singleton.2 rfl, fun _ _ => ⟨trivial, fun _ _ => trivial⟩⟩
  · have hin := h.inside 3928 List.mem_cons_self
    unfold Inside at hin
    exact absurd hin.1 (by decide)

end BeehiveIm.Core.ShmHash
