/-
Reference counts of memory segments (`mem_seg_ref.c`), kept in a red-black tree that finds a
segment by any address in it. A step is one section under the lock, or one use of the
allocator; whoever reads an item that is freed is at fault (`none`). Addresses are numbers. The
pool and the callbacks of an item, which only say how to give the memory back, and the counts
that are answered are left out.

The tree is in the order of the addresses: an address of a segment finds its item, the
first byte and the last one as well, and any other address does not. A count may change in
an item that is in the tree.
-/
import BeehiveIm.Core.RbTree
import BeehiveIm.Core.RbTree.Delete

namespace BeehiveIm.Core

open BeehiveIm.Lib

/-- `mem_seg_ref_item_t` -/
structure MemSegRefItem where
  addr : Nat
  size : Nat
  count : BitVec 32
  deriving DecidableEq, Repr

/-- `mem_seg_ref_cmp`, of a key that has an address only -/
def memSegRefCmp (addr : Nat) (item2 : MemSegRefItem) : Int :=
  if addr < item2.addr then -1 else if addr > item2.addr + item2.size - 1 then 1 else 0

namespace MemSegRef

/-- Where a thread stands. -/
inductive Pc where
  | idle
  /-- `mem_seg_ref_add`: `AGAIN` -/
  | add (addr size : Nat)
  /-- `rbt_insert(ctx->tree, item)` -/
  | insert (addr size : Nat) (item : Ptr)
  /-- `mem_seg_ref_decr`: `0 == item->count` -/
  | test (addr : Nat) (item : Ptr)
  /-- `item->dealloc(item->pool, item->addr)` -/
  | dealloc (item : Ptr)
  deriving DecidableEq

/-- The tree of the items, the items that are not freed, and the threads. -/
structure Cntx (τ : Type) where
  tree : RbTree Ptr
  item : Ptr → Option MemSegRefItem
  pc : τ → Pc

namespace Cntx

variable {τ : Type}

/-- `mem_seg_ref_init` -/
def memSegRefInit (τ : Type) : Cntx τ := ⟨RbTree.rbtCreat Ptr, fun _ => none, fun _ => .idle⟩

/-- The comparison with the item that a node has -/
def cmp (ctx : Cntx τ) (addr : Nat) (p : Ptr) : Int := (ctx.item p).elim 0 (memSegRefCmp addr)

/-- `rbt_query` -/
def query (ctx : Cntx τ) (addr : Nat) : Option (Option Ptr) := ctx.tree.rbtQuery (ctx.cmp addr)

/-- A change of the count of an item -/
def setCount (ctx : Cntx τ) (p : Ptr) (item : MemSegRefItem) (count : BitVec 32) : Cntx τ :=
  { ctx with item := Function.update ctx.item p (some { item with count := count }) }

def free (ctx : Cntx τ) (p : Ptr) : Cntx τ := { ctx with item := Function.update ctx.item p none }

/-- `mem_seg_ref_incr` -/
def memSegRefIncr (ctx : Cntx τ) (addr : Nat) : Option (Cntx τ) :=
  match ctx.query addr with
  | none => none
  | some none => some ctx
  | some (some p) => (ctx.item p).map fun item => ctx.setCount p item (item.count + 1)

variable [DecidableEq τ]

def goto (ctx : Cntx τ) (t : τ) (pc : Pc) : Cntx τ := { ctx with pc := Function.update ctx.pc t pc }

/-- The first section of `mem_seg_ref_decr` -/
def memSegRefDecr (ctx : Cntx τ) (t : τ) (addr : Nat) : Option (Cntx τ) :=
  match ctx.query addr with
  | none => none
  | some none => some ctx
  | some (some p) => (ctx.item p).map fun item =>
    let ctx := ctx.setCount p item (item.count - 1)
    if item.count - 1 = 0 then ctx.goto t (.test addr p) else ctx

/-- The second section: the item is the one of the first. -/
def memSegRefTest (ctx : Cntx τ) (t : τ) (addr : Nat) (p : Ptr) : Option (Cntx τ) :=
  match ctx.item p with
  | none => none
  | some item =>
    if item.count = 0 then
      (ctx.tree.rbtDelete (ctx.cmp addr)).map fun r => { ctx with tree := r.1 }.goto t (.dealloc p)
    else some (ctx.goto t .idle)

/-- `mem_seg_ref_add` up to `calloc`, which answers `room`. -/
def memSegRefAdd (ctx : Cntx τ) (t : τ) (addr size : Nat) (room : Option Ptr) : Option (Cntx τ) :=
  match ctx.query addr with
  | none => none
  | some (some p) => (ctx.item p).map fun item =>
    if item.size ≠ size then ctx.goto t .idle else (ctx.setCount p item (item.count + 1)).goto t .idle
  | some none =>
    match room with
    | none => some (ctx.goto t .idle)
    | some p =>
      some ({ ctx with item := Function.update ctx.item p (some ⟨addr, size, 1⟩) }.goto t (.insert addr size p))

/-- The section of `rbt_insert`; `room` is whether there is memory for a node. -/
def memSegRefInsert (ctx : Cntx τ) (t : τ) (addr size : Nat) (p : Ptr) (room : Bool) : Option (Cntx τ) :=
  (ctx.tree.rbtInsert (ctx.cmp addr) p room).map fun r =>
    if r.2 = .ok then { ctx with tree := r.1 }.goto t .idle
    else ({ ctx with tree := r.1 }.free p).goto t (.add addr size)

/-- The memory goes back to the allocator, and the item is freed; answers the address. -/
def memSegRefDealloc (ctx : Cntx τ) (t : τ) (p : Ptr) : Option (Cntx τ × Nat) :=
  (ctx.item p).map fun item => ((ctx.free p).goto t .idle, item.addr)

end Cntx

/-! ## The segments -/

/-- A segment between the allocator's `alloc` and `dealloc`: how many references it has by the calls
made, and whether `mem_seg_ref_alloc` has answered it. -/
structure Seg where
  addr : Nat
  size : Nat
  count : Int
  given : Bool
  deriving DecidableEq, Repr

/-- The address is one of the segment. -/
def Seg.Has (s : Seg) (addr : Nat) : Prop := s.addr ≤ addr ∧ addr < s.addr + s.size

instance instDecidableHas (s : Seg) (addr : Nat) : Decidable (s.Has addr) :=
  inferInstanceAs (Decidable (s.addr ≤ addr ∧ addr < s.addr + s.size))

/-- The segments lie apart; one without bytes has an address of its own. -/
def Seg.Apart (s s' : Seg) : Prop :=
  s.addr < s'.addr ∧ s.addr + s.size ≤ s'.addr ∨ s'.addr < s.addr ∧ s'.addr + s'.size ≤ s.addr

/-- The change of the references by a call with an address -/
def countBy (addr : Nat) (d : Int) (segs : List Seg) : List Seg :=
  segs.map fun s => if s.Has addr then { s with count := s.count + d } else s

/-- `mem_seg_ref_alloc` answers the address. -/
def give (addr : Nat) (segs : List Seg) : List Seg := segs.map fun s => if s.addr = addr then { s with given := true } else s

/-- `alloc` is a call of `mem_seg_ref_alloc` whose allocator has answered the address; `more` is the
next step of a thread, and what the allocator of the items and the nodes has for it. -/
inductive Act where
  | alloc (addr size : Nat)
  | incr (addr : Nat)
  | decr (addr : Nat)
  | more (room : Option Ptr)

/-- The program, the segments, and those that were given back, as they were then. -/
structure World (τ : Type) where
  ctx : Cntx τ
  segs : List Seg
  freed : List Seg

namespace World

variable {τ : Type} [DecidableEq τ]

def init (τ : Type) : World τ := ⟨Cntx.memSegRefInit τ, [], []⟩

/-- The call of `mem_seg_ref_alloc` is over when its thread is in none. -/
def returned (w : World τ) (t : τ) (addr : Nat) (ctx : Cntx τ) : World τ :=
  { w with ctx := ctx, segs := if ctx.pc t = .idle then give addr w.segs else w.segs }

/-- The later sections; memory that is given back is a segment. -/
def more (w : World τ) (t : τ) (room : Option Ptr) : Option (World τ) :=
  match w.ctx.pc t with
  | .idle => some w
  | .add addr size => (w.ctx.memSegRefAdd t addr size room).map (w.returned t addr)
  | .insert addr size p => (w.ctx.memSegRefInsert t addr size p room.isSome).map (w.returned t addr)
  | .test addr p => (w.ctx.memSegRefTest t addr p).map fun ctx => { w with ctx := ctx }
  | .dealloc p =>
    match w.ctx.memSegRefDealloc t p with
    | none => none
    | some (ctx, addr) =>
      (w.segs.find? fun s => s.addr = addr).map fun s => ⟨ctx, w.segs.erase s, s :: w.freed⟩

def next (w : World τ) (e : τ × Act) : Option (World τ) :=
  match e.2 with
  | .alloc addr size => some { w with ctx := w.ctx.goto e.1 (.add addr size), segs := ⟨addr, size, 1, false⟩ :: w.segs }
  | .incr addr => (w.ctx.memSegRefIncr addr).map fun ctx => { w with ctx := ctx, segs := countBy addr 1 w.segs }
  | .decr addr => (w.ctx.memSegRefDecr e.1 addr).map fun ctx => { w with ctx := ctx, segs := countBy addr (-1) w.segs }
  | .more room => w.more e.1 room

end World

variable {τ : Type} {ctx ctx' : Cntx τ} {l : List Ptr} {addr size : Nat} {p q : Ptr} {it it' : MemSegRefItem}

/-! ## The comparison -/

/-- The address is one of the item's segment. -/
def Covers (it : MemSegRefItem) (addr : Nat) : Prop := it.addr ≤ addr ∧ addr < it.addr + it.size

theorem memSegRefCmp_eq_zero (h : 0 < it.addr) : memSegRefCmp addr it = 0 ↔ Covers it addr := by
  unfold memSegRefCmp Covers
  split
  · omega
  · split <;> omega

theorem memSegRefCmp_neg : memSegRefCmp addr it < 0 ↔ addr < it.addr := by
  unfold memSegRefCmp
  split
  · omega
  · split <;> omega

theorem memSegRefCmp_pos (h : 0 < it.addr) : 0 < memSegRefCmp addr it ↔ it.addr ≤ addr ∧ it.addr + it.size ≤ addr := by
  unfold memSegRefCmp
  split
  · omega
  · split <;> omega

/-! ## The order -/

/-- The items in the tree, in order: each ends before the next one begins. -/
structure TreeOf (ctx : Cntx τ) (l : List Ptr) : Prop where
  wf : ∃ t, RbTree.Wf ctx.tree t ∧ t.toList = l
  items : ∀ p ∈ l, ∃ it, ctx.item p = some it ∧ 0 < it.addr
  sorted : l.Pairwise fun p q => ∀ it it', ctx.item p = some it → ctx.item q = some it' →
    it.addr < it'.addr ∧ it.addr + it.size ≤ it'.addr

theorem cmp_eq (h : ctx.item p = some it) : ctx.cmp addr p = memSegRefCmp addr it := by
  unfold Cntx.cmp
  rw [h]
  rfl

/-- The items that an address is not below come before those that it is below. -/
theorem TreeOf.splits (h : TreeOf ctx l) (addr : Nat) : Splits (ctx.cmp addr) l := by
  refine h.sorted.imp_of_mem fun {p q} hp hq hpq hle => ?_
  obtain ⟨it, hit, hpos⟩ := h.items p hp
  obtain ⟨it', hit', -⟩ := h.items q hq
  have hbefore := hpq it it' hit hit'
  rw [cmp_eq hit] at hle
  rw [cmp_eq hit', memSegRefCmp_neg]
  by_contra hge
  have hover : 0 < memSegRefCmp addr it := (memSegRefCmp_pos hpos).2 (by omega)
  omega

/-- Any address of a segment finds its item. -/
theorem TreeOf.query (h : TreeOf ctx l) (hp : p ∈ l) (hit : ctx.item p = some it) (haddr : Covers it addr) :
    ctx.query addr = some (some p) := by
  obtain ⟨t, hwf, rfl⟩ := h.wf
  obtain ⟨it', hit', hpos⟩ := h.items p hp
  cases hit.symm.trans hit'
  unfold Cntx.query
  rw [RbTree.rbtQuery_spec hwf (h.splits addr), findBy_eq_some (h.splits addr) hp]
  rw [cmp_eq hit]
  exact (memSegRefCmp_eq_zero hpos).2 haddr

/-- An address of none finds nothing. -/
theorem TreeOf.findBy_none (h : TreeOf ctx l) (haddr : ∀ p ∈ l, ∀ it, ctx.item p = some it → ¬Covers it addr) :
    findBy (ctx.cmp addr) l = none := by
  refine findBy_eq_none.2 fun p hp hzero => ?_
  obtain ⟨it, hit, hpos⟩ := h.items p hp
  rw [cmp_eq hit, memSegRefCmp_eq_zero hpos] at hzero
  exact haddr p hp it hit hzero

theorem TreeOf.query_none (h : TreeOf ctx l) (haddr : ∀ p ∈ l, ∀ it, ctx.item p = some it → ¬Covers it addr) :
    ctx.query addr = some none := by
  obtain ⟨t, hwf, rfl⟩ := h.wf
  unfold Cntx.query
  rw [RbTree.rbtQuery_spec hwf (h.splits addr), h.findBy_none haddr]

/-! ## The changes -/

/-- The items in the tree keep their places when the tree stays and they keep their segments. -/
theorem TreeOf.congr (h : TreeOf ctx l) (htree : ctx'.tree = ctx.tree)
    (hitem : ∀ p ∈ l, ∀ it, ctx.item p = some it → ∃ it', ctx'.item p = some it' ∧ it'.addr = it.addr ∧ it'.size = it.size) :
    TreeOf ctx' l := by
  refine ⟨htree ▸ h.wf, fun p hp => ?_, h.sorted.imp_of_mem fun {p q} hp hq hpq it it' hit hit' => ?_⟩
  · obtain ⟨it, hit, hpos⟩ := h.items p hp
    obtain ⟨it', hit', haddr, -⟩ := hitem p hp it hit
    exact ⟨it', hit', haddr ▸ hpos⟩
  · obtain ⟨jt, hjt, -⟩ := h.items p hp
    obtain ⟨jt', hjt', -⟩ := h.items q hq
    obtain ⟨kt, hkt, haddr, hsize⟩ := hitem p hp jt hjt
    obtain ⟨kt', hkt', haddr', -⟩ := hitem q hq jt' hjt'
    cases hit.symm.trans hkt
    cases hit'.symm.trans hkt'
    rw [haddr, hsize, haddr']
    exact hpq jt jt' hjt hjt'

/-- An item goes in between those that are before its segment and those that are behind it. -/
theorem TreeOf.insert (h : TreeOf ctx l) (hit : ctx.item p = some it) (hpos : 0 < it.addr)
    (hapart : ∀ q ∈ l, ∀ it', ctx.item q = some it' →
      it.addr < it'.addr ∧ it.addr + it.size ≤ it'.addr ∨ it'.addr < it.addr ∧ it'.addr + it'.size ≤ it.addr) :
    ∃ tree l', ctx.tree.rbtInsert (ctx.cmp it.addr) p true = some (tree, .ok) ∧ TreeOf { ctx with tree := tree } l' ∧
      ∀ q, q ∈ l' ↔ q = p ∨ q ∈ l := by
  have hnone : findBy (ctx.cmp it.addr) l = none := h.findBy_none fun q hq it' hit' hcover => by
    have hside := hapart q hq it' hit'
    unfold Covers at hcover
    omega
  have hmem : ∀ q, q ∈ insertBy (ctx.cmp it.addr) p l ↔ q = p ∨ q ∈ l := fun q => mem_insertBy (findBy_eq_none.1 hnone)
  obtain ⟨t, hwf, rfl⟩ := h.wf
  obtain ⟨tree, htree, t', hwf', hlist⟩ := RbTree.rbtInsert_ok (d := p) hwf (h.splits it.addr) hnone
  refine ⟨tree, _, htree, ⟨⟨t', hwf', hlist⟩, fun q hq => ?_, ?_⟩, hmem⟩
  · rcases (hmem q).1 hq with rfl | hq
    · exact ⟨it, hit, hpos⟩
    · exact h.items q hq
  · refine List.pairwise_append.2 ⟨h.sorted.filter _, List.pairwise_cons.2 ⟨?_, h.sorted.filter _⟩, ?_⟩
    · intro q hq jt jt' (hjt : ctx.item p = some jt) (hjt' : ctx.item q = some jt')
      obtain ⟨hq, hneg⟩ := List.mem_filter.1 hq
      rw [cmp_eq hjt', decide_eq_true_eq, memSegRefCmp_neg] at hneg
      cases hit.symm.trans hjt
      have hside := hapart q hq jt' hjt'
      omega
    · intro q hq r hr jt jt' (hjt : ctx.item q = some jt) (hjt' : ctx.item r = some jt')
      obtain ⟨hq, hover⟩ := List.mem_filter.1 hq
      obtain ⟨jt₀, hjt₀, hpos₀⟩ := h.items q hq
      cases hjt.symm.trans hjt₀
      rw [cmp_eq hjt, decide_eq_true_eq, memSegRefCmp_pos hpos₀] at hover
      have hside := hapart q hq jt hjt
      rcases List.mem_cons.1 hr with rfl | hr
      · cases hit.symm.trans hjt'
        omega
      · obtain ⟨hr, hneg⟩ := List.mem_filter.1 hr
        rw [cmp_eq hjt', decide_eq_true_eq, memSegRefCmp_neg] at hneg
        omega

/-- No memory for a node: the tree stays. -/
theorem TreeOf.insert_err (h : TreeOf ctx l) (haddr : ∀ q ∈ l, ∀ it, ctx.item q = some it → ¬Covers it addr) :
    ctx.tree.rbtInsert (ctx.cmp addr) p false = some (ctx.tree, .err) := by
  have hnone := h.findBy_none haddr
  obtain ⟨t, hwf, rfl⟩ := h.wf
  exact RbTree.rbtInsert_err hwf (h.splits addr) hnone

/-- The item that an address finds goes out. -/
theorem TreeOf.delete (h : TreeOf ctx l) (hp : p ∈ l) (hit : ctx.item p = some it) (haddr : Covers it addr) :
    ∃ tree l', ctx.tree.rbtDelete (ctx.cmp addr) = some (tree, some p) ∧ TreeOf { ctx with tree := tree } l' ∧
      ∀ q, q ∈ l' ↔ q ≠ p ∧ q ∈ l := by
  obtain ⟨it', hit', hpos⟩ := h.items p hp
  cases hit.symm.trans hit'
  have hzero : ctx.cmp addr p = 0 := by
    rw [cmp_eq hit]
    exact (memSegRefCmp_eq_zero hpos).2 haddr
  have hmem : ∀ q, q ∈ eraseBy (ctx.cmp addr) l ↔ q ≠ p ∧ q ∈ l := fun q => by
    rw [mem_eraseBy, and_comm]
    refine and_congr_left fun hq => not_congr ⟨fun hq0 => ?_, fun heq => heq ▸ hzero⟩
    exact (h.splits addr).found_unique hq hp hq0 hzero
  have hfind := findBy_eq_some (h.splits addr) hp hzero
  obtain ⟨t, hwf, rfl⟩ := h.wf
  obtain ⟨tree, htree, t', hwf', hlist⟩ := RbTree.rbtDelete_some hwf (h.splits addr) hfind
  refine ⟨tree, _, htree, ⟨⟨t', hwf', hlist⟩, fun q hq => h.items q ((hmem q).1 hq).2, ?_⟩, hmem⟩
  exact h.sorted.filter _

end MemSegRef

end BeehiveIm.Core
