/-
The AVL tree (`avl_tree.c`): as the red-black tree it lives in memory, with `NULL` as the leaf of
every branch and the balance factor as the tag of a cell. The source's left and right halves are one
definition over the side; recursive calls carry the number of levels they may still go down.
-/
import BeehiveIm.Lib.Search

namespace BeehiveIm.Core

open BeehiveIm.Lib

/-- The return codes of `avl_err_e` that the operations below answer. -/
inductive AvlRet where
  | ok
  | err
  | nodeExist
  deriving DecidableEq, Repr

/-- `avl_tree_t`, with the memory of its nodes; `next` is the first address not yet handed out. -/
structure AvlTree (α : Type) where
  num : Nat
  root : Ptr
  mem : Mem Int α
  next : Ptr

namespace AvlTree

variable {α : Type}

def null : Ptr := 0

/-- `AVL_LH` and `AVL_RH`: the factor of a node whose subtree at side `s` is the higher one. -/
def high : Side → Int
  | .left => 1
  | .right => -1

/-- `AVL_EH` -/
def even : Int := 0

/-! ## Node fields -/

def parent (T : AvlTree α) (p : Ptr) : Ptr := (T.mem p).parent
def child (T : AvlTree α) (s : Side) (p : Ptr) : Ptr := (T.mem p).child s
def bf (T : AvlTree α) (p : Ptr) : Int := (T.mem p).tag

def setBf (T : AvlTree α) (p : Ptr) (b : Int) : AvlTree α := { T with mem := T.mem.setTag p b }
def setData (T : AvlTree α) (p : Ptr) (d : Option α) : AvlTree α := { T with mem := T.mem.setData p d }

/-- `tree->dealloc(tree->pool, p)`: links and payload of the cell are gone. -/
def dealloc (T : AvlTree α) (p : Ptr) : AvlTree α :=
  { T with mem := Function.update T.mem p ⟨(T.mem p).tag, 0, 0, 0, none⟩ }

/-- What `cmp_cb(key, p->data)` answers. -/
def cmp (T : AvlTree α) (ck : α → Int) (p : Ptr) : Int := (T.mem p).data.elim 0 ck

/-- `avl_set_lchild` and `avl_set_rchild`. -/
def avlSetChild (T : AvlTree α) (node : Ptr) (s : Side) (child : Ptr) : AvlTree α :=
  { T with mem := T.mem.linkChild null s node child }

/-- `avl_replace_child` -/
def avlReplaceChild (T : AvlTree α) (parent old new : Ptr) : AvlTree α :=
  if parent = null then
    { T with root := new, mem := if new ≠ null then T.mem.setParent new null else T.mem }
  else if T.child .left parent = old then T.avlSetChild parent .left new
  else if T.child .right parent = old then T.avlSetChild parent .right new
  else T

/-! ## Rotations -/

/-- The links of a single rotation: `node` goes down to side `s`. -/
def avlRotate (s : Side) (T : AvlTree α) (node : Ptr) : AvlTree α :=
  let parent := T.parent node
  let child := T.child s.other node
  let T := T.avlSetChild node s.other (T.child s child)
  let T := T.avlSetChild child s node
  T.avlReplaceChild parent node child

/-- The links of a double rotation, `node` going down to side `s`. Insertion and deletion write the
four child links in different orders; no write reads what another has changed. -/
def avlRotate₂ (s : Side) (T : AvlTree α) (node : Ptr) : AvlTree α :=
  let parent := T.parent node
  let child := T.child s.other node
  let grand := T.child s child
  let T := T.avlSetChild child s (T.child s.other grand)
  let T := T.avlSetChild grand s.other child
  let T := T.avlSetChild node s.other (T.child s grand)
  let T := T.avlSetChild grand s node
  T.avlReplaceChild parent node grand

/-- The factors a double rotation leaves, by the factor of the grandchild. -/
def avlFactors₂ (s : Side) (T : AvlTree α) (node : Ptr) : AvlTree α :=
  let child := T.child s.other node
  let grand := T.child s child
  if T.bf grand = high s then ((T.setBf node even).setBf child (high s.other)).setBf grand even
  else if T.bf grand = even then ((T.setBf node even).setBf child even).setBf grand even
  else if T.bf grand = high s.other then ((T.setBf node (high s)).setBf child even).setBf grand even
  else T

/-- `avl_rr_balance` (`s` left) and `avl_ll_balance` (`s` right). -/
def avlSingleBalance (s : Side) (T : AvlTree α) (node : Ptr) : AvlTree α :=
  let child := T.child s.other node
  ((T.setBf node even).setBf child even).avlRotate s node

def avlRrBalance : AvlTree α → Ptr → AvlTree α := avlSingleBalance .left
def avlLlBalance : AvlTree α → Ptr → AvlTree α := avlSingleBalance .right

/-- `avl_rl_balance` (`s` left) and `avl_lr_balance` (`s` right). -/
def avlDoubleBalance (s : Side) (T : AvlTree α) (node : Ptr) : AvlTree α :=
  (T.avlFactors₂ s node).avlRotate₂ s node

def avlRlBalance : AvlTree α → Ptr → AvlTree α := avlDoubleBalance .left
def avlLrBalance : AvlTree α → Ptr → AvlTree α := avlDoubleBalance .right

/-- `avl_left_balance` and `avl_right_balance`: the subtree at side `s` is two levels too high. -/
def avlBalance (s : Side) (T : AvlTree α) (node : Ptr) : AvlTree α :=
  let child := T.child s node
  if T.bf child = high s then avlSingleBalance s.other T node
  else if T.bf child = high s.other then avlDoubleBalance s.other T node
  else T

/-! ## Creation -/

def avlCreat (α : Type) : AvlTree α where
  num := 0
  root := null
  mem := fun _ => ⟨even, 0, 0, 0, none⟩
  next := 1

/-- A new node under `parent`, the link from it not yet set; `mem` is whether the allocator has
memory. -/
def avlNewNode (T : AvlTree α) (parent : Ptr) (data : α) (mem : Bool) : Option (AvlTree α × Ptr) :=
  if mem then
    some ({ T with
      next := T.next + 1
      mem := Function.update T.mem T.next ⟨even, parent, null, null, some data⟩ }, T.next)
  else none

/-! ## Insertion -/

/-- The end of `avl_insert_left` and `avl_insert_right`: the subtree at side `s` has grown. -/
def avlInsertTaller (s : Side) (T : AvlTree α) (node : Ptr) : AvlTree α × AvlRet × Bool :=
  if T.bf node = high s.other then (T.setBf node even, .ok, false)
  else if T.bf node = even then (T.setBf node (high s), .ok, true)
  else if T.bf node = high s then (avlBalance s T node, .ok, false)
  else (T, .err, true)

/-- `avl_insert_left` and `avl_insert_right`; `insert` is the recursive call. -/
def avlInsertSide (s : Side) (insert : AvlTree α → Ptr → Option (AvlTree α × AvlRet × Bool))
    (T : AvlTree α) (node : Ptr) (data : α) (mem : Bool) : Option (AvlTree α × AvlRet × Bool) :=
  if T.child s node = null then
    match T.avlNewNode node data mem with
    | none => some (T, .err, false)
    | some (T, add) => some (avlInsertTaller s { T with mem := T.mem.setChild s node add } node)
  else
    match insert T (T.child s node) with
    | none => none
    | some (T, ret, taller) =>
      if ret ≠ .ok then some (T, ret, taller)
      else if taller = false then some (T, .ok, false)
      else some (avlInsertTaller s T node)

/-- `_avl_insert`; also answers `taller`. -/
def avlInsertNode (ck : α → Int) (data : α) (mem : Bool) :
    Nat → AvlTree α → Ptr → Option (AvlTree α × AvlRet × Bool)
  | 0, _, _ => none
  | fuel + 1, T, node =>
    let ret := T.cmp ck node
    if ret = 0 then some (T, .nodeExist, false)
    else if ret < 0 then avlInsertSide .left (avlInsertNode ck data mem fuel) T node data mem
    else avlInsertSide .right (avlInsertNode ck data mem fuel) T node data mem

/-- `avl_insert` of `data`, whose comparisons `ck` answers. -/
def avlInsert (T : AvlTree α) (ck : α → Int) (data : α) (mem : Bool) : Option (AvlTree α × AvlRet) :=
  if T.root = null then
    match T.avlNewNode null data mem with
    | none => some (T, .err)
    | some (T, root) => some ({ T with num := 1, root := root }, .ok)
  else
    match avlInsertNode ck data mem (T.num + 1) T T.root with
    | none => none
    | some (T, ret, _) => some (if ret = .ok then { T with num := T.num + 1 } else T, ret)

/-! ## Deletion -/

/-- `avl_delete_left_balance` and `avl_delete_right_balance`: the subtree at side `s` has lost a
level. Also answers `lower`. -/
def avlDeleteBalance (s : Side) (T : AvlTree α) (node : Ptr) (lower : Bool) : AvlTree α × Bool :=
  if T.bf node = high s then (T.setBf node even, true)
  else if T.bf node = even then (T.setBf node (high s.other), false)
  else if T.bf node = high s.other then
    let child := T.child s.other node
    if T.bf child = even then
      (((T.setBf child (high s)).setBf node (high s.other)).avlRotate s node, false)
    else if T.bf child = high s.other then
      (((T.setBf child even).setBf node even).avlRotate s node, true)
    else if T.bf child = high s then ((T.avlFactors₂ s node).avlRotate₂ s node, true)
    else (T, lower)
  else (T, lower)

def avlDeleteLeftBalance : AvlTree α → Ptr → Bool → AvlTree α × Bool := avlDeleteBalance .left
def avlDeleteRightBalance : AvlTree α → Ptr → Bool → AvlTree α × Bool := avlDeleteBalance .right

/-- `avl_replace_and_delete`: the last node under `prev` is removed, its payload moves to `node`. -/
def avlReplaceAndDelete (node : Ptr) : Nat → AvlTree α → Ptr → Bool → Option (AvlTree α × Bool)
  | 0, _, _, _ => none
  | fuel + 1, T, prev, lower =>
    if T.child .right prev = null then
      let T := T.setData node (T.mem prev).data
      let T :=
        if prev = T.child .left node then T.avlSetChild node .left (T.child .left prev)
        else T.avlSetChild (T.parent prev) .right (T.child .left prev)
      some (T.dealloc prev, true)
    else
      match avlReplaceAndDelete node fuel T (T.child .right prev) lower with
      | none => none
      | some (T, lower) => some (if lower = true then avlDeleteRightBalance T prev lower else (T, lower))

/-- The end of `_avl_delete`: `node` is the one to be removed. -/
def avlDeleteFound (T : AvlTree α) (node : Ptr) (lower : Bool) : Option (AvlTree α × Bool) :=
  let T := { T with num := T.num - 1 }
  if T.child .right node = null then
    some ((T.avlReplaceChild (T.parent node) node (T.child .left node)).dealloc node, true)
  else if T.child .left node = null then
    some ((T.avlReplaceChild (T.parent node) node (T.child .right node)).dealloc node, true)
  else
    match avlReplaceAndDelete node (T.num + 1) T (T.child .left node) lower with
    | none => none
    | some (T, lower) => some (if lower = true then avlDeleteLeftBalance T node lower else (T, lower))

/-- One level of the search of `_avl_delete`; `delete` is the recursive call. -/
def avlDeleteSide (s : Side) (delete : AvlTree α → Ptr → Bool → Option (AvlTree α × Bool × Option α))
    (T : AvlTree α) (node : Ptr) (lower : Bool) : Option (AvlTree α × Bool × Option α) :=
  if T.child s node = null then some (T, lower, none)
  else
    match delete T (T.child s node) lower with
    | none => none
    | some (T, lower, data) =>
      if lower = true then
        let r := avlDeleteBalance s T node lower
        some (r.1, r.2, data)
      else some (T, lower, data)

/-- `_avl_delete`; also answers `lower` and the payload removed. -/
def avlDeleteNode (ck : α → Int) : Nat → AvlTree α → Ptr → Bool → Option (AvlTree α × Bool × Option α)
  | 0, _, _, _ => none
  | fuel + 1, T, node, lower =>
    let ret := T.cmp ck node
    if ret < 0 then avlDeleteSide .left (avlDeleteNode ck fuel) T node lower
    else if 0 < ret then avlDeleteSide .right (avlDeleteNode ck fuel) T node lower
    else
      let data := (T.mem node).data
      (T.avlDeleteFound node lower).map fun (T, lower) => (T, lower, data)

/-- `avl_delete` of the key whose comparisons `ck` answers. -/
def avlDelete (T : AvlTree α) (ck : α → Int) : Option (AvlTree α × Option α) :=
  if T.root = null then some (T, none)
  else (avlDeleteNode ck (T.num + 1) T T.root false).map fun (T, _, data) => (T, data)

/-! ## Query -/

/-- The address of the node `avl_query` stops at from `node`, if any. -/
def avlQueryLoop (ck : α → Int) : Nat → AvlTree α → Ptr → Option (Option Ptr)
  | 0, _, _ => none
  | fuel + 1, T, node =>
    if node = null then some none
    else
      let ret := T.cmp ck node
      if ret = 0 then some (some node)
      else avlQueryLoop ck fuel T (T.child (if ret < 0 then .left else .right) node)

/-- `avl_query` of the key whose comparisons `ck` answers. -/
def avlQuery (T : AvlTree α) (ck : α → Int) : Option (Option α) :=
  (avlQueryLoop ck (T.num + 1) T T.root).map fun r => r.bind fun p => (T.mem p).data

/-- A write to the element that `avl_query` answers. -/
def avlWrite (T : AvlTree α) (ck : α → Int) (g : α → α) : Option (AvlTree α) :=
  (avlQueryLoop ck (T.num + 1) T T.root).map fun r => r.elim T fun p => T.setData p ((T.mem p).data.map g)

/-! ## Traversal -/

/-- `_avl_trav`: the elements in the order they are handed to `proc`. -/
def avlTravNode : Nat → AvlTree α → Ptr → Option (List α)
  | 0, _, _ => none
  | fuel + 1, T, node =>
    let subtree := fun s => if T.child s node ≠ null then avlTravNode fuel T (T.child s node) else some []
    (subtree .left).bind fun l => (subtree .right).map fun r => l ++ (T.mem node).data.toList ++ r

/-- `avl_trav` -/
def avlTrav (T : AvlTree α) : Option (List α) :=
  if T.root ≠ null then avlTravNode (T.num + 1) T T.root else some []

/-! ## Destruction -/

/-- `_avl_destroy`: the elements in the order they are handed to `dealloc`. -/
def avlDestroyNode : Nat → AvlTree α → Ptr → Option (List α)
  | 0, _, _ => none
  | fuel + 1, T, node =>
    let subtree := fun s => if T.child s node ≠ null then avlDestroyNode fuel T (T.child s node) else some []
    (subtree .left).bind fun l => (subtree .right).map fun r => l ++ r ++ (T.mem node).data.toList

/-- `avl_destroy` -/
def avlDestroy (T : AvlTree α) : Option (List α) :=
  if T.root ≠ null then avlDestroyNode (T.num + 1) T T.root else some []

end AvlTree

end BeehiveIm.Core
