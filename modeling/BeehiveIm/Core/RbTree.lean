/-
The red-black tree (`rb_tree.c`): nodes are cells in memory linked to their children and parent, the
sentinel is the leaf of every branch. A loop of the source carries the number of steps it may still
take and answers `none` when they run out. Where the source has a mirrored half for the other side,
the two halves are one definition over the side.
-/
import BeehiveIm.Lib.Search

namespace BeehiveIm.Core

open BeehiveIm.Lib

inductive Color where
  | red
  | black
  deriving DecidableEq, Repr

/-- The return codes `RBT_OK`, `RBT_ERR` and `RBT_NODE_EXIST`. -/
inductive RbtRet where
  | ok
  | err
  | nodeExist
  deriving DecidableEq, Repr

/-- `rbt_tree_t`, with the memory of its nodes; `next` is the first address not yet handed out. -/
structure RbTree (α : Type) where
  num : Nat
  root : Ptr
  sentinel : Ptr
  mem : Mem Color α
  next : Ptr

namespace RbTree

variable {α : Type}

/-! ## Node fields -/

def parent (T : RbTree α) (p : Ptr) : Ptr := (T.mem p).parent
def child (T : RbTree α) (s : Side) (p : Ptr) : Ptr := (T.mem p).child s
def isRed (T : RbTree α) (p : Ptr) : Bool := (T.mem p).tag = .red
def isBlack (T : RbTree α) (p : Ptr) : Bool := (T.mem p).tag = .black

def setColor (T : RbTree α) (p : Ptr) (c : Color) : RbTree α := { T with mem := T.mem.setTag p c }
def setParent (T : RbTree α) (p q : Ptr) : RbTree α := { T with mem := T.mem.setParent p q }
def setData (T : RbTree α) (p : Ptr) (d : Option α) : RbTree α := { T with mem := T.mem.setData p d }

/-- `tree->dealloc(tree->pool, p)`: links and payload of the cell are gone. -/
def dealloc (T : RbTree α) (p : Ptr) : RbTree α :=
  { T with mem := Function.update T.mem p ⟨(T.mem p).tag, 0, 0, 0, none⟩ }

/-- The side of `parent` that `node == parent->lchild` tells. -/
def sideOf (T : RbTree α) (parent node : Ptr) : Side :=
  if node = T.child .left parent then .left else .right

/-- What `cmp_cb(key, p->data)` answers. -/
def cmp (T : RbTree α) (ck : α → Int) (p : Ptr) : Int := (T.mem p).data.elim 0 ck

/-- `rbt_set_child`; `rbt_set_lchild` and `rbt_set_rchild` are its two sides. -/
def rbtSetChild (T : RbTree α) (node : Ptr) (type : Side) (child : Ptr) : RbTree α :=
  { T with mem := T.mem.linkChild T.sentinel type node child }

/-! ## Rotations -/

/-- The body shared by both rotations: `node` goes down to side `s`. -/
def rbtRotate (s : Side) (T : RbTree α) (node : Ptr) : RbTree α :=
  let parent := T.parent node
  let child := T.child s.other node
  let T :=
    if T.sentinel = parent then { T with root := child }.setParent child T.sentinel
    else T.rbtSetChild parent (T.sideOf parent node) child
  let T := T.rbtSetChild node s.other (T.child s child)
  T.rbtSetChild child s node

def rbtLeftRotate : RbTree α → Ptr → RbTree α := rbtRotate .left
def rbtRightRotate : RbTree α → Ptr → RbTree α := rbtRotate .right

/-! ## Creation -/

/-- `rbt_creat`: the sentinel is the first cell allocated. -/
def rbtCreat (α : Type) : RbTree α where
  num := 0
  root := 1
  sentinel := 1
  mem := fun _ => ⟨.black, 0, 0, 0, none⟩
  next := 2

/-- `rbt_creat_node`; `mem` is whether the allocator has memory. -/
def rbtCreatNode (T : RbTree α) (color : Color) (type : Side) (parent : Option Ptr) (mem : Bool) :
    Option (RbTree α × Ptr) :=
  if mem then
    let node := T.next
    let T := { T with
      next := T.next + 1
      mem := Function.update T.mem node ⟨color, 0, T.sentinel, T.sentinel, none⟩ }
    match parent with
    | some parent => some (T.rbtSetChild parent type node, node)
    | none => some (T.setParent node T.sentinel, node)
  else none

/-! ## Insertion -/

/-- `rbt_insert_fixup`. The source writes the two colours of case 2 in either order. -/
def rbtInsertFixup : Nat → RbTree α → Ptr → Option (RbTree α)
  | 0, _, _ => none
  | fuel + 1, T, node =>
    if T.isRed node then
      let parent := T.parent node
      if T.isBlack parent then some T
      else
        let grandpa := T.parent parent
        let s := T.sideOf grandpa parent
        let uncle := T.child s.other grandpa
        -- case 1: parent and uncle are red
        if T.isRed uncle then
          let T := (T.setColor parent .black).setColor uncle .black
          let T := if grandpa ≠ T.root then T.setColor grandpa .red else T
          rbtInsertFixup fuel T grandpa
        -- case 2: node is the outer grandchild
        else if T.sideOf parent node = s then
          let gparent := T.parent grandpa
          let T := (T.setColor grandpa .red).setColor parent .black
          rbtInsertFixup fuel (T.rbtRotate s.other grandpa) gparent
        -- case 3: node is the inner grandchild
        else rbtInsertFixup fuel (T.rbtRotate s parent) parent
    else some T

/-- The new red child of `node` at side `type`, and the repair; the source spells this out twice. -/
def rbtInsertChild (T : RbTree α) (node : Ptr) (type : Side) (data : α) (mem : Bool) :
    Option (RbTree α × RbtRet) :=
  match T.rbtCreatNode .red type (some node) mem with
  | none => some (T, .err)
  | some (T, add) =>
    let T := { T with num := T.num + 1 }.setData add (some data)
    (rbtInsertFixup (T.num + 2) T add).map (·, .ok)

/-- The descent of `rbt_insert` from `node`. -/
def rbtInsertLoop (ck : α → Int) (data : α) (mem : Bool) :
    Nat → RbTree α → Ptr → Option (RbTree α × RbtRet)
  | 0, _, _ => none
  | fuel + 1, T, node =>
    if T.sentinel = node then some (T, .ok)
    else
      let ret := T.cmp ck node
      if ret = 0 then some (T, .nodeExist)
      else
        let type : Side := if ret < 0 then .left else .right
        if T.sentinel = T.child type node then T.rbtInsertChild node type data mem
        else rbtInsertLoop ck data mem fuel T (T.child type node)

/-- `rbt_insert` of `data`, whose comparisons `ck` answers. -/
def rbtInsert (T : RbTree α) (ck : α → Int) (data : α) (mem : Bool) : Option (RbTree α × RbtRet) :=
  if T.sentinel = T.root then
    match T.rbtCreatNode .black .left none mem with
    | none => some ({ T with root := T.sentinel }, .err)
    | some (T, node) => some ({ T with root := node, num := T.num + 1 }.setData node (some data), .ok)
  else rbtInsertLoop ck data mem (T.num + 1) T T.root

/-! ## Deletion -/

/-- Cases 1 and 5 of `rbt_delete_fixup`: a red brother is rotated away. -/
def rbtDeleteBrother (s : Side) (T : RbTree α) (parent brother : Ptr) : RbTree α × Ptr :=
  if T.isRed brother then
    let T := (T.setColor parent .red).setColor brother .black
    let T := T.rbtRotate s parent
    (T, T.child s.other parent)
  else (T, brother)

/-- Cases 3 and 7 of `rbt_delete_fixup`: only the brother's inner child is red. -/
def rbtDeleteInner (s : Side) (T : RbTree α) (parent brother : Ptr) : RbTree α × Ptr :=
  if T.isBlack (T.child s.other brother) then
    let T := (T.setColor (T.child s brother) .black).setColor brother .red
    let T := T.rbtRotate s.other brother
    (T, T.child s.other parent)
  else (T, brother)

/-- Cases 4 and 8 of `rbt_delete_fixup`: the brother's outer child is red. -/
def rbtDeleteOuter (s : Side) (T : RbTree α) (parent brother : Ptr) : RbTree α :=
  let T := T.setColor brother (T.mem parent).tag
  let T := T.setColor (T.child s.other brother) .black
  let T := T.setColor parent .black
  T.rbtRotate s parent

/-- Case 2 (6) of `rbt_delete_fixup`, or the rotations; also answers the next `node`. -/
def rbtDeleteBalance (s : Side) (T : RbTree α) (parent brother : Ptr) : RbTree α × Ptr :=
  if T.isBlack (T.child .left brother) ∧ T.isBlack (T.child .right brother) then
    (T.setColor brother .red, parent)
  else
    let (T, brother) := rbtDeleteInner s T parent brother
    let T := rbtDeleteOuter s T parent brother
    (T, T.root)

/-- `rbt_delete_fixup`. -/
def rbtDeleteFixup : Nat → RbTree α → Ptr → Option (RbTree α)
  | 0, _, _ => none
  | fuel + 1, T, node =>
    if T.isBlack node ∧ T.root ≠ node then
      let parent := T.parent node
      let s := T.sideOf parent node
      let (T, brother) := rbtDeleteBrother s T parent (T.child s.other parent)
      let (T, node) := rbtDeleteBalance s T parent brother
      rbtDeleteFixup fuel T node
    else some (T.setColor node .black)

/-- `parent`'s child `old` becomes `refer`, by plain assignment. -/
def rbtReplaceChild (T : RbTree α) (parent old refer : Ptr) : RbTree α :=
  { T with mem := T.mem.setChild (T.sideOf parent old) parent refer }

/-- How all three cases of `_rbt_delete` end: `node` is freed, and a black one made up for. -/
def rbtDeleteDone (T : RbTree α) (node refer : Ptr) : Option (RbTree α) :=
  if T.isRed node then some (T.dealloc node)
  else rbtDeleteFixup (T.num + 3) (T.dealloc node) refer

/-- Cases 1 and 2 of `_rbt_delete`: `refer` takes the place of `dnode`. -/
def rbtDeleteSingle (T : RbTree α) (dnode refer : Ptr) : Option (RbTree α) :=
  let parent := T.parent dnode
  let T := T.setParent refer parent
  let T := if T.sentinel = parent then { T with root := refer } else T.rbtReplaceChild parent dnode refer
  T.rbtDeleteDone dnode refer

/-- `while (tree->sentinel != next->lchild) { next = next->lchild; }` -/
def rbtLeftmost : Nat → RbTree α → Ptr → Option Ptr
  | 0, _, _ => none
  | fuel + 1, T, next =>
    if T.sentinel ≠ T.child .left next then rbtLeftmost fuel T (T.child .left next) else some next

/-- Case 3 of `_rbt_delete`: the successor's payload moves up, the successor is removed. -/
def rbtDeleteNext (T : RbTree α) (dnode next : Ptr) : Option (RbTree α) :=
  let parent := T.parent next
  let refer := T.child .right next
  let T := T.setParent refer parent
  let T := T.rbtReplaceChild parent next refer
  let T := T.setData dnode (T.mem next).data
  T.rbtDeleteDone next refer

/-- `_rbt_delete` of the node `dnode`. -/
def rbtDeleteNode (T : RbTree α) (dnode : Ptr) : Option (RbTree α) :=
  if T.sentinel = T.child .left dnode then T.rbtDeleteSingle dnode (T.child .right dnode)
  else if T.sentinel = T.child .right dnode then T.rbtDeleteSingle dnode (T.child .left dnode)
  else (rbtLeftmost (T.num + 1) T (T.child .right dnode)).bind (T.rbtDeleteNext dnode)

/-- The search of `rbt_delete` from `node`; also answers the payload removed. -/
def rbtDeleteLoop (ck : α → Int) : Nat → RbTree α → Ptr → Option (RbTree α × Option α)
  | 0, _, _ => none
  | fuel + 1, T, node =>
    if T.sentinel = node then some (T, none)
    else
      let ret := T.cmp ck node
      if ret = 0 then
        let data := (T.mem node).data
        ({ T with num := T.num - 1 }.rbtDeleteNode node).map (·, data)
      else rbtDeleteLoop ck fuel T (T.child (if ret < 0 then .left else .right) node)

/-- `rbt_delete` of the key whose comparisons `ck` answers. -/
def rbtDelete (T : RbTree α) (ck : α → Int) : Option (RbTree α × Option α) :=
  rbtDeleteLoop ck (T.num + 1) T T.root

/-! ## Query -/

/-- The address of the node `rbt_query` stops at from `node`, if any. -/
def rbtQueryLoop (ck : α → Int) : Nat → RbTree α → Ptr → Option (Option Ptr)
  | 0, _, _ => none
  | fuel + 1, T, node =>
    if T.sentinel = node then some none
    else
      let ret := T.cmp ck node
      if ret = 0 then some (some node)
      else rbtQueryLoop ck fuel T (T.child (if ret < 0 then .left else .right) node)

/-- `rbt_query` of the key whose comparisons `ck` answers. -/
def rbtQuery (T : RbTree α) (ck : α → Int) : Option (Option α) :=
  (rbtQueryLoop ck (T.num + 1) T T.root).map fun r => r.bind fun p => (T.mem p).data

/-- A write to the element that `rbt_query` answers. -/
def rbtWrite (T : RbTree α) (ck : α → Int) (g : α → α) : Option (RbTree α) :=
  (rbtQueryLoop ck (T.num + 1) T T.root).map fun r => r.elim T fun p => T.setData p ((T.mem p).data.map g)

/-! ## Traversal -/

/-- The loop over the ancestors that are done: the first one still to visit, and the stack. -/
def rbtTravUp (T : RbTree α) : Ptr → List Ptr → Option (Ptr × List Ptr)
  | _, [] => none
  | node, parent :: stack =>
    if node = T.child .right parent ∨ T.sentinel = T.child .right parent then T.rbtTravUp parent stack
    else some (parent, parent :: stack)

/-- `rbt_trav` from `node` on; `stack` are the nodes pushed, `out` the elements handed to the
callback. A push to the left child is a round of its own. -/
def rbtTravLoop : Nat → RbTree α → Ptr → List Ptr → List α → Option (List α)
  | 0, _, _, _, _ => none
  | fuel + 1, T, node, stack, out =>
    let visit := fun out p => out ++ (T.mem p).data.toList
    let next := fun out => fun
      | none => some out
      | some (parent, stack) => rbtTravLoop fuel T (T.child .right parent) stack (visit out parent)
    if T.sentinel = node then some out
    else if T.sentinel ≠ T.child .left node then rbtTravLoop fuel T (T.child .left node) (node :: stack) out
    else
      let out := visit out node
      if T.sentinel ≠ T.child .right node then
        rbtTravLoop fuel T (T.child .right node) (node :: stack) out
      else
        match stack with
        | [] => some out
        | parent :: rest =>
          if T.child .left parent = node then
            let out := visit out parent
            if T.sentinel ≠ T.child .right parent then
              rbtTravLoop fuel T (T.child .right parent) stack out
            else next out (T.rbtTravUp parent rest)
          else next out (T.rbtTravUp node stack)

/-- The elements in the order `rbt_trav` hands them to its callback. -/
def rbtTrav (T : RbTree α) : Option (List α) := rbtTravLoop (T.num + 1) T T.root [] []

/-! ## The stack -/

/-- `RBT_MAX_DEPTH` -/
def rbtMaxDepth : Nat := 512

/-- `stack_push` on a stack with room for `max` entries; one that is full is not pushed to,
which is a fault here. -/
def stackPush (max : Nat) (stack : List Ptr) (node : Ptr) : Option (List Ptr) :=
  if stack.length < max then some (node :: stack) else none

/-- A node handed to the callback of `rbt_find`: `rest` goes on unless the callback matches. -/
def findAt (T : RbTree α) (find : α → Bool) (out : List α) (p : Ptr)
    (rest : List α → Option (List α × Option α)) : Option (List α × Option α) :=
  match (T.mem p).data with
  | none => rest out
  | some d => if find d then some (out ++ [d], some d) else rest (out ++ [d])

/-- After the loop upwards: the parent it stopped at, then its right child. -/
def findNext (T : RbTree α) (find : α → Bool) (loop : Ptr → List Ptr → List α → Option (List α × Option α))
    (out : List α) : Option (Ptr × List Ptr) → Option (List α × Option α)
  | none => some (out, none)
  | some (parent, stack) => T.findAt find out parent fun out => loop (T.child .right parent) stack out

/-- `rbt_find` from `node` on, like `rbtTravLoop`, with a stack for `max` entries: the elements
handed to the callback, and the one it matches. -/
def rbtFindLoop (find : α → Bool) (max : Nat) : Nat → RbTree α → Ptr → List Ptr → List α →
    Option (List α × Option α)
  | 0, _, _, _, _ => none
  | fuel + 1, T, node, stack, out =>
    if T.sentinel = node then some (out, none)
    else if T.sentinel ≠ T.child .left node then
      match stackPush max stack node with
      | none => none
      | some stack => rbtFindLoop find max fuel T (T.child .left node) stack out
    else
      T.findAt find out node fun out =>
        if T.sentinel ≠ T.child .right node then
          match stackPush max stack node with
          | none => none
          | some stack => rbtFindLoop find max fuel T (T.child .right node) stack out
        else
          match stack with
          | [] => some (out, none)
          | parent :: rest =>
            if T.child .left parent = node then
              T.findAt find out parent fun out =>
                if T.sentinel ≠ T.child .right parent then
                  rbtFindLoop find max fuel T (T.child .right parent) stack out
                else T.findNext find (rbtFindLoop find max fuel T) out (T.rbtTravUp parent rest)
            else T.findNext find (rbtFindLoop find max fuel T) out (T.rbtTravUp node stack)

/-- `rbt_find` -/
def rbtFind (T : RbTree α) (find : α → Bool) : Option (List α × Option α) :=
  rbtFindLoop find rbtMaxDepth (T.num + 1) T T.root [] []

/-- `rbt_trav` with the stack it has: its loop is that of `rbt_find`, and its
callback stops at nothing. -/
def rbtTravStack (T : RbTree α) : Option (List α) := (T.rbtFind fun _ => false).map (·.1)

/-- The loop of `rbt_destroy` over the ancestors that are done: a node is freed when the
one above it is known. -/
def rbtDestroyUp (T : RbTree α) : Ptr → List Ptr → List α → List α × Option (Ptr × List Ptr)
  | node, [], out => (out ++ (T.mem node).data.toList, none)
  | node, parent :: stack, out =>
    let out := out ++ (T.mem node).data.toList
    if node = T.child .right parent ∨ T.sentinel = T.child .right parent then T.rbtDestroyUp parent stack out
    else (out, some (parent, parent :: stack))

/-- `rbt_destroy` from `node` on; `out` are the elements handed to `dealloc`. -/
def rbtDestroyLoop (max : Nat) : Nat → RbTree α → Ptr → List Ptr → List α → Option (List α)
  | 0, _, _, _, _ => none
  | fuel + 1, T, node, stack, out =>
    if T.sentinel = node then some out
    else if T.sentinel ≠ T.child .left node then
      match stackPush max stack node with
      | none => none
      | some stack => rbtDestroyLoop max fuel T (T.child .left node) stack out
    else if T.sentinel ≠ T.child .right node then
      match stackPush max stack node with
      | none => none
      | some stack => rbtDestroyLoop max fuel T (T.child .right node) stack out
    else
      match stack with
      | [] => some (out ++ (T.mem node).data.toList)
      | parent :: _ =>
        if T.child .left parent = node ∧ T.sentinel ≠ T.child .right parent then
          rbtDestroyLoop max fuel T (T.child .right parent) stack (out ++ (T.mem node).data.toList)
        else
          match T.rbtDestroyUp node stack out with
          | (out, none) => some out
          | (out, some (parent, stack)) => rbtDestroyLoop max fuel T (T.child .right parent) stack out

/-- `rbt_destroy` -/
def rbtDestroy (T : RbTree α) : Option (List α) := rbtDestroyLoop rbtMaxDepth (T.num + 1) T T.root [] []

end RbTree

end BeehiveIm.Core
