/-
The B-tree of `btree.c`: nodes in memory with pointers to their children and their parent. A node is
its number, and no number is given out twice; its keys, with the data of each, are the list of the
first `num` of its arrays, and its children those that are not NULL. What is allocated is zero. A
call has memory for a number of nodes, and when it needs one more `btree_node_alloc` fails; without
an answer the call has left the arrays of a node, or lost its way. Left out: the release of memory,
the printing, and that the next child is written over one that is still there behind the last key,
as in a root that has been cut down in vain.
-/
import Mathlib.Data.List.Basic
import Mathlib.Logic.Function.Basic

namespace BeehiveIm.Core

variable {δ : Type}

/-- `btree_node_t`: `kv` is `key` and `data`, and its length is `num`. -/
structure BtreeNode (δ : Type) where
  kv : List (Int × δ)
  child : List Nat
  parent : Option Nat

/-- `btree_t` over the memory; `num` nodes have been allocated. -/
structure Btree (δ : Type) where
  max : Nat
  min : Nat
  sepIdx : Nat
  root : Option Nat
  mem : Nat → BtreeNode δ
  num : Nat

/-- `btree_creat` -/
def btreeCreat (δ : Type) (m : Nat) : Option (Btree δ) :=
  if m < 3 then none
  else some ⟨m - 1, (if m % 2 ≠ 0 then m / 2 + 1 else m / 2) - 1, m / 2, none, fun _ => ⟨[], [], none⟩, 0⟩

/-- The loop of `btree_key_bsearch` -/
def bsearchLoop (keys : List Int) (key : Int) : Nat → Int → Int → Int → Int
  | 0, _, mid, _ => mid
  | fuel + 1, low, mid, high =>
    if low ≤ high then
      let mid := (low + high) / 2
      let k := keys.getD mid.toNat 0
      if key = k then mid
      else if key < k then bsearchLoop keys key fuel low mid (mid - 1)
      else bsearchLoop keys key fuel (mid + 1) mid high
    else mid

/-- `btree_key_bsearch`; a turn halves what is left. -/
def btreeKeyBsearch (keys : List Int) (key : Int) : Nat :=
  (bsearchLoop keys key keys.length 0 0 (keys.length - 1)).toNat

namespace Btree

def set (T : Btree δ) (n : Nat) (node : BtreeNode δ) : Btree δ := { T with mem := Function.update T.mem n node }

/-- `btree_node_alloc`, of which the node is `T.num`. -/
def btreeNodeAlloc (T : Btree δ) : Btree δ := { T.set T.num ⟨[], [], none⟩ with num := T.num + 1 }

/-- The loops that make a node the parent of others. -/
def adopt (T : Btree δ) (kids : List Nat) (node : Nat) : Btree δ :=
  kids.foldl (fun T c => T.set c { T.mem c with parent := some node }) T

/-! ## Search -/

/-- The descent of `btree_insert`, `btree_remove` and `btree_query`: the node and the index of the
key, or the leaf and the index that the key would have. -/
def descend (T : Btree δ) (key : Int) : Nat → Nat → Option (Nat × Nat × Bool)
  | 0, _ => none
  | fuel + 1, node =>
    let idx := btreeKeyBsearch ((T.mem node).kv.map (·.1)) key
    match (T.mem node).kv[idx]? with
    | none => none
    | some (k, _) =>
      if key = k then some (node, idx, true)
      else
        let idx := if key > k then idx + 1 else idx
        match (T.mem node).child[idx]? with
        | none => some (node, idx, false)
        | some node => T.descend key fuel node

/-- `btree_query`; the loop goes down a level each turn. -/
def btreeQuery (T : Btree δ) (key : Int) : Option (Option δ) :=
  match T.root with
  | none => some none
  | some root =>
    match T.descend key T.num root with
    | none => none
    | some (node, idx, true) => some ((T.mem node).kv[idx]?.map (·.2))
    | some (_, _, false) => some none

/-! ## Insertion -/

/-- Where `btree_split` puts a key into a node, looking from the last one down. -/
def sepPos (kv : List (Int × δ)) (key : Int) : Nat → Nat
  | 0 => 0
  | idx + 1 => if kv[idx]?.any (key < ·.1) then sepPos kv key idx else idx + 1

/-- The end of a turn of `btree_split`: the children of the upper half follow it. -/
def finishSplit (T : Btree δ) (node node2 : Nat) : Btree δ :=
  let child := (T.mem node).child
  let T := T.set node { T.mem node with child := child.take (T.sepIdx + 1) }
  T.adopt (child.drop (T.sepIdx + 1)) node2

/-- One turn of `btree_split`, with memory for `avail` nodes: the upper half of a node moves to
another one, and the key between them to the parent. The answer has the parent and the memory that
is left, unless there was too little. -/
def splitNode (T : Btree δ) (avail node : Nat) : Option (Btree δ × Option (Nat × Nat)) :=
  let N := T.mem node
  match avail with
  | 0 => some (T, none)
  | avail + 1 =>
    match N.kv[T.sepIdx]? with
    | none => none
    | some sep =>
      let node2 := T.num
      let T := T.btreeNodeAlloc.set node2 ⟨N.kv.drop (T.sepIdx + 1), N.child.drop (T.sepIdx + 1), N.parent⟩
      let T := T.set node { N with kv := N.kv.take T.sepIdx }
      match N.parent with
      | none =>
        match avail with
        | 0 => some (T, none)
        | avail + 1 =>
          let parent := T.num
          let T := { T.btreeNodeAlloc with root := some parent }
          let T := T.set node { T.mem node with parent := some parent }
          let T := T.set node2 { T.mem node2 with parent := some parent }
          let T := T.set parent ⟨[sep], [node, node2], none⟩
          some (T.finishSplit node node2, some (parent, avail))
      | some parent =>
        let P := T.mem parent
        -- the last key moves to the place behind it
        if T.max < P.kv.length then none
        else
          let idx := sepPos P.kv sep.1 P.kv.length
          let T := T.set parent { P with kv := P.kv.take idx ++ sep :: P.kv.drop idx, child := P.child.take (idx + 1) ++ node2 :: P.child.drop (idx + 1) }
          let T := T.set node2 { T.mem node2 with parent := some parent }
          some (T.finishSplit node node2, some (parent, avail))

/-- `btree_split` -/
def btreeSplit : Nat → Btree δ → Nat → Nat → Option (Btree δ × Int)
  | 0, _, _, _ => none
  | fuel + 1, T, avail, node =>
    if T.max < (T.mem node).kv.length then
      match T.splitNode avail node with
      | none => none
      | some (T, none) => some (T, -1)
      | some (T, some (parent, avail)) => btreeSplit fuel T avail parent
    else some (T, 0)

/-- `_btree_insert` -/
def btreeInsertNode (T : Btree δ) (avail node : Nat) (key : Int) (idx : Nat) (data : δ) : Option (Btree δ × Int) :=
  let N := T.mem node
  -- the last key moves to the place behind it
  if T.max < N.kv.length then none
  else
    let T := T.set node { N with kv := N.kv.take idx ++ (key, data) :: N.kv.drop idx }
    if T.max < (T.mem node).kv.length then btreeSplit (T.num + 1) T avail node else some (T, 0)

/-- `btree_insert` -/
def btreeInsert (T : Btree δ) (avail : Nat) (key : Int) (data : δ) : Option (Btree δ × Int) :=
  match T.root with
  | none =>
    match avail with
    | 0 => some (T, -1)
    | _ + 1 =>
      let node := T.num
      some ({ T.btreeNodeAlloc.set node ⟨[(key, data)], [], none⟩ with root := some node }, 0)
  | some root =>
    match T.descend key T.num root with
    | none => none
    | some (_, _, true) => some (T, 0)
    | some (node, idx, false) => T.btreeInsertNode avail node key idx data

/-! ## Removal -/

/-- `_btree_merge`; `merge` is the call of `btree_merge` for the parent. -/
def btreeMergeNodes (merge : Btree δ → Nat → Option (Btree δ)) (T : Btree δ) (left right mid : Nat) :
    Option (Btree δ) :=
  let L := T.mem left
  let R := T.mem right
  match L.parent with
  | none => none
  | some parent =>
    let P := T.mem parent
    match P.kv[mid]? with
    | none => none
    | some e =>
      let T := T.set left { L with kv := L.kv ++ e :: R.kv, child := L.child ++ R.child }
      let T := T.adopt R.child left
      let T := T.set parent { T.mem parent with kv := P.kv.eraseIdx mid, child := P.child.eraseIdx (mid + 1) }
      if (T.mem parent).kv.length < T.min then merge T parent else some T

/-- The node borrows the last key of its left neighbour. -/
def borrowLeft (T : Btree δ) (node left parent mid : Nat) : Option (Btree δ) :=
  let N := T.mem node
  let L := T.mem left
  let P := T.mem parent
  match P.kv[mid]?, L.kv.getLast? with
  | some e, some last =>
    let T := T.set node { N with kv := e :: N.kv, child := L.child[L.kv.length]?.toList ++ N.child }
    let T := T.adopt L.child[L.kv.length]?.toList node
    let T := T.set parent { T.mem parent with kv := P.kv.set mid last }
    some (T.set left { T.mem left with kv := L.kv.dropLast, child := L.child.take L.kv.length })
  | _, _ => none

/-- The node borrows the first key of its right neighbour. -/
def borrowRight (T : Btree δ) (node right parent mid : Nat) : Option (Btree δ) :=
  let N := T.mem node
  let R := T.mem right
  let P := T.mem parent
  match P.kv[mid]?, R.kv with
  | some e, first :: kv =>
    let T := T.set node { N with kv := N.kv ++ [e], child := N.child ++ R.child[0]?.toList }
    let T := T.adopt R.child[0]?.toList node
    let T := T.set parent { T.mem parent with kv := P.kv.set mid first }
    some (T.set right { T.mem right with kv := kv, child := R.child.drop 1 })
  | _, _ => none

/-- `btree_merge` -/
def btreeMerge : Nat → Btree δ → Nat → Option (Btree δ)
  | 0, _, _ => none
  | fuel + 1, T, node =>
    let N := T.mem node
    match N.parent with
    | none =>
      if N.kv.length = 0 then
        match N.child[0]? with
        | some c => some { T.set c { T.mem c with parent := none } with root := some c }
        | none => some { T with root := none }
      else some T
    | some parent =>
      let P := T.mem parent
      let idx := P.child.idxOf node
      if idx > P.kv.length then some T
      else if idx = P.kv.length then
        let mid := idx - 1
        match P.child[mid]? with
        | none => none
        | some left =>
          if N.kv.length + (T.mem left).kv.length + 1 ≤ T.max then btreeMergeNodes (btreeMerge fuel) T left node mid
          else T.borrowLeft node left parent mid
      else
        match P.child[idx + 1]? with
        | none => none
        | some right =>
          if N.kv.length + (T.mem right).kv.length + 1 ≤ T.max then btreeMergeNodes (btreeMerge fuel) T node right idx
          else T.borrowRight node right parent idx

/-- The loop of `_btree_remove`: the last leaf below a node. -/
def lastLeaf (T : Btree δ) : Nat → Nat → Option Nat
  | 0, _ => none
  | fuel + 1, node =>
    match (T.mem node).child[(T.mem node).kv.length]? with
    | none => some node
    | some child => T.lastLeaf fuel child

/-- The end of `_btree_remove`: the last key of `node` takes the place of the one that is
deleted. -/
def removeLast (T : Btree δ) (orig idx node : Nat) : Option (Btree δ) :=
  match (T.mem node).kv.getLast? with
  | none => none
  | some e =>
    let T := T.set orig { T.mem orig with kv := (T.mem orig).kv.set idx e }
    let T := T.set node { T.mem node with kv := (T.mem node).kv.dropLast }
    if (T.mem node).kv.length < T.min then btreeMerge (T.num + 1) T node else some T

/-- `_btree_remove` -/
def btreeRemoveAt (T : Btree δ) (node idx : Nat) : Option (Btree δ) :=
  match (T.mem node).child[idx]? with
  | none => T.removeLast node idx node
  | some child =>
    match T.lastLeaf T.num child with
    | none => none
    | some leaf => T.removeLast node idx leaf

/-- `btree_remove`, and the data of the key. -/
def btreeRemove (T : Btree δ) (key : Int) : Option (Btree δ × Option δ) :=
  match T.root with
  | none => some (T, none)
  | some root =>
    match T.descend key T.num root with
    | none => none
    | some (node, idx, true) => (T.btreeRemoveAt node idx).map fun T' => (T', (T.mem node).kv[idx]?.map (·.2))
    | some (_, _, false) => some (T, none)

end Btree

end BeehiveIm.Core
