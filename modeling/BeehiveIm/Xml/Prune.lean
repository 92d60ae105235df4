/-
`xml_delete_empty` (`xml_tree.c`): a walk over the tree with a stack of ancestors that takes out the
nodes that have no attribute, no value and no child.

A node that stays and has no sibling behind it is left by popping its ancestors, and an empty stack
is not looked for: the walk only ends behind a node it has deleted. Behind the parent of a deleted
node that has no sibling either, the grandparent is popped and deleted, whatever it has.
-/
import BeehiveIm.Xml.Lists
import Mathlib.Data.List.Perm.Subperm
import Mathlib.Tactic

namespace BeehiveIm.Xml

namespace XmlTree

/-! ## The walk -/

/-- `xml_unset_child_flag` -/
def unsetChild (T : XmlTree) (n : Nat) : XmlTree := T.set n { T.mem n with hasChild := false }

/-- No attribute, no value and no child. -/
def isBare (T : XmlTree) (n : Nat) : Bool := !(T.mem n).hasAttr && !(T.mem n).hasValue && !(T.mem n).hasChild

/-- The loop of `_xml_delete_empty` to the node before; `none` where it follows NULL. -/
def findPrev (T : XmlTree) (node : Nat) : Nat → Nat → Option Nat
  | 0, _ => none
  | fuel + 1, prev =>
    match (T.mem prev).next with
    | none => none
    | some next => if next = node then some prev else T.findPrev node fuel next

/-- `_xml_delete_empty` from the parent of a deleted node on: it is deleted as well (`again`), or
the walk goes on behind it, or its own parent is popped and deleted. -/
def parentDone (again : XmlTree → List Nat → Nat → Option (XmlTree × List Nat × Option Nat)) (T : XmlTree)
    (stack : List Nat) (parent : Nat) : Option (XmlTree × List Nat × Option Nat) :=
  let stack := stack.tail
  if T.isBare parent then again T stack parent
  else
    match (T.mem parent).next with
    | some next => some (T, stack, some next)
    | none =>
      match stack with
      | [] => some (T, [], none)
      | top :: stack => again T stack top

/-- `_xml_delete_empty`: the node to go on with; `none` where NULL is followed. -/
def xmlDeleteEmptyUp : Nat → XmlTree → List Nat → Nat → Option (XmlTree × List Nat × Option Nat)
  | 0, _, _, _ => none
  | fuel + 1, T, stack, node =>
    match (T.mem node).parent with
    | none => none
    | some parent =>
      let next := (T.mem node).next
      if (T.mem parent).child = some node then
        let T := (T.set parent { T.mem parent with child := next }).xmlNodeFreeOne node
        match next with
        | some next => some (T, stack, some next)
        | none => parentDone (xmlDeleteEmptyUp fuel) (T.unsetChild parent) stack parent
      else
        match (T.mem parent).child.bind (T.findPrev node T.num) with
        | none => none
        | some prev =>
          let T := (T.set prev { T.mem prev with next := next }).xmlNodeFreeOne node
          match next with
          | some next => some (T, stack, some next)
          | none =>
            parentDone (xmlDeleteEmptyUp fuel) (if T.isAttr prev then T.unsetChild parent else T) stack parent

/-- The loop behind a node that stays: its sibling, or that of the first ancestor with one. -/
def climb (T : XmlTree) : List Nat → Nat → Option (Nat × List Nat)
  | [], node => (T.mem node).next.map fun next => (next, [])
  | top :: stack, node =>
    match (T.mem node).next with
    | some next => some (next, top :: stack)
    | none => T.climb stack top

/-- The loop of `xml_delete_empty`, and whether it succeeds; `none` where NULL is followed, and
where the turns do not suffice. A turn of `_xml_delete_empty` takes a node from the stack; the one
that finds it empty is at the root, which has no parent. -/
def deleteEmptyLoop : Nat → XmlTree → List Nat → Option Nat → Option (XmlTree × Bool)
  | _, T, _, none => some (T, true)
  | 0, _, _, some _ => none
  | fuel + 1, T, stack, some node =>
    if T.isAttr node then
      match (T.mem node).next with
      | some next => deleteEmptyLoop fuel T stack (some next)
      | none => some (T, false)
    else if (T.mem node).hasChild then
      if stack.length ≥ XML_MAX_DEPTH then some (T, false)
      else deleteEmptyLoop fuel T (node :: stack) (T.mem node).child
    else if (T.mem node).hasValue || (T.mem node).hasAttr then
      (T.climb stack node).bind fun r => deleteEmptyLoop fuel T r.2 (some r.1)
    else
      (xmlDeleteEmptyUp (stack.length + 1) T stack node).bind fun r => deleteEmptyLoop fuel r.1 r.2.1 r.2.2

/-- `xml_delete_empty`, for so many turns -/
def xmlDeleteEmpty (T : XmlTree) (fuel : Nat) : Option (XmlTree × Bool) :=
  deleteEmptyLoop fuel T [] (T.mem T.root).child

end XmlTree

/-! ## Trees -/

/-- Siblings with all that is below them: the first one, its attributes, its
children, and the others. -/
inductive Forest where
  | nil
  | cons (node : Nat) (attrs : List Nat) (kids rest : Forest)
  deriving DecidableEq

namespace Forest

def roots : Forest → List Nat
  | nil => []
  | cons n _ _ rest => n :: rest.roots

/-- All nodes, the attributes as well. -/
def addrs : Forest → List Nat
  | nil => []
  | cons n a kids rest => n :: (a ++ kids.addrs ++ rest.addrs)

/-- All nodes but the siblings themselves. -/
def under : Forest → List Nat
  | nil => []
  | cons _ a kids rest => a ++ kids.addrs ++ rest.under

def height : Forest → Nat
  | nil => 0
  | cons _ _ kids rest => max (kids.height + 1) rest.height

/-- What is left without the nodes that have nothing; `hasValue` are the nodes with a value. -/
def prune (hasValue : Nat → Bool) : Forest → Forest
  | nil => nil
  | cons n a kids rest =>
    if a = [] ∧ hasValue n = false ∧ kids.prune hasValue = nil then rest.prune hasValue
    else cons n a (kids.prune hasValue) (rest.prune hasValue)

/-- A node is taken out. -/
def Gone (hasValue : Nat → Bool) (n : Nat) (a : List Nat) (kids : Forest) : Prop :=
  a = [] ∧ hasValue n = false ∧ kids.prune hasValue = nil

instance (hasValue : Nat → Bool) (n : Nat) (a : List Nat) (kids : Forest) : Decidable (Gone hasValue n a kids) :=
  inferInstanceAs (Decidable (_ ∧ _ ∧ _))

/-- The last of the siblings is taken out. -/
def LastGone (hasValue : Nat → Bool) : Forest → Prop
  | nil => False
  | cons n a kids nil => Gone hasValue n a kids
  | cons _ _ _ rest => rest.LastGone hasValue

/-- The last of the siblings is taken out, or the last of its children. -/
def EndsGone (hasValue : Nat → Bool) : Forest → Prop
  | nil => False
  | cons n a kids nil => Gone hasValue n a kids ∨ kids.LastGone hasValue
  | cons _ _ _ rest => rest.EndsGone hasValue

/-- No node, but for those of the uppermost level if `top`, that is the last of its siblings and
stays loses its last child. -/
def Settled (hasValue : Nat → Bool) (top : Bool) : Forest → Prop
  | nil => True
  | cons n a kids rest => kids.Settled hasValue false ∧ rest.Settled hasValue top ∧
      (top = false → rest = nil → ¬ Gone hasValue n a kids → ¬ kids.LastGone hasValue)

/-- The trees from which `xml_delete_empty` takes what it should: there is nothing in them, or
something stays (or the root has a value), no node below the uppermost level that stays and is
the last of its siblings loses its last child, and the last node of the uppermost level or its
last child is taken out. -/
def Clean (hasValue : Nat → Bool) (root : Nat) (f : Forest) : Prop :=
  f = nil ∨ f.Settled hasValue true ∧ (f.prune hasValue ≠ nil ∨ hasValue root = true) ∧ f.EndsGone hasValue

end Forest

namespace XmlTree

/-- The list of a node: its attributes, and its children `ks`; the flags say whether there are
any. -/
structure Owns (mem : Nat → Node) (x : Nat) (a ks : List Nat) : Prop where
  chain : Chain mem (mem x).child (a ++ ks)
  attr : ∀ k ∈ a, (mem k).type = .attr
  kid : ∀ k ∈ ks, (mem k).type = .child ∧ (mem k).parent = some x
  hasAttr : (mem x).hasAttr = true ↔ a ≠ []
  hasChild : (mem x).hasChild = true ↔ ks ≠ []

/-- The lists of all nodes of a forest -/
def Draws (mem : Nat → Node) : Forest → Prop
  | .nil => True
  | .cons n a kids rest => Owns mem n a kids.roots ∧ Draws mem kids ∧ Draws mem rest

/-- The memory holds the tree `f` under its root, and none of it has been freed. -/
structure Holds (T : XmlTree) (f : Forest) : Prop where
  owns : Owns T.mem T.root [] f.roots
  draws : Draws T.mem f
  nodup : (T.root :: f.addrs).Nodup
  lt : ∀ n ∈ T.root :: f.addrs, n < T.num
  alive : ∀ n ∈ f.addrs, n ∉ T.freed
  parent : (T.mem T.root).parent = none
  next : (T.mem T.root).next = none

/-- Nothing but the links between the nodes has changed, and the flags that say
whether there are children. -/
def SameContent (T T' : XmlTree) : Prop := ∀ n, T'.mem n =
  { T.mem n with next := (T'.mem n).next, child := (T'.mem n).child, hasChild := (T'.mem n).hasChild }

/-- `xml_delete_empty` ends well, and leaves the tree without the nodes that have nothing,
and all else as it was. -/
def Prunes (T : XmlTree) (f : Forest) : Prop := ∃ fuel T', T.xmlDeleteEmpty fuel = some (T', true) ∧
  Holds T' (f.prune fun n => (T.mem n).hasValue) ∧ SameContent T T'

end XmlTree

end BeehiveIm.Xml
