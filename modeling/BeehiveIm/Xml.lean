/-
The XML tree (`xml_tree.c`, `xml_comm.c`): nodes in memory, linked by pointers, with attributes and
children in one list. A node is its number, and no number is given out twice; a string is its
characters before the NUL. Left out: the logs, the search, the lengths, and the parsing of escapes,
which the build leaves out.
-/
import Mathlib.Data.List.Basic
import Mathlib.Logic.Function.Basic

namespace BeehiveIm.Xml

/-- `xml_node_type_e` -/
inductive NodeType where
  | root
  | child
  | attr
  | unknown
  deriving DecidableEq, Repr

/-- `xml_node_t`, with a field for each bit of its flag. -/
structure Node where
  name : List Char
  value : Option (List Char)
  type : NodeType
  next : Option Nat
  child : Option Nat
  tail : Option Nat
  parent : Option Nat
  temp : Option Nat
  hasChild : Bool
  hasAttr : Bool
  hasValue : Bool
  deriving DecidableEq, Repr

/-- `xml_node_init` -/
def xmlNodeInit (type : NodeType) : Node := ⟨[], none, type, none, none, none, none, none, false, false, false⟩

/-- `xml_set_value`, and whether it succeeds; an attribute always has a value. -/
def Node.setValue (node : Node) (value : Option (List Char)) (mem : Bool) : Node × Bool :=
  let node := if node.value.isSome then { node with value := none, hasValue := false } else node
  match value with
  | none | some [] =>
    if node.type = .attr then
      if mem then ({ node with value := some [], hasValue := true }, true) else (node, false)
    else ({ node with hasValue := false }, true)
  | some (c :: l) =>
    if mem then ({ node with value := some (c :: l), hasValue := true }, true)
      else ({ node with hasValue := false }, false)

/-- `xml_tree_t` over the memory; `num` nodes have been created. -/
structure XmlTree where
  mem : Nat → Node
  root : Nat
  num : Nat
  freed : List Nat

/-- `XML_MAX_DEPTH` -/
def XML_MAX_DEPTH : Nat := 32

/-- Which of the allocations of `xml_node_creat_ext` succeed. -/
structure Alloc where
  node : Bool
  name : Bool
  value : Bool

namespace XmlTree

def set (T : XmlTree) (n : Nat) (node : Node) : XmlTree := { T with mem := Function.update T.mem n node }

/-- `xml_node_creat`, of which the number is `T.num`. -/
def xmlNodeCreat (T : XmlTree) (type : NodeType) : XmlTree := { T.set T.num (xmlNodeInit type) with num := T.num + 1 }

/-- `xml_node_free_one` -/
def xmlNodeFreeOne (T : XmlTree) (n : Nat) : XmlTree := { T with freed := n :: T.freed }

/-- `xml_empty` -/
def xmlEmpty : XmlTree := ⟨fun _ => { xmlNodeInit .root with name := "ROOT".toList }, 0, 1, []⟩

/-- `xml_init` -/
def xmlInit : XmlTree := ⟨fun _ => xmlNodeInit .root, 0, 1, []⟩

/-- `xml_node_creat_ext` -/
def xmlNodeCreatExt (T : XmlTree) (type : NodeType) (name : List Char) (value : Option (List Char)) (a : Alloc) :
    XmlTree × Option Nat :=
  if !a.node then (T, none)
  else if !a.name then ((T.xmlNodeCreat type).xmlNodeFreeOne T.num, none)
  else
    let r := { xmlNodeInit type with name := name }.setValue value a.value
    let T' := (T.xmlNodeCreat type).set T.num r.1
    if r.2 then (T', some T.num) else (T'.xmlNodeFreeOne T.num, none)

/-- A node goes to the end of the list of another, its parent. -/
def linkTail (T : XmlTree) (node new : Nat) : XmlTree :=
  let T := T.set new { T.mem new with parent := some node }
  let T :=
    match (T.mem node).tail with
    | none => T.set node { T.mem node with child := some new }
    | some tail => T.set tail { T.mem tail with next := some new }
  T.set node { T.mem node with tail := some new }

def isAttr (T : XmlTree) (n : Nat) : Bool := (T.mem n).type = .attr

/-- The search of `xml_add_attr` for the last attribute, from one on. -/
def lastAttr (T : XmlTree) : Nat → Nat → Nat
  | 0, link => link
  | fuel + 1, link =>
    match (T.mem link).next with
    | some next => if T.isAttr next then T.lastAttr fuel next else link
    | none => link

/-- `xml_add_attr`; `none` is NULL. -/
def xmlAddAttr (T : XmlTree) (node : Nat) (name : List Char) (value : Option (List Char)) (a : Alloc) :
    XmlTree × Option Nat :=
  if (T.mem node).parent = none then (T, none)
  else if T.isAttr node then (T, none)
  else
    match T.xmlNodeCreatExt .attr name value a with
    | (T, none) => (T, none)
    | (T, some attr) =>
      match (T.mem node).child with
      | none =>
        let T := T.set attr { T.mem attr with parent := some node }
        (T.set node { T.mem node with child := some attr, tail := some attr, hasAttr := true }, some attr)
      | some link =>
        if (T.mem node).hasAttr then
          if (T.mem node).tail.any T.isAttr then
            let T := T.linkTail node attr
            (T.set node { T.mem node with hasAttr := true }, some attr)
          else
            let link := T.lastAttr T.num link
            let T := T.set attr { T.mem attr with parent := some node, next := (T.mem link).next }
            let T := T.set link { T.mem link with next := some attr }
            (T.set node { T.mem node with hasAttr := true }, some attr)
        else if (T.mem node).hasChild then
          let T := T.set attr { T.mem attr with parent := some node, next := (T.mem node).child }
          (T.set node { T.mem node with child := some attr, hasAttr := true }, some attr)
        else (T.xmlNodeFreeOne attr, none)

/-- `xml_add_child` -/
def xmlAddChild (T : XmlTree) (node : Nat) (name : List Char) (value : Option (List Char)) (a : Alloc) :
    XmlTree × Option Nat :=
  if T.isAttr node then (T, none)
  else
    match T.xmlNodeCreatExt .child name value a with
    | (T, none) => (T, none)
    | (T, some child) =>
      let T := T.linkTail node child
      (T.set node { T.mem node with hasChild := true }, some child)

/-- `xml_set_value` -/
def xmlSetValue (T : XmlTree) (node : Nat) (value : Option (List Char)) (mem : Bool) : XmlTree × Bool :=
  let r := (T.mem node).setValue value mem
  (T.set node r.1, r.2)

/-- The loop of `xml_delete_child`, from the pair of `p1` and the node behind it on. -/
def deleteLoop (T : XmlTree) (node child : Nat) : Nat → Nat → XmlTree
  | 0, _ => T
  | fuel + 1, p1 =>
    match (T.mem p1).next with
    | none => T
    | some p2 =>
      if child = p2 then
        let T' := T.set p1 { T.mem p1 with next := (T.mem child).next }
        let T' := if (T.mem node).tail = some child then T'.set node { T'.mem node with tail := some p1 } else T'
        if (T.mem child).next = none ∧ (T.mem child).type = .child ∧ (T.mem p1).type ≠ .child then
          T'.set node { T'.mem node with hasChild := false }
        else T'
      else T.deleteLoop node child fuel p2

/-- `xml_delete_child`, and whether it succeeds. -/
def xmlDeleteChild (T : XmlTree) (node child : Nat) : XmlTree × Bool :=
  if (T.mem child).parent ≠ some node then (T, false)
  else if (T.mem node).child = some child then
    let T' := T.set node { T.mem node with child := (T.mem child).next }
    match (T.mem child).next with
    | none =>
      let T' := T'.set node { T'.mem node with tail := none }
      (if T.isAttr child then T'.set node { T'.mem node with hasAttr := false } else T', true)
    | some next =>
      (if T.isAttr child ∧ !T.isAttr next then T'.set node { T'.mem node with hasAttr := false } else T', true)
  else
    match (T.mem node).child with
    | some p1 => (T.deleteLoop node child T.num p1, true)
    | none => (T, true)

/-! ## Freeing -/

/-- `xml_attr_free` -/
def xmlAttrFree (T : XmlTree) (node : Nat) : Nat → XmlTree
  | 0 => T
  | fuel + 1 =>
    match (T.mem node).temp with
    | none => T
    | some child =>
      if T.isAttr child then
        ((T.set node { T.mem node with temp := (T.mem child).next }).xmlNodeFreeOne child).xmlAttrFree node fuel
      else T.set node { T.mem node with child := some child }

/-- The part of `xml_free_next` that goes up: nodes that are done are popped and freed,
until one has a sibling. -/
def freeUp : XmlTree → List Nat → XmlTree × List Nat × Option Nat
  | T, [] => (T, [], none)
  | T, top :: stack =>
    if stack = [] then (T.xmlNodeFreeOne top, [], none)
    else
      match (T.mem top).next with
      | some curr => (T.xmlNodeFreeOne top, stack, some curr)
      | none => freeUp (T.xmlNodeFreeOne top) stack

/-- `xml_free_next` -/
def xmlFreeNext (T : XmlTree) (stack : List Nat) (curr : Nat) : XmlTree × List Nat × Option Nat :=
  match (T.mem curr).temp with
  | some child => (T.set curr { T.mem curr with temp := (T.mem child).next }, stack, some child)
  | none => T.freeUp stack

/-- The loop of `xml_node_free`; it also ends at a stack that is full. -/
def freeLoop : Nat → XmlTree → List Nat → Nat → XmlTree × Bool
  | 0, T, _, _ => (T, false)
  | fuel + 1, T, stack, curr =>
    let T := T.set curr { T.mem curr with temp := (T.mem curr).child }
    if stack.length ≥ XML_MAX_DEPTH then (T, false)
    else
      let T := if (T.mem curr).hasAttr then T.xmlAttrFree curr T.num else T
      match T.xmlFreeNext (curr :: stack) curr with
      | (T, stack, none) => (T, stack = [])
      | (T, stack, some curr) => freeLoop fuel T stack curr

/-- `xml_node_free`, and whether it succeeds; a turn of the loop pushes a node that it
has not pushed before. -/
def xmlNodeFree (T : XmlTree) (node : Nat) : XmlTree × Bool :=
  match (T.mem node).parent with
  | none => T.freeLoop T.num [] node
  | some parent =>
    let r := T.xmlDeleteChild parent node
    if r.2 then freeLoop r.1.num r.1 [] node else r

end XmlTree

end BeehiveIm.Xml
