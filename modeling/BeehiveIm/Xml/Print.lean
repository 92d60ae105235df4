/-
The printers of the XML tree (`xml_print.c`), with the functions that say how long what they print
is (`xml_comm.c`, `xml_print.c`). They are one walk with a stack of ancestors; what they make of
each node differs. Left out: the file that `xml_fprint_tree` prints to instead of a buffer,
`__XML_PACK_CMARK__`, which the build does not set, and the stack that cannot be allocated. Lengths
are counted in an `int`, which wraps around.
-/
import BeehiveIm.Xml.Release

namespace BeehiveIm.Xml

/-- What is made of the parts of a node; `depth` is how many nodes are on the stack. -/
structure Form (α : Type) where
  name : (depth : Nat) → (name : List Char) → α
  attr : (name value : List Char) → α
  value : (value : Option (List Char)) → (hasChild more : Bool) → (name : List Char) → α
  /-- the end tag of a node that the walk has not gone below -/
  close : (depth : Nat) → (name : List Char) → α
  closeUp : (depth : Nat) → (name : List Char) → α

def tabs (n : Nat) : List Char := List.replicate n '\t'

/-- `xml_sprint_name`, `xml_sprint_attr`, `xml_sprint_value` and the end tags of
`xml_sprint_next` -/
def xmlSprintForm : Form (List Char) where
  name depth name := tabs (depth - 1) ++ '<' :: name
  attr name value := ' ' :: (name ++ '=' :: '"' :: (value ++ ['"']))
  value
    | some value, true, _, _ => '>' :: (value ++ ['\n'])
    | some value, false, _, name => '>' :: (value ++ '<' :: '/' :: (name ++ ['>', '\n']))
    | none, _, true, _ => ['>', '\n']
    | none, _, false, _ => ['/', '>', '\n']
  close depth name := tabs (depth - 2) ++ '<' :: '/' :: (name ++ ['>', '\n'])
  closeUp depth name := tabs depth ++ '<' :: '/' :: (name ++ ['>', '\n'])

/-- `xml_pack_name`, `xml_pack_attr`, `xml_pack_value` and the end tags of `xml_pack_next` -/
def xmlPackForm : Form (List Char) where
  name _ name := '<' :: name
  attr name value := ' ' :: (name ++ '=' :: '"' :: (value ++ ['"']))
  value
    | some value, true, _, _ => '>' :: value
    | some value, false, _, name => '>' :: (value ++ '<' :: '/' :: (name ++ ['>']))
    | none, _, true, _ => ['>']
    | none, _, false, _ => ['/', '>']
  close _ name := '<' :: '/' :: (name ++ ['>'])
  closeUp _ name := '<' :: '/' :: (name ++ ['>'])

/-- `xml_node_name_len`, `xml_node_attr_len`, `xml_node_value_len` and `xml_node_next_len`, whose
first end tag is measured before the node is popped -/
def xmlNodeLenForm : Form Nat where
  name depth name := (depth - 1) + (name.length + 1)
  attr name value := name.length + value.length + 4
  value
    | some value, true, _, _ => value.length + 2
    | some value, false, _, name => value.length + name.length + 5
    | none, _, true, _ => 2
    | none, _, false, _ => 3
  close depth name := (depth - 1) + (name.length + 4)
  closeUp depth name := depth + (name.length + 4)

/-- `xml_pack_name_len`, `xml_pack_attr_len`, `xml_pack_value_len` and `xml_pack_next_len` -/
def xmlPackLenForm : Form Nat where
  name _ name := 1 + name.length
  attr name value := name.length + value.length + 4
  value
    | some value, true, _, _ => value.length + 1
    | some value, false, _, name => value.length + name.length + 4
    | none, _, true, _ => 1
    | none, _, false, _ => 2
  close _ name := name.length + 3
  closeUp _ name := name.length + 3

/-- The value that is printed; without the flag there is none. -/
def Node.text (node : Node) : Option (List Char) := if node.hasValue then some (node.value.getD []) else none

namespace XmlTree

variable {α : Type} (F : Form α)

/-- The loop over the attributes. -/
def printAttrs (node : Nat) : Nat → XmlTree → XmlTree × List α
  | 0, T => (T, [])
  | fuel + 1, T =>
    match (T.mem node).temp with
    | none => (T, [])
    | some attr =>
      if T.isAttr attr then
        let r := printAttrs node fuel (T.set node { T.mem node with temp := (T.mem attr).next })
        (r.1, F.attr (T.mem attr).name ((T.mem attr).value.getD []) :: r.2)
      else (T, [])

/-- A node that has been pushed as the `depth`-th: its name, its attributes and its value. -/
def printNode (T : XmlTree) (depth node : Nat) : XmlTree × List α :=
  let T := T.set node { T.mem node with temp := (T.mem node).child }
  let r := if (T.mem node).hasAttr then T.printAttrs F node T.num else (T, [])
  let curr := r.1.mem node
  (r.1, F.name depth curr.name :: (r.2 ++
    [F.value curr.text curr.hasChild curr.temp.isSome curr.name]))

/-- The loop `while (NULL == node)`: nodes that are done are popped, until one has a sibling. -/
def printUp (T : XmlTree) : List Nat → List Nat × List α × Option Nat
  | [] => ([], [], none)
  | top :: stack =>
    let out := if (T.mem top).hasChild then [F.closeUp stack.length (T.mem top).name] else []
    if stack = [] then ([], out, none)
    else
      match (T.mem top).next with
      | some node => (stack, out, some node)
      | none =>
        let r := T.printUp stack
        (r.1, out ++ r.2.1, r.2.2)

/-- `xml_sprint_next`, `xml_pack_next`, `xml_node_next_len` and `xml_pack_next_len`; the
stack begins with the node. -/
def printNext (T : XmlTree) (stack : List Nat) (node : Nat) : XmlTree × List Nat × List α × Option Nat :=
  match (T.mem node).temp with
  | some child => (T.set node { T.mem node with temp := (T.mem child).next }, stack, [], some child)
  | none =>
    match stack with
    | [] => (T, [], [], none)
    | top :: stack =>
      let out := if (T.mem top).hasChild then [F.close stack.length (T.mem top).name] else []
      if stack = [] then (T, [], out, none)
      else
        match (T.mem top).next with
        | some node => (T, stack, out, some node)
        | none =>
          let r := T.printUp F stack
          (T, r.1, out ++ r.2.1, r.2.2)

/-- The loop of the four functions; it fails at a stack that is full. A turn pushes a node that it
has not pushed before. -/
def printLoop : Nat → XmlTree → List Nat → Nat → Option (XmlTree × List α)
  | 0, _, _, _ => none
  | fuel + 1, T, stack, node =>
    if stack.length ≥ XML_MAX_DEPTH then none
    else
      let r := T.printNode F (stack.length + 1) node
      match r.1.printNext F (node :: stack) node with
      | (T, _, out, none) => some (T, r.2 ++ out)
      | (T, stack, out, some node) => (printLoop fuel T stack node).map fun p => (p.1, r.2 ++ (out ++ p.2))

def printTree (T : XmlTree) (node : Nat) : Option (XmlTree × List α) := T.printLoop F T.num [] node

/-- One tree after the other, from a child of the root on. -/
def printTrees : Nat → XmlTree → Option Nat → Option (XmlTree × List α)
  | _, T, none => some (T, [])
  | 0, _, some _ => none
  | fuel + 1, T, some child =>
    (T.printTree F child).bind fun r =>
      (printTrees fuel r.1 (r.1.mem child).next).map fun p => (p.1, r.2 ++ p.2)

/-- `xml_sprint_tree` -/
def xmlSprintTree (T : XmlTree) (node : Nat) : Option (XmlTree × List (List Char)) := T.printTree xmlSprintForm node

/-- `xml_pack_tree` -/
def xmlPackTree (T : XmlTree) (node : Nat) : Option (XmlTree × List (List Char)) := T.printTree xmlPackForm node

/-- What an `int` keeps of a number. -/
def int (n : Int) : Int := n.bmod (2 ^ 32)

/-- `_xml_node_len` -/
def xmlNodeLenTree (T : XmlTree) (node : Nat) : Option (XmlTree × Int) :=
  (T.printTree xmlNodeLenForm node).map fun r => (r.1, int r.2.sum)

/-- `xml_pack_node_len` -/
def xmlPackNodeLen (T : XmlTree) (node : Nat) : Option (XmlTree × Int) :=
  (T.printTree xmlPackLenForm node).map fun r => (r.1, int r.2.sum)

/-- `xml_sprint`; what it writes -/
def xmlSprint (T : XmlTree) : Option (XmlTree × List Char) :=
  (T.printTrees xmlSprintForm T.num (T.mem T.root).child).map fun r => (r.1, r.2.flatten)

/-- `xml_spack`; what it writes -/
def xmlSpack (T : XmlTree) : Option (XmlTree × List Char) :=
  (T.printTrees xmlPackForm T.num (T.mem T.root).child).map fun r => (r.1, r.2.flatten)

/-- `xml_node_len` -/
def xmlNodeLen (T : XmlTree) : Option Nat → Option (XmlTree × Int)
  | none => some (T, 0)
  | some node => (T.xmlNodeLenTree node).filter fun r => 0 ≤ r.2

/-- `XML_TREE_LEN` -/
def xmlTreeLen (T : XmlTree) : Option (XmlTree × Int) := T.xmlNodeLen (T.mem T.root).child

/-- The loop of `_xml_pack_len` over the trees below the root. -/
def packLens : Nat → XmlTree → Int → Option Nat → Option (XmlTree × Int)
  | _, T, len, none => some (T, len)
  | 0, _, _, some _ => none
  | fuel + 1, T, len, some child =>
    ((T.xmlPackNodeLen child).filter fun r => 0 ≤ r.2).bind fun r =>
      packLens fuel r.1 (int (len + r.2)) (r.1.mem child).next

/-- `_xml_pack_len` -/
def xmlPackLen (T : XmlTree) (node : Nat) : Option (XmlTree × Int) :=
  match (T.mem node).type with
  | .child => (T.xmlPackNodeLen node).filter fun r => 0 ≤ r.2
  | .root => T.packLens T.num 0 (T.mem node).child
  | .attr | .unknown => some (T, 0)

end XmlTree

/-! ## What is printed -/

/-- Elements as a reader sees them: the first one with its attributes, its value and what is
in it, and the others. -/
inductive Doc where
  | nil
  | node (name : List Char) (attrs : List (List Char × List Char)) (value : Option (List Char)) (kids rest : Doc)
  deriving DecidableEq

/-- The names, attributes and values of a tree -/
def Forest.doc (mem : Nat → Node) : Forest → Doc
  | .nil => .nil
  | .cons n a kids rest => .node (mem n).name (a.map fun i => ((mem i).name, (mem i).value.getD [])) (mem n).text
      (kids.doc mem) (rest.doc mem)

namespace Doc

def isNil : Doc → Bool
  | nil => true
  | node .. => false

/-- The first element without the others -/
def first : Doc → Doc
  | nil => nil
  | node name attrs value kids _ => node name attrs value kids nil

/-- What is made of it below so many nodes. -/
def print {α : Type} (F : Form α) : Nat → Doc → List α
  | _, nil => []
  | depth, node name attrs value kids rest =>
    F.name (depth + 1) name :: (attrs.map (fun a => F.attr a.1 a.2) ++ F.value value (!kids.isNil) (!kids.isNil) name ::
      (kids.print F (depth + 1) ++ ((if kids.isNil then [] else [F.closeUp depth name]) ++ rest.print F depth)))

variable {α : Type} {F : Form α}

theorem print_node (depth : Nat) (name : List Char) (attrs : List (List Char × List Char)) (value : Option (List Char))
    (kids rest : Doc) : (node name attrs value kids rest).print F depth =
      (node name attrs value kids nil).print F depth ++ rest.print F depth := by
  simp [print]

end Doc

namespace XmlTree

open Forest

variable {α : Type} {F : Form α} {T T' T₁ T₂ : XmlTree} {n : Nat} {a ks s : List Nat} {f k rest : Forest}

/-- Only the pointers in which the printers keep their place have changed. -/
structure Scratch (T T' : XmlTree) : Prop where
  mem : ∀ x, T'.mem x = { T.mem x with temp := (T'.mem x).temp }
  root : T'.root = T.root
  num : T'.num = T.num
  freed : T'.freed = T.freed

namespace Scratch

theorem refl (T : XmlTree) : Scratch T T := ⟨fun _ => rfl, rfl, rfl, rfl⟩

theorem trans (h : Scratch T T₁) (h' : Scratch T₁ T₂) : Scratch T T₂ where
  mem x := by rw [h'.mem, h.mem]
  root := h'.root.trans h.root
  num := h'.num.trans h.num
  freed := h'.freed.trans h.freed

theorem setTemp (T : XmlTree) (n : Nat) (temp : Option Nat) : Scratch T (T.set n { T.mem n with temp := temp }) where
  mem x := by
    by_cases hx : x = n
    · subst hx
      simp
    · simp [hx]
  root := rfl
  num := rfl
  freed := rfl

theorem owns (h : Scratch T T') (ho : Owns T.mem n a ks) : Owns T'.mem n a ks := by
  refine ho.congr ?_ ?_ ?_ fun x _ => ?_
  all_goals rw [h.mem]
  exact ⟨rfl, rfl, rfl⟩

theorem draws (h : Scratch T T') : ∀ {f : Forest}, Draws T.mem f → Draws T'.mem f
  | .nil, _ => trivial
  | .cons _ _ _ _, hd => ⟨h.owns hd.1, h.draws hd.2.1, h.draws hd.2.2⟩

theorem chain (h : Scratch T T') {c : Option Nat} (hc : Chain T.mem c ks) : Chain T'.mem c ks :=
  hc.congr fun x _ => by rw [h.mem]

theorem attrs (h : Scratch T T') (a : List Nat) : a.map (fun i => F.attr (T'.mem i).name ((T'.mem i).value.getD [])) =
    a.map fun i => F.attr (T.mem i).name ((T.mem i).value.getD []) :=
  List.map_congr_left fun i _ => by rw [h.mem i]

theorem doc (h : Scratch T T') : ∀ f : Forest, f.doc T'.mem = f.doc T.mem
  | .nil => rfl
  | .cons n a k rest => by
    rw [Forest.doc, Forest.doc, h.doc k, h.doc rest, h.mem n]
    congr 1
    exact List.map_congr_left fun i _ => by rw [h.mem i]

end Scratch

/-- The attributes in front of the children are printed. -/
theorem printAttrs_spec (fuel : Nat) (h : Chain T.mem (T.mem n).temp (a ++ ks)) (ha : ∀ x ∈ a, (T.mem x).type = .attr)
    (hks : ∀ x ∈ ks, (T.mem x).type ≠ .attr) (hn : n ∉ a ++ ks) (hf : a.length ≤ fuel) :
    ∃ T₁, T.printAttrs F n fuel = (T₁, a.map fun i => F.attr (T.mem i).name ((T.mem i).value.getD [])) ∧
      Scratch T T₁ ∧ (T₁.mem n).temp = ks.head? := by
  induction a generalizing T fuel with
  | nil =>
    have htemp : (T.mem n).temp = ks.head? := h.head.symm
    refine ⟨T, ?_, .refl T, htemp⟩
    cases fuel with
    | zero => rfl
    | succ fuel =>
      rw [printAttrs, htemp]
      cases ks with
      | nil => rfl
      | cons m ks =>
        have hm : T.isAttr m = false := by simpa [isAttr] using hks m (.head _)
        simp only [List.head?_cons, hm, Bool.false_eq_true, if_false]
        rfl
  | cons i a ih =>
    cases fuel with
    | zero => cases hf
    | succ fuel =>
      have hi : T.isAttr i = true := by simpa [isAttr] using ha i (.head _)
      have hset := Scratch.setTemp T n (T.mem i).next
      have htemp : ((T.set n { T.mem n with temp := (T.mem i).next }).mem n).temp = (T.mem i).next := by simp
      rw [printAttrs, h.1]
      simp only [hi, if_true]
      generalize T.set n { T.mem n with temp := (T.mem i).next } = P at hset htemp
      obtain ⟨T₁, hprint, hT₁, htemp₁⟩ := @ih P fuel
        (by
          rw [htemp]
          exact hset.chain h.2)
        (fun x hx => by
          rw [hset.mem]
          exact ha x (.tail _ hx))
        (fun x hx => by
          rw [hset.mem]
          exact hks x hx)
        (fun hx => hn (.tail _ hx)) (Nat.le_of_succ_le_succ hf)
      refine ⟨T₁, ?_, hset.trans hT₁, htemp₁⟩
      rw [hprint, hset.attrs, List.map_cons]

/-- What a node has behind its name, before what is in it. -/
def heading (F : Form α) (T : XmlTree) (n : Nat) (a : List Nat) (hasChild : Bool) : List α :=
  a.map (fun i => F.attr (T.mem i).name ((T.mem i).value.getD [])) ++
    [F.value (T.mem n).text hasChild hasChild (T.mem n).name]

/-- A node is pushed and printed, up to what is in it. -/
theorem printNode_spec (ho : Owns T.mem n a k.roots) (hn : n ∉ a ++ k.roots) (ha : a.length ≤ T.num) (depth : Nat) :
    ∃ T₁, T.printNode F depth n = (T₁, F.name depth (T.mem n).name :: T.heading F n a (k.roots.head?).isSome) ∧
      Scratch T T₁ ∧ (T₁.mem n).temp = k.roots.head? := by
  have hset := Scratch.setTemp T n (T.mem n).child
  have hpush : ((T.set n { T.mem n with temp := (T.mem n).child }).mem n).temp = (T.mem n).child := by simp
  have hflag : (T.mem n).hasChild = (k.roots.head?).isSome := by
    rw [Bool.eq_iff_iff, ho.hasChild]
    cases k.roots <;> simp
  unfold printNode
  generalize hP : T.set n { T.mem n with temp := (T.mem n).child } = P at hset hpush
  have hhas : (P.mem n).hasAttr = (T.mem n).hasAttr := by rw [hset.mem]
  obtain ⟨T₁, hprint, hT₁, htemp⟩ : ∃ T₁, (if (P.mem n).hasAttr then P.printAttrs F n P.num else (P, [])) =
      (T₁, a.map fun i => F.attr (T.mem i).name ((T.mem i).value.getD [])) ∧ Scratch T T₁ ∧
      (T₁.mem n).temp = k.roots.head? := by
    by_cases hf : (T.mem n).hasAttr = true
    · rw [hhas, if_pos hf]
      obtain ⟨T₁, hprint, hT₁, htemp⟩ := printAttrs_spec (T := P) (n := n) (F := F) P.num
        (by
          rw [hpush]
          exact hset.chain ho.chain)
        (fun x hx => by
          rw [hset.mem]
          exact ho.attr x hx)
        (fun x hx => by
          rw [hset.mem]
          simp [(ho.kid x hx).1]) hn (hset.num ▸ ha)
      refine ⟨T₁, ?_, hset.trans hT₁, htemp⟩
      rw [hprint, hset.attrs]
    · rw [hhas, if_neg hf]
      obtain rfl : a = [] := by
        by_contra hne
        exact hf (ho.hasAttr.2 hne)
      exact ⟨P, rfl, hset, hpush.trans ho.chain.head.symm⟩
  refine ⟨T₁, ?_, hT₁, htemp⟩
  dsimp only
  rw [hprint]
  dsimp only
  rw [htemp, hT₁.mem n]
  simp only [heading, Node.text, hflag]

/-- Something is printed first. -/
def ahead (out : List α) (r : Option (XmlTree × List α)) : Option (XmlTree × List α) := r.map fun p => (p.1, out ++ p.2)

theorem ahead_ahead (out out' : List α) (r : Option (XmlTree × List α)) :
    ahead out (ahead out' r) = ahead (out ++ out') r := by
  cases r <;> simp [ahead]

/-- Where the top of the stack is done, a printer goes on behind it. -/
def printDone (F : Form α) (fuel : Nat) (T : XmlTree) (s : List Nat) : Option (XmlTree × List α) :=
  match T.printUp F s with
  | (_, out, none) => some (T, out)
  | (stack, out, some node) => ahead out (T.printLoop F fuel stack node)

/-- A printer at the first of siblings -/
def printAt (F : Form α) (fuel : Nat) (T : XmlTree) (s : List Nat) : Forest → Option (XmlTree × List α)
  | .nil => printDone F fuel T s
  | .cons n _ _ _ => T.printLoop F fuel s n

/-- A turn of a printer: a node is printed, and its first child is next. -/
theorem printLoop_node (ho : Owns T.mem n a k.roots) (hn : n ∉ a ++ k.roots) (hs : s.length < XML_MAX_DEPTH)
    (ha : a.length ≤ T.num) : ∃ T₁, Scratch T T₁ ∧ ∀ fuel, T.printLoop F (fuel + 1) s n =
      ahead (F.name (s.length + 1) (T.mem n).name :: T.heading F n a (k.roots.head?).isSome)
        (printAt F fuel T₁ (n :: s) k) := by
  obtain ⟨T₁, hprint, hT₁, htemp⟩ := printNode_spec (F := F) ho hn ha (s.length + 1)
  generalize hout : F.name (s.length + 1) (T.mem n).name :: T.heading F n a (k.roots.head?).isSome = out at hprint
  have hloop : ∀ fuel, T.printLoop F (fuel + 1) s n =
      match T₁.printNext F (n :: s) n with
      | (T, _, out', none) => some (T, out ++ out')
      | (T, stack, out', some node) => (T.printLoop F fuel stack node).map fun p => (p.1, out ++ (out' ++ p.2)) :=
    fun fuel => by
      rw [printLoop, if_neg (Nat.not_le.2 hs), hprint]
  cases k with
  | nil =>
    refine ⟨T₁, hT₁, fun fuel => ?_⟩
    have hflag : (T₁.mem n).hasChild = false := by
      rw [hT₁.mem]
      simpa [roots] using ho.hasChild
    rw [hloop, printNext, htemp, printAt, printDone, printUp]
    simp only [roots, List.head?_nil, hflag, Bool.false_eq_true, if_false]
    by_cases hnil : s = []
    · simp [hnil, ahead]
    · simp only [if_neg hnil]
      cases (T₁.mem n).next with
      | some m => simp [ahead]
      | none =>
        obtain ⟨stack, out', next⟩ := T₁.printUp F s
        cases next <;> simp [ahead, Function.comp_def]
  | cons m a' k' rest' =>
    refine ⟨_, hT₁.trans (.setTemp T₁ n (T₁.mem m).next), fun fuel => ?_⟩
    rw [hloop, printNext, htemp]
    simp [roots, printAt, ahead]

/-- The top of the stack is done: its end tag is printed if it has children, and its sibling is
next. -/
theorem printDone_cons (fuel : Nat) (hs : s ≠ []) (hnext : (T.mem n).next = rest.roots.head?) :
    printDone F fuel T (n :: s) =
      ahead (if (T.mem n).hasChild then [F.closeUp s.length (T.mem n).name] else []) (printAt F fuel T s rest) := by
  rw [printDone, printUp, if_neg hs, hnext]
  cases rest with
  | cons m a k rest => rfl
  | nil =>
    simp only [roots, List.head?_nil, printAt, printDone]
    obtain ⟨stack, out', next⟩ := T.printUp F s
    cases next <;> simp [ahead, Function.comp_def]

theorem printDone_last (fuel : Nat) (T : XmlTree) (n : Nat) :
    printDone F fuel T [n] = some (T, if (T.mem n).hasChild then [F.closeUp 0 (T.mem n).name] else []) := by
  rw [printDone, printUp, if_pos rfl]
  rfl

theorem isNil_doc (mem : Nat → Node) (f : Forest) : (f.doc mem).isNil = f.roots.head?.isNone := by cases f <;> rfl

theorem print_doc_cons (ho : Owns T.mem n a k.roots) (depth : Nat) : ((cons n a k rest).doc T.mem).print F depth =
    F.name (depth + 1) (T.mem n).name :: T.heading F n a (k.roots.head?).isSome ++
      (k.doc T.mem).print F (depth + 1) ++ (if (T.mem n).hasChild then [F.closeUp depth (T.mem n).name] else []) ++
      (rest.doc T.mem).print F depth := by
  have hflag : (!(k.doc T.mem).isNil) = (T.mem n).hasChild := by
    rw [Bool.eq_iff_iff, ho.hasChild, isNil_doc]
    cases k.roots <;> simp
  have hsome : (k.roots.head?).isSome = (T.mem n).hasChild := by
    rw [← hflag, isNil_doc]
    cases k.roots <;> rfl
  have hnil : (if (k.doc T.mem).isNil then [] else [F.closeUp depth (T.mem n).name]) =
      if (T.mem n).hasChild then [F.closeUp depth (T.mem n).name] else [] := by
    rw [← hflag]
    cases (k.doc T.mem).isNil <;> rfl
  simp only [Forest.doc, Doc.print, heading, List.map_map, hflag, hsome, hnil, List.cons_append, List.append_assoc,
    List.nil_append, Function.comp_def]

/-- The printers print siblings with all below them, unless the stack gets full. -/
theorem print_walk {f : Forest} (fuel : Nat) (h : Draws T.mem f) (hnd : f.addrs.Nodup)
    (hsib : Chain T.mem f.roots.head? f.roots) (hlen : f.addrs.length ≤ T.num) (hs : s ≠ [])
    (hroom : s.length ≤ XML_MAX_DEPTH) :
    (s.length + f.height ≤ XML_MAX_DEPTH → ∃ T₁, Scratch T T₁ ∧
      printAt F (f.nodes.length + fuel) T s f = ahead ((f.doc T.mem).print F s.length) (printDone F fuel T₁ s)) ∧
    (XML_MAX_DEPTH < s.length + f.height → printAt F (f.nodes.length + fuel) T s f = none) := by
  induction f generalizing T s fuel with
  | nil =>
    rw [nodes, List.length_nil, Nat.zero_add, height]
    refine ⟨fun _ => ⟨T, .refl T, ?_⟩, fun hd => by omega⟩
    cases hr : printDone F fuel T s <;> simp [printAt, hr, ahead, Forest.doc, Doc.print]
  | cons n a k rest ihk ih =>
    have hfuel : (cons n a k rest).nodes.length + fuel = k.nodes.length + (rest.nodes.length + fuel) + 1 := by
      simp only [nodes, List.length_cons, List.length_append]
      omega
    rw [hfuel, printAt, height]
    by_cases hfull : s.length < XML_MAX_DEPTH
    · simp only [addrs, List.nodup_cons, List.nodup_append, List.mem_append] at hnd
      simp only [addrs, List.length_cons, List.length_append] at hlen
      obtain ⟨howns, hk, hrest⟩ := h
      obtain ⟨T₁, hT₁, hloop⟩ := printLoop_node (F := F) howns (by
        rw [List.mem_append]
        rintro (hn | hn)
        · exact hnd.1 (.inl (.inl hn))
        · exact hnd.1 (.inl (.inr (roots_subset k n hn)))) hfull (by omega)
      rw [hloop]
      obtain ⟨hgood, hbad⟩ := @ihk T₁ (n :: s) (rest.nodes.length + fuel) (hT₁.draws hk) hnd.2.1.2.1
        (hT₁.chain howns.chain.behind) (by rw [hT₁.num]; omega) (List.cons_ne_nil _ _) hfull
      rw [List.length_cons] at hgood hbad
      by_cases hdeep : s.length + 1 + k.height ≤ XML_MAX_DEPTH
      · obtain ⟨T₂, hT₂, hloop₂⟩ := hgood hdeep
        have hT := hT₁.trans hT₂
        have hnext : (T₂.mem n).next = rest.roots.head? := by
          rw [hT.mem]
          exact hsib.2.head.symm
        have hrsib : Chain T.mem rest.roots.head? rest.roots := hsib.2.head ▸ hsib.2
        rw [hloop₂, printDone_cons _ hs hnext]
        obtain ⟨hgood', hbad'⟩ := @ih T₂ s fuel (hT.draws hrest) hnd.2.2.1 (hT.chain hrsib) (by rw [hT.num]; omega) hs
          hroom
        refine ⟨fun hd => ?_, fun hd => ?_⟩
        · obtain ⟨T₃, hT₃, hloop₃⟩ := hgood' (by omega)
          refine ⟨T₃, hT.trans hT₃, ?_⟩
          rw [hloop₃, ahead_ahead, ahead_ahead, ahead_ahead, hT₁.doc, hT.doc, hT.mem n, print_doc_cons howns]
        · rw [hbad' (by omega)]
          rfl
      · refine ⟨fun hd => absurd hd (by omega), fun _ => ?_⟩
        rw [hbad (by omega)]
        rfl
    · refine ⟨fun hd => absurd hd (by omega), fun _ => ?_⟩
      rw [printLoop, if_pos (Nat.not_lt.1 hfull)]

/-! ## A tree -/

/-- One of the trees below the root -/
theorem printTree_spec (h : Draws T.mem (.cons n a k rest)) (hnd : (cons n a k rest).addrs.Nodup)
    (hlen : (cons n a k rest).addrs.length ≤ T.num) :
    (k.height < XML_MAX_DEPTH → ∃ T₁, Scratch T T₁ ∧
      T.printTree F n = some (T₁, ((cons n a k nil).doc T.mem).print F 0)) ∧
    (XML_MAX_DEPTH ≤ k.height → T.printTree F n = none) := by
  simp only [addrs, List.nodup_cons, List.nodup_append, List.mem_append] at hnd
  simp only [addrs, List.length_cons, List.length_append] at hlen
  obtain ⟨howns, hk, -⟩ := h
  have hnodes := nodes_length k
  obtain ⟨T₁, hT₁, hloop⟩ := printLoop_node (F := F) (s := []) howns (by
    rw [List.mem_append]
    rintro (hn | hn)
    · exact hnd.1 (.inl (.inl hn))
    · exact hnd.1 (.inl (.inr (roots_subset k n hn)))) (by decide) (by omega)
  obtain ⟨fuel, hfuel⟩ : ∃ fuel, T.num = k.nodes.length + fuel + 1 := ⟨T.num - k.nodes.length - 1, by omega⟩
  have hprint : T.printTree F n = ahead (F.name 1 (T.mem n).name :: T.heading F n a (k.roots.head?).isSome)
      (printAt F (k.nodes.length + fuel) T₁ [n] k) := by
    rw [printTree, hfuel, hloop]
    rfl
  obtain ⟨hgood, hbad⟩ := @print_walk α F T₁ [n] k fuel (hT₁.draws hk) hnd.2.1.2.1 (hT₁.chain howns.chain.behind)
    (by rw [hT₁.num]; omega) (List.cons_ne_nil _ _) (by simp [XML_MAX_DEPTH])
  rw [List.length_singleton] at hgood hbad
  rw [hprint]
  refine ⟨fun hd => ?_, fun hd => ?_⟩
  · obtain ⟨T₂, hT₂, hloop₂⟩ := hgood (by omega)
    have hT := hT₁.trans hT₂
    refine ⟨T₂, hT, ?_⟩
    rw [hloop₂, printDone_last, print_doc_cons howns, hT₁.doc, hT.mem n]
    simp [ahead, Forest.doc, Doc.print]
  · rw [hbad (by omega)]
    rfl

/-- The trees below the root, from one on -/
theorem printTrees_spec {f : Forest} {fuel : Nat} (h : Draws T.mem f) (hnd : f.addrs.Nodup)
    (hsib : Chain T.mem f.roots.head? f.roots) (hlen : f.addrs.length ≤ T.num) (hfuel : f.roots.length ≤ fuel) :
    (f.height ≤ XML_MAX_DEPTH → ∃ T₁, Scratch T T₁ ∧
      T.printTrees F fuel f.roots.head? = some (T₁, (f.doc T.mem).print F 0)) ∧
    (XML_MAX_DEPTH < f.height → T.printTrees F fuel f.roots.head? = none) := by
  induction f generalizing T fuel with
  | nil =>
    refine ⟨fun _ => ⟨T, .refl T, ?_⟩, fun hd => by simp [height] at hd⟩
    cases fuel <;> rfl
  | cons n a k rest _ ih =>
    obtain ⟨fuel, rfl⟩ : ∃ m, fuel = m + 1 := by
      cases fuel with
      | zero => cases hfuel
      | succ fuel => exact ⟨fuel, rfl⟩
    obtain ⟨hgood, hbad⟩ := printTree_spec (F := F) h hnd hlen
    simp only [addrs, List.nodup_cons, List.nodup_append] at hnd
    simp only [addrs, List.length_cons, List.length_append] at hlen
    simp only [roots, List.head?_cons, height, printTrees]
    by_cases hdeep : k.height < XML_MAX_DEPTH
    · obtain ⟨T₁, hT₁, hprint⟩ := hgood hdeep
      have hnext : (T₁.mem n).next = rest.roots.head? := by
        rw [hT₁.mem]
        exact hsib.2.head.symm
      have hrsib : Chain T.mem rest.roots.head? rest.roots := hsib.2.head ▸ hsib.2
      obtain ⟨hgood', hbad'⟩ := @ih T₁ fuel (hT₁.draws h.2.2) hnd.2.2.1 (hT₁.chain hrsib) (by rw [hT₁.num]; omega)
        (Nat.le_of_succ_le_succ hfuel)
      simp only [hprint, Option.bind_some, hnext]
      refine ⟨fun hd => ?_, fun hd => ?_⟩
      · obtain ⟨T₂, hT₂, hprint₂⟩ := hgood' (by omega)
        refine ⟨T₂, hT₁.trans hT₂, ?_⟩
        rw [hprint₂, hT₁.doc]
        exact congrArg (fun out => some (T₂, out)) (Doc.print_node ..).symm
      · rw [hbad' (by omega)]
        rfl
    · rw [hbad (by omega)]
      exact ⟨fun hd => absurd hd (by omega), fun _ => rfl⟩

theorem Holds.length_le (h : Holds T f) : f.addrs.length ≤ T.num := by
  have hsub : f.addrs.Subperm (List.range T.num) :=
    (List.nodup_cons.1 h.nodup).2.subperm fun x hx => List.mem_range.2 (h.lt x (List.mem_cons_of_mem _ hx))
  have hlen := hsub.length_le
  rwa [List.length_range] at hlen

/-- What a printer makes of the trees below the root. -/
theorem Holds.printTrees (h : Holds T f) (F : Form α) :
    (f.height ≤ XML_MAX_DEPTH → ∃ T₁, Scratch T T₁ ∧
      T.printTrees F T.num (T.mem T.root).child = some (T₁, (f.doc T.mem).print F 0)) ∧
    (XML_MAX_DEPTH < f.height → T.printTrees F T.num (T.mem T.root).child = none) := by
  have hchain : Chain T.mem (T.mem T.root).child f.roots := h.owns.chain
  rw [← hchain.head]
  exact printTrees_spec h.draws (List.nodup_cons.1 h.nodup).2 (hchain.head ▸ hchain) h.length_le
    (Nat.le_trans (roots_sublist f).length_le h.length_le)

end XmlTree

/-! ## Lengths -/

/-- What is counted of a node is what is written of it, but for the end tag of a node that has a
flag for children and no child. -/
structure Form.Counts (L : Form Nat) (F : Form (List Char)) : Prop where
  name : ∀ depth name, L.name depth name = (F.name depth name).length
  attr : ∀ name value, L.attr name value = (F.attr name value).length
  value : ∀ value hasChild more name, L.value value hasChild more name = (F.value value hasChild more name).length
  closeUp : ∀ depth name, L.closeUp depth name = (F.closeUp depth name).length

theorem xmlNodeLenForm_counts : xmlNodeLenForm.Counts xmlSprintForm where
  name depth name := by simp [xmlNodeLenForm, xmlSprintForm, tabs]
  attr name value := by
    simp only [xmlNodeLenForm, xmlSprintForm, List.length_cons, List.length_append, List.length_nil]
    omega
  value value hasChild more name := by
    rcases value with - | value <;> cases hasChild <;> cases more <;>
      simp only [xmlNodeLenForm, xmlSprintForm, List.length_cons, List.length_append, List.length_nil] <;> omega
  closeUp depth name := by simp [xmlNodeLenForm, xmlSprintForm, tabs]

theorem xmlPackLenForm_counts : xmlPackLenForm.Counts xmlPackForm where
  name depth name := by simp [xmlPackLenForm, xmlPackForm, Nat.add_comm]
  attr name value := by
    simp only [xmlPackLenForm, xmlPackForm, List.length_cons, List.length_append, List.length_nil]
    omega
  value value hasChild more name := by
    rcases value with - | value <;> cases hasChild <;> cases more <;>
      simp only [xmlPackLenForm, xmlPackForm, List.length_cons, List.length_append, List.length_nil] <;> omega
  closeUp depth name := by simp [xmlPackLenForm, xmlPackForm]

theorem Form.Counts.print {L : Form Nat} {F : Form (List Char)} (h : L.Counts F) : ∀ (d : Doc) (depth : Nat),
    d.print L depth = (d.print F depth).map List.length
  | .nil, _ => rfl
  | .node name attrs value kids rest, depth => by
    have hattrs : attrs.map (fun a => L.attr a.1 a.2) = (attrs.map fun a => F.attr a.1 a.2).map List.length := by
      rw [List.map_map]
      exact List.map_congr_left fun a _ => h.attr a.1 a.2
    simp only [Doc.print, h.print kids, h.print rest, h.name, h.value, hattrs, List.map_cons, List.map_append]
    cases kids.isNil <;> simp [h.closeUp]

/-- The text of a document -/
def Doc.text (F : Form (List Char)) (d : Doc) : List Char := (d.print F 0).flatten

theorem Doc.text_node {F : Form (List Char)} (name : List Char) (attrs : List (List Char × List Char))
    (value : Option (List Char)) (kids rest : Doc) :
    (node name attrs value kids rest).text F = (node name attrs value kids nil).text F ++ rest.text F := by
  rw [text, print_node, List.flatten_append]
  rfl

theorem Form.Counts.sum {L : Form Nat} {F : Form (List Char)} (h : L.Counts F) (d : Doc) :
    (d.print L 0).sum = (d.text F).length := by rw [h.print, Doc.text, List.length_flatten]

namespace XmlTree

variable {T : XmlTree} {f : Forest}

theorem int_eq {n : Nat} (h : n < 2 ^ 31) : int n = n := Int.bmod_eq_of_le (by omega) (by omega)

theorem filter_len {n : Nat} (h : n < 2 ^ 31) :
    (some (T, int n)).filter (fun r : XmlTree × Int => 0 ≤ r.2) = some (T, (n : Int)) := by
  rw [int_eq h, Option.filter_some, if_pos (decide_eq_true (Int.natCast_nonneg n))]

/-- The sum of the lengths, if an `int` holds it. -/
theorem packLens_eq (len : Nat) {out : List Nat} {T₁ : XmlTree} : ∀ {fuel : Nat} {T : XmlTree} {c : Option Nat},
    T.printTrees xmlPackLenForm fuel c = some (T₁, out) → len + out.sum < 2 ^ 31 →
      T.packLens fuel len c = some (T₁, ((len + out.sum : Nat) : Int))
  | fuel, T, none, h, _ => by
    cases fuel <;> (cases h; rfl)
  | fuel + 1, T, some child, h, hlt => by
    obtain ⟨r, hr, h⟩ := Option.bind_eq_some_iff.1 h
    obtain ⟨p, hp, h⟩ := Option.map_eq_some_iff.1 h
    cases h
    rw [List.sum_append] at hlt ⊢
    -- no sum on the way is above the last one, so none of them wraps
    have hadd : int (len + (r.2.sum : Nat)) = ((len + r.2.sum : Nat) : Int) := int_eq (by omega)
    rw [packLens, xmlPackNodeLen, hr, Option.map_some, filter_len (by omega), Option.bind_some, hadd,
      packLens_eq _ hp (by omega), Nat.add_assoc]

theorem packLens_none : ∀ {fuel : Nat} {T : XmlTree} {len : Int} {c : Option Nat},
    T.printTrees xmlPackLenForm fuel c = none → T.packLens fuel len c = none
  | fuel, _, _, none, h => by
    cases fuel <;> cases h
  | 0, _, _, some _, _ => rfl
  | fuel + 1, T, len, some child, h => by
    rw [packLens, xmlPackNodeLen]
    cases hr : T.printTree xmlPackLenForm child with
    | none => rfl
    | some r =>
      have hrest : r.1.printTrees xmlPackLenForm fuel (r.1.mem child).next = none := by
        simpa [printTrees, hr] using h
      rw [Option.map_some, Option.filter_some]
      split
      · exact packLens_none hrest
      · rfl

/-- The first tree is not longer than all of them. -/
theorem first_text_le (d : Doc) (F : Form (List Char)) : (d.first.text F).length ≤ (d.text F).length := by
  cases d with
  | nil => exact Nat.le_refl _
  | node name attrs value kids rest =>
    rw [Doc.first, Doc.text_node name attrs value kids rest, List.length_append]
    exact Nat.le_add_right _ _

theorem xmlTreeLen_spec (h : Holds T f) (hd : f.height ≤ XML_MAX_DEPTH)
    (hlen : ((f.doc T.mem).text xmlSprintForm).length < 2 ^ 31) : ∃ T₁, Scratch T T₁ ∧
    T.xmlTreeLen = some (T₁, (((f.doc T.mem).first.text xmlSprintForm).length : Int)) := by
  have hfirst := first_text_le (f.doc T.mem) xmlSprintForm
  have hchain : Chain T.mem (T.mem T.root).child f.roots := h.owns.chain
  rw [xmlTreeLen, ← hchain.head]
  cases f with
  | nil => exact ⟨T, .refl T, rfl⟩
  | cons n a k rest =>
    rw [Forest.height] at hd
    obtain ⟨hgood, -⟩ := printTree_spec (F := xmlNodeLenForm) h.draws (List.nodup_cons.1 h.nodup).2 h.length_le
    obtain ⟨T₁, hT₁, hprint⟩ := hgood (by omega)
    refine ⟨T₁, hT₁, ?_⟩
    rw [Forest.roots, List.head?_cons, xmlNodeLen, xmlNodeLenTree, hprint, Option.map_some, xmlNodeLenForm_counts.sum]
    exact filter_len (Nat.lt_of_le_of_lt hfirst hlen)

/-- An element is not printed as nothing. -/
theorem text_first (d : Doc) (h : d ≠ .nil) : 0 < (d.text xmlSprintForm).length := by
  cases d with
  | nil => exact absurd rfl h
  | node name attrs value kids rest => simp [Doc.text, Doc.print, xmlSprintForm]

theorem first_text_iff (mem : Nat → Node) (f : Forest) :
    ((f.doc mem).first.text xmlSprintForm).length = ((f.doc mem).text xmlSprintForm).length ↔ f.roots.length ≤ 1 := by
  cases f with
  | nil => simp [Forest.doc, Doc.first, Forest.roots]
  | cons n a k rest =>
    simp only [Forest.doc, Doc.first]
    rw [Doc.text_node _ _ _ _ (rest.doc mem), List.length_append]
    cases rest with
    | nil => simp [Forest.doc, Doc.text, Doc.print, Forest.roots]
    | cons n' a' k' rest' =>
      have hpos := text_first ((Forest.cons n' a' k' rest').doc mem) (by simp [Forest.doc])
      simp only [Forest.roots, List.length_cons]
      omega

/-- Of a tree that the memory holds, whose texts are not too long for an `int`, `xml_sprint` and
`xml_spack` write the document it is, and leave it as it is; they fail just if it is deeper than the
stack. `XML_PACK_LEN` is the length of what `xml_spack` writes; `XML_TREE_LEN` is that of what
`xml_sprint` writes just if there is no more than one tree below the root. -/
theorem xml_print_spec (h : Holds T f) (htype : (T.mem T.root).type = .root) :
    (f.height ≤ XML_MAX_DEPTH → ((f.doc T.mem).text xmlSprintForm).length < 2 ^ 31 →
      ((f.doc T.mem).text xmlPackForm).length < 2 ^ 31 → ∃ T₁ T₂ T₃ T₄ len,
        T.xmlSprint = some (T₁, (f.doc T.mem).text xmlSprintForm) ∧
        T.xmlSpack = some (T₂, (f.doc T.mem).text xmlPackForm) ∧
        T.xmlTreeLen = some (T₃, len) ∧ (len = ((f.doc T.mem).text xmlSprintForm).length ↔ f.roots.length ≤ 1) ∧
        T.xmlPackLen T.root = some (T₄, (((f.doc T.mem).text xmlPackForm).length : Int)) ∧
        ∀ T' ∈ [T₁, T₂, T₃, T₄], Scratch T T') ∧
    (XML_MAX_DEPTH < f.height → T.xmlSprint = none ∧ T.xmlSpack = none ∧ T.xmlPackLen T.root = none) := by
  obtain ⟨hsprint, hsprint'⟩ := h.printTrees xmlSprintForm
  obtain ⟨hspack, hspack'⟩ := h.printTrees xmlPackForm
  obtain ⟨hlen, hlen'⟩ := h.printTrees xmlPackLenForm
  refine ⟨fun hd hs hp => ?_, fun hd => ?_⟩
  · obtain ⟨T₁, hT₁, hprint₁⟩ := hsprint hd
    obtain ⟨T₂, hT₂, hprint₂⟩ := hspack hd
    obtain ⟨T₃, hT₃, hprint₃⟩ := xmlTreeLen_spec h hd hs
    obtain ⟨T₄, hT₄, hprint₄⟩ := hlen hd
    refine ⟨T₁, T₂, T₃, T₄, _, ?_, ?_, hprint₃, ?_, ?_, by simp [hT₁, hT₂, hT₃, hT₄]⟩
    · rw [xmlSprint, hprint₁]
      rfl
    · rw [xmlSpack, hprint₂]
      rfl
    · rw [Int.natCast_inj]
      exact first_text_iff T.mem f
    · have hsum := xmlPackLenForm_counts.sum (f.doc T.mem)
      have hpack := packLens_eq 0 hprint₄ (by omega)
      rw [Nat.zero_add, hsum] at hpack
      rw [xmlPackLen, htype]
      exact hpack
  · refine ⟨?_, ?_, ?_⟩
    · rw [xmlSprint, hsprint' hd]
      rfl
    · rw [xmlSpack, hspack' hd]
      rfl
    · rw [xmlPackLen, htype]
      exact packLens_none (hlen' hd)

/-- The text `<a x="1">v<b/></a>` -/
def letter : XmlTree where
  mem
    | 0 => { xmlNodeInit .root with child := some 1, tail := some 1, hasChild := true }
    | 1 => { xmlNodeInit .child with
        name := ['a'], value := some ['v'], child := some 2, tail := some 3, parent := some 0, hasChild := true,
        hasAttr := true, hasValue := true }
    | 2 => { xmlNodeInit .attr with name := ['x'], value := some ['1'], parent := some 1, next := some 3 }
    | _ => { xmlNodeInit .child with name := ['b'], parent := some 1 }
  root := 0
  num := 4
  freed := []

theorem holds_letter : Holds letter (.cons 1 [2] (.cons 3 [] .nil .nil) .nil) := by
  refine ⟨⟨by decide, by decide, by decide, by decide, by decide⟩, ⟨⟨by decide, by decide, by decide, by decide, by decide⟩,
    ⟨⟨by decide, by decide, by decide, by decide, by decide⟩, trivial, trivial⟩, trivial⟩, by decide, by decide, by decide,
    rfl, rfl⟩

theorem xml_print_spec_letter : ∃ T₁ T₂ T₄, letter.xmlSprint = some (T₁, "<a x=\"1\">v\n\t<b/>\n</a>\n".toList) ∧
    letter.xmlSpack = some (T₂, "<a x=\"1\">v<b/></a>".toList) ∧ letter.xmlPackLen letter.root = some (T₄, 18) := by
  obtain ⟨T₁, T₂, -, T₄, -, hsprint, hspack, -, -, hlen, -⟩ :=
    (xml_print_spec holds_letter rfl).1 (by decide) (by decide) (by decide)
  exact ⟨T₁, T₂, T₄, hsprint, hspack, hlen⟩

end XmlTree

end BeehiveIm.Xml
