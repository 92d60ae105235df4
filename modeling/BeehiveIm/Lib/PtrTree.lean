/-
Binary trees in memory: nodes are cells at addresses with links to both children and to the parent.
`PTree` is the shape the cells draw, every node carrying its address; `Path` is the way from a
subtree up to the root (innermost node first), so that a loop that walks parent links works on a
pair of a path and a subtree. `Rep` says that a memory draws such a pair, and its lemmas move the
focus and change one node at a time; everything the change does not touch is a frame fact.
-/
import BeehiveIm.Lib.Probe
import Mathlib.Data.List.Nodup
import Mathlib.Data.List.Perm.Basic
import Mathlib.Tactic.Tauto

namespace BeehiveIm.Lib

/-- A node address. -/
abbrev Ptr := Nat

/-- Which child. -/
inductive Side where
  | left
  | right
  deriving DecidableEq, Repr

def Side.other : Side → Side
  | .left => .right
  | .right => .left

@[simp] theorem Side.other_other (s : Side) : s.other.other = s := by cases s <;> rfl

@[simp] theorem Side.other_ne (s : Side) : s.other ≠ s := by cases s <;> decide

theorem Side.eq_or_other (s s' : Side) : s' = s ∨ s' = s.other := by cases s <;> cases s' <;> simp [other]

/-! ## Cells and memory -/

/-- A node in memory: a tag (a colour or a balance factor), the links, the payload. -/
structure Cell (τ α : Type) where
  tag : τ
  parent : Ptr
  lchild : Ptr
  rchild : Ptr
  data : Option α
  deriving DecidableEq, Repr

namespace Cell

variable {τ α : Type}

def child (c : Cell τ α) : Side → Ptr
  | .left => c.lchild
  | .right => c.rchild

def withChild (c : Cell τ α) (s : Side) (q : Ptr) : Cell τ α :=
  match s with
  | .left => { c with lchild := q }
  | .right => { c with rchild := q }

def withTag (c : Cell τ α) (t : τ) : Cell τ α := { c with tag := t }

def withParent (c : Cell τ α) (q : Ptr) : Cell τ α := { c with parent := q }

def withData (c : Cell τ α) (d : Option α) : Cell τ α := { c with data := d }

/-- The cell with child `q` at side `s` and `q'` at the other. -/
def mkAt (s : Side) (tag : τ) (parent q q' : Ptr) (d : α) : Cell τ α :=
  match s with
  | .left => ⟨tag, parent, q, q', some d⟩
  | .right => ⟨tag, parent, q', q, some d⟩

section mkAt

variable (s : Side) (tag tag' : τ) (p p' q q' r : Ptr) (d d' : α)

@[simp] theorem mkAt_tag : (mkAt s tag p q q' d).tag = tag := by cases s <;> rfl
@[simp] theorem mkAt_parent : (mkAt s tag p q q' d).parent = p := by cases s <;> rfl
@[simp] theorem mkAt_data : (mkAt s tag p q q' d).data = some d := by cases s <;> rfl
@[simp] theorem mkAt_child : (mkAt s tag p q q' d).child s = q := by cases s <;> rfl
@[simp] theorem mkAt_child_other : (mkAt s tag p q q' d).child s.other = q' := by cases s <;> rfl

@[simp] theorem mkAt_withChild : (mkAt s tag p q q' d).withChild s r = mkAt s tag p r q' d := by
  cases s <;> rfl

@[simp] theorem mkAt_withChild_other :
    (mkAt s tag p q q' d).withChild s.other r = mkAt s tag p q r d := by cases s <;> rfl

@[simp] theorem mkAt_withTag : (mkAt s tag p q q' d).withTag tag' = mkAt s tag' p q q' d := by
  cases s <;> rfl

@[simp] theorem mkAt_withParent : (mkAt s tag p q q' d).withParent p' = mkAt s tag p' q q' d := by
  cases s <;> rfl

@[simp] theorem mkAt_withData : (mkAt s tag p q q' d).withData (some d') = mkAt s tag p q q' d' := by
  cases s <;> rfl

end mkAt

@[simp] theorem child_left (c : Cell τ α) : c.child .left = c.lchild := rfl
@[simp] theorem child_right (c : Cell τ α) : c.child .right = c.rchild := rfl

@[simp] theorem withTag_tag (c : Cell τ α) (t : τ) : (c.withTag t).tag = t := rfl
@[simp] theorem withTag_parent (c : Cell τ α) (t : τ) : (c.withTag t).parent = c.parent := rfl
@[simp] theorem withTag_data (c : Cell τ α) (t : τ) : (c.withTag t).data = c.data := rfl
@[simp] theorem withTag_child (c : Cell τ α) (t : τ) (s : Side) : (c.withTag t).child s = c.child s := by
  cases s <;> rfl
@[simp] theorem withParent_tag (c : Cell τ α) (q : Ptr) : (c.withParent q).tag = c.tag := rfl
@[simp] theorem withParent_parent (c : Cell τ α) (q : Ptr) : (c.withParent q).parent = q := rfl
@[simp] theorem withParent_data (c : Cell τ α) (q : Ptr) : (c.withParent q).data = c.data := rfl
@[simp] theorem withData_tag (c : Cell τ α) (d : Option α) : (c.withData d).tag = c.tag := rfl
@[simp] theorem withData_parent (c : Cell τ α) (d : Option α) : (c.withData d).parent = c.parent := rfl
@[simp] theorem withData_data (c : Cell τ α) (d : Option α) : (c.withData d).data = d := rfl

@[simp] theorem withChild_tag (c : Cell τ α) (s : Side) (q : Ptr) : (c.withChild s q).tag = c.tag := by
  cases s <;> rfl

@[simp] theorem withChild_data (c : Cell τ α) (s : Side) (q : Ptr) :
    (c.withChild s q).data = c.data := by cases s <;> rfl

end Cell

/-- Every address holds a cell; what the cells outside the tree hold is never read. -/
abbrev Mem (τ α : Type) := Ptr → Cell τ α

namespace Mem

variable {τ α : Type}

def setTag (m : Mem τ α) (p : Ptr) (t : τ) : Mem τ α := Function.update m p ((m p).withTag t)

def setParent (m : Mem τ α) (p q : Ptr) : Mem τ α := Function.update m p ((m p).withParent q)

def setChild (m : Mem τ α) (s : Side) (p q : Ptr) : Mem τ α := Function.update m p ((m p).withChild s q)

def setData (m : Mem τ α) (p : Ptr) (d : Option α) : Mem τ α := Function.update m p ((m p).withData d)

/-- Make `q` the child of `p` at side `s`, and `p` the parent of `q` unless `q` is the leaf `z`. -/
def linkChild (z : Ptr) (m : Mem τ α) (s : Side) (p q : Ptr) : Mem τ α :=
  let m := m.setChild s p q
  if q = z then m else m.setParent q p

section linkChild

variable {z : Ptr} {m : Mem τ α} {s : Side} {p q x : Ptr}

theorem linkChild_self (h : p ≠ q) : linkChild z m s p q p = (m p).withChild s q := by
  unfold linkChild setChild setParent
  split <;> simp [Function.update_apply, h]

theorem linkChild_child (h : p ≠ q) (hq : q ≠ z) :
    linkChild z m s p q q = (m q).withParent p := by
  simp [linkChild, hq, setChild, setParent, Ne.symm h]

theorem linkChild_other (hp : x ≠ p) (hq : x ≠ q ∨ q = z) : linkChild z m s p q x = m x := by
  unfold linkChild setChild setParent
  rcases hq with hq | rfl
  · split <;> simp [Function.update_apply, hp, hq]
  · simp [hp]

end linkChild

end Mem

/-! ## Trees with addresses -/

inductive PTree (τ α : Type) where
  | nil
  | node (a : Ptr) (tag : τ) (d : α) (l r : PTree τ α)

namespace PTree

variable {τ α : Type}

/-- The node with `x` at side `s` and `y` at the other. -/
def nodeAt (s : Side) (a : Ptr) (tag : τ) (d : α) (x y : PTree τ α) : PTree τ α :=
  match s with
  | .left => node a tag d x y
  | .right => node a tag d y x

@[simp] theorem nodeAt_left (a : Ptr) (tag : τ) (d : α) (x y : PTree τ α) :
    nodeAt .left a tag d x y = node a tag d x y := rfl

@[simp] theorem nodeAt_right (a : Ptr) (tag : τ) (d : α) (x y : PTree τ α) :
    nodeAt .right a tag d x y = node a tag d y x := rfl

theorem nodeAt_other (s : Side) (a : Ptr) (tag : τ) (d : α) (x y : PTree τ α) :
    nodeAt s.other a tag d x y = nodeAt s a tag d y x := by cases s <;> rfl

theorem node_eq_nodeAt (s : Side) (a : Ptr) (tag : τ) (d : α) (l r : PTree τ α) :
    ∃ x y, node a tag d l r = nodeAt s a tag d x y := by
  cases s
  exacts [⟨l, r, rfl⟩, ⟨r, l, rfl⟩]

/-- The pointer to the tree; `z` stands for the empty one. -/
def root (z : Ptr) : PTree τ α → Ptr
  | nil => z
  | node a _ _ _ _ => a

def toList : PTree τ α → List α
  | nil => []
  | node _ _ d l r => l.toList ++ d :: r.toList

def addrs : PTree τ α → List Ptr
  | nil => []
  | node a _ _ l r => a :: (l.addrs ++ r.addrs)

def height : PTree τ α → Nat
  | nil => 0
  | node _ _ _ l r => max l.height r.height + 1

/-- The elements with each node after its children. -/
def postOrder : PTree τ α → List α
  | nil => []
  | node _ _ d l r => l.postOrder ++ r.postOrder ++ [d]

@[simp] theorem root_nil (z : Ptr) : (nil : PTree τ α).root z = z := rfl
@[simp] theorem root_node (z a : Ptr) (tag : τ) (d : α) (l r : PTree τ α) :
    (node a tag d l r).root z = a := rfl
@[simp] theorem root_nodeAt (z : Ptr) (s : Side) (a : Ptr) (tag : τ) (d : α) (x y : PTree τ α) :
    (nodeAt s a tag d x y).root z = a := by cases s <;> rfl
@[simp] theorem toList_nil : (nil : PTree τ α).toList = [] := rfl
@[simp] theorem toList_node (a : Ptr) (tag : τ) (d : α) (l r : PTree τ α) :
    (node a tag d l r).toList = l.toList ++ d :: r.toList := rfl
@[simp] theorem addrs_nil : (nil : PTree τ α).addrs = [] := rfl
@[simp] theorem addrs_node (a : Ptr) (tag : τ) (d : α) (l r : PTree τ α) :
    (node a tag d l r).addrs = a :: (l.addrs ++ r.addrs) := rfl

/-- A rotation keeps the in-order list. -/
theorem toList_rotate (s : Side) (a b : Ptr) (ta tb : τ) (da db : α) (x y w : PTree τ α) :
    (nodeAt s b tb db (.nodeAt s a ta da x y) w).toList =
      (nodeAt s a ta da x (.nodeAt s b tb db y w)).toList := by cases s <;> simp

theorem addrs_nodeAt (s : Side) (a : Ptr) (tag : τ) (d : α) (x y : PTree τ α) :
    (nodeAt s a tag d x y).addrs.Perm (a :: (x.addrs ++ y.addrs)) := by
  cases s
  · exact .rfl
  · exact .cons a List.perm_append_comm

@[simp] theorem mem_addrs_nodeAt {s : Side} {a b : Ptr} {tag : τ} {d : α} {x y : PTree τ α} :
    b ∈ (nodeAt s a tag d x y).addrs ↔ b = a ∨ b ∈ x.addrs ∨ b ∈ y.addrs := by
  rw [(addrs_nodeAt s a tag d x y).mem_iff]; simp

/-- A node with a child node at the other side. -/
theorem addrs_nodeAt₂ (s : Side) (a b : Ptr) (ta tb : τ) (da db : α) (x y w : PTree τ α) :
    (nodeAt s a ta da x (.nodeAt s b tb db y w)).addrs.Perm (a :: (x.addrs ++ b :: (y.addrs ++ w.addrs))) :=
  (addrs_nodeAt ..).trans (.cons a (.append_left _ (addrs_nodeAt ..)))

/-- The same addresses after the rotation. -/
theorem addrs_rotate (s : Side) (a b : Ptr) (ta tb : τ) (da db : α) (x y w : PTree τ α) :
    (nodeAt s b tb db (.nodeAt s a ta da x y) w).addrs.Perm (a :: (x.addrs ++ b :: (y.addrs ++ w.addrs))) := by
  refine (addrs_nodeAt ..).trans ?_
  refine (List.Perm.cons b ((addrs_nodeAt s a ta da x y).append_right _)).trans ?_
  rw [List.cons_append]
  refine (List.Perm.swap a b _).trans (.cons a ?_)
  rw [List.append_assoc]
  exact List.perm_middle.symm

/-- A node with a child node at the other side and an inner grandchild. -/
theorem addrs_nodeAt₃ (s : Side) (a b g : Ptr) (ta tb tg : τ) (da db dg : α) (x y y' w : PTree τ α) :
    (nodeAt s a ta da x (.nodeAt s b tb db (.nodeAt s g tg dg y y') w)).addrs.Perm
      (a :: (x.addrs ++ b :: (g :: (y.addrs ++ y'.addrs) ++ w.addrs))) :=
  (addrs_nodeAt ..).trans (.cons a (.append_left _ ((addrs_nodeAt ..).trans
    (.cons b ((addrs_nodeAt ..).append_right _)))))

/-- The same addresses after the double rotation. -/
theorem addrs_rotate₂ (s : Side) (a b g : Ptr) (ta tb tg : τ) (da db dg : α) (x y y' w : PTree τ α) :
    (nodeAt s g tg dg (.nodeAt s a ta da x y) (.nodeAt s b tb db y' w)).addrs.Perm
      (a :: (x.addrs ++ b :: (g :: (y.addrs ++ y'.addrs) ++ w.addrs))) := by
  refine (addrs_nodeAt ..).trans ?_
  refine (List.Perm.cons g (((addrs_nodeAt s a ta da x y).append_right _).trans
    ((addrs_nodeAt s b tb db y' w).append_left _))).trans ?_
  rw [List.cons_append]
  refine (List.Perm.swap a g _).trans (.cons a ?_)
  simp only [List.append_assoc, List.cons_append]
  refine (List.perm_middle.symm).trans (.append_left _ ?_)
  refine (List.Perm.cons g List.perm_middle).trans ?_
  exact List.Perm.swap b g _

theorem height_le_length : ∀ t : PTree τ α, t.height ≤ t.toList.length
  | nil => Nat.le_refl _
  | node _ _ _ l r => by
    have := height_le_length l
    have := height_le_length r
    simp [height]; omega

theorem height_pos {t : PTree τ α} (h : t ≠ nil) : 0 < t.height := by
  cases t with
  | nil => exact absurd rfl h
  | node _ _ _ l r => simp [height]

theorem postOrder_perm : ∀ t : PTree τ α, t.postOrder.Perm t.toList
  | nil => .rfl
  | node _ _ d l r => by
    rw [postOrder, toList, List.append_assoc]
    refine (postOrder_perm l).append ?_
    exact ((postOrder_perm r).append_right [d]).trans List.perm_append_comm

theorem root_mem (z : Ptr) (t : PTree τ α) : t.root z = z ∨ t.root z ∈ t.addrs := by
  cases t <;> simp

theorem root_ne {z p : Ptr} {t : PTree τ α} (hz : z ≠ p) (h : p ∉ t.addrs) : t.root z ≠ p := by
  rcases root_mem z t with h' | h'
  · rw [h']; exact hz
  · rintro rfl; exact h h'

end PTree

/-! ## Paths -/

/-- One step of the way up: the node whose child at `side` the focus is. -/
structure Frame (τ α : Type) where
  side : Side
  addr : Ptr
  tag : τ
  data : α
  sib : PTree τ α

abbrev Path (τ α : Type) := List (Frame τ α)

section Paths

variable {τ α : Type}

def Frame.fill (f : Frame τ α) (t : PTree τ α) : PTree τ α := .nodeAt f.side f.addr f.tag f.data t f.sib

namespace Path

/-- The whole tree, with `t` put at the focus. -/
def fill : Path τ α → PTree τ α → PTree τ α
  | [], t => t
  | f :: c, t => fill c (f.fill t)

/-- The parent of the focus; `z` at the root. -/
def parent (z : Ptr) : Path τ α → Ptr
  | [] => z
  | f :: _ => f.addr

def addrs : Path τ α → List Ptr
  | [] => []
  | f :: c => f.addr :: (f.sib.addrs ++ addrs c)

/-- The elements in order before and after the focus. -/
def before : Path τ α → List α
  | [] => []
  | f :: c => match f.side with
    | .left => before c
    | .right => before c ++ f.sib.toList ++ [f.data]

def after : Path τ α → List α
  | [] => []
  | f :: c => match f.side with
    | .left => f.data :: f.sib.toList ++ after c
    | .right => after c

/-- The elements of `PTree.postOrder` after the focus. -/
def postAfter : Path τ α → List α
  | [] => []
  | f :: c => match f.side with
    | .left => f.sib.postOrder ++ f.data :: postAfter c
    | .right => f.data :: postAfter c

@[simp] theorem fill_nil (t : PTree τ α) : fill [] t = t := rfl
@[simp] theorem fill_cons (f : Frame τ α) (c : Path τ α) (t : PTree τ α) :
    fill (f :: c) t = fill c (f.fill t) := rfl
@[simp] theorem parent_nil (z : Ptr) : parent z ([] : Path τ α) = z := rfl
@[simp] theorem parent_cons (z : Ptr) (f : Frame τ α) (c : Path τ α) : parent z (f :: c) = f.addr := rfl

theorem toList_fill : ∀ (c : Path τ α) (t : PTree τ α), (fill c t).toList = before c ++ t.toList ++ after c
  | [], t => by simp [before, after]
  | f :: c, t => by
    rw [fill_cons, toList_fill c]
    cases hs : f.side <;> simp [before, after, Frame.fill, hs]

theorem fill_append : ∀ (c' c : Path τ α) (t : PTree τ α), fill (c' ++ c) t = fill c (fill c' t)
  | [], _, _ => rfl
  | _ :: c', c, _ => fill_append c' c _

theorem addrs_append : ∀ c' c : Path τ α, addrs (c' ++ c) = addrs c' ++ addrs c
  | [], _ => rfl
  | f :: c', c => by simp [addrs, addrs_append c' c]

theorem before_append : ∀ c' c : Path τ α, before (c' ++ c) = before c ++ before c'
  | [], _ => by simp [before]
  | f :: c', c => by cases hs : f.side <;> simp [before, hs, before_append c' c]

theorem after_append : ∀ c' c : Path τ α, after (c' ++ c) = after c' ++ after c
  | [], _ => by simp [after]
  | f :: c', c => by cases hs : f.side <;> simp [after, hs, after_append c' c]

theorem length_add_height : ∀ (c : Path τ α) (t : PTree τ α), c.length + t.height ≤ (fill c t).height
  | [], _ => by simp
  | f :: c, t => by
    have h := length_add_height c (f.fill t)
    have : t.height + 1 ≤ (f.fill t).height := by
      cases hs : f.side <;> simp [Frame.fill, hs, PTree.height]
    rw [fill_cons, List.length_cons]
    omega

/-- Above the focus the tree starts on the path. -/
theorem root_fill_mem (z : Ptr) : ∀ (f : Frame τ α) (c : Path τ α) (t : PTree τ α),
    (fill (f :: c) t).root z ∈ addrs (f :: c)
  | f, [], t => by simp [Frame.fill, addrs]
  | f, g :: c, t => by
    have := root_fill_mem z g c (f.fill t)
    rw [fill_cons]
    simp only [addrs, List.mem_cons, List.mem_append] at this ⊢
    tauto

theorem parent_mem (z : Ptr) (c : Path τ α) : parent z c = z ∨ parent z c ∈ addrs c := by
  cases c <;> simp [parent, addrs]

end Path

end Paths

/-! ## A memory draws a tree -/

section Rep

variable {τ α : Type}

/-- The cells of `t`, whose root's parent link is `p`. -/
def Stored (m : Mem τ α) (z : Ptr) : Ptr → PTree τ α → Prop
  | _, .nil => True
  | p, .node a tag d l r => m a = ⟨tag, p, l.root z, r.root z, some d⟩ ∧ Stored m z a l ∧ Stored m z a r

/-- The cells of the path, whose focus is linked by the pointer `q`. -/
def StoredPath (m : Mem τ α) (z root : Ptr) : Path τ α → Ptr → Prop
  | [], q => root = q
  | f :: c, q => m f.addr = .mkAt f.side f.tag (Path.parent z c) q (f.sib.root z) f.data ∧
      Stored m z f.addr f.sib ∧ StoredPath m z root c f.addr

/-- `m` draws `t` at the end of the path `c`, from the root pointer `root`. -/
structure Rep (m : Mem τ α) (z root : Ptr) (c : Path τ α) (t : PTree τ α) : Prop where
  path : StoredPath m z root c (t.root z)
  tree : Stored m z (Path.parent z c) t
  nodup : (z :: (t.addrs ++ Path.addrs c)).Nodup

variable {m m' : Mem τ α} {z root p q : Ptr} {c : Path τ α} {t : PTree τ α}

@[simp] theorem stored_nil : Stored m z p .nil := trivial

theorem stored_nodeAt {s : Side} {a : Ptr} {tag : τ} {d : α} {x y : PTree τ α} :
    Stored m z p (.nodeAt s a tag d x y) ↔
      m a = .mkAt s tag p (x.root z) (y.root z) d ∧ Stored m z a x ∧ Stored m z a y := by
  cases s
  · exact Iff.rfl
  · simp only [PTree.nodeAt_right, Stored, Cell.mkAt]; tauto

theorem Stored.congr : ∀ {t : PTree τ α} {p : Ptr}, Stored m z p t → (∀ x ∈ t.addrs, m' x = m x) →
    Stored m' z p t
  | .nil, _, _, _ => trivial
  | .node a _ _ l r, _, ⟨ha, hl, hr⟩, h =>
    ⟨(h a (by simp)).trans ha, hl.congr fun x hx => h x (by simp [hx]),
      hr.congr fun x hx => h x (by simp [hx])⟩

/-- The tree under a new parent: only the parent link of its root is written. -/
theorem Stored.reparent {p' : Ptr} (h : Stored m z p t) (hnd : t.addrs.Nodup)
    (hr : t.root z ≠ z → m' (t.root z) = (m (t.root z)).withParent p')
    (ho : ∀ x ∈ t.addrs, x ≠ t.root z → m' x = m x) (hz : z ∉ t.addrs) : Stored m' z p' t := by
  cases t with
  | nil => trivial
  | node a tag d l r =>
    simp only [PTree.addrs_node, List.nodup_cons, List.mem_append, not_or, List.mem_cons] at hnd hz
    obtain ⟨ha, hl, hr'⟩ := h
    refine ⟨?_, hl.congr fun x hx => ?_, hr'.congr fun x hx => ?_⟩
    · have := hr (by simpa using Ne.symm hz.1)
      simp only [PTree.root_node] at this
      rw [this, ha]; rfl
    · exact ho x (by simp [hx]) (by rintro rfl; exact hnd.1.1 hx)
    · exact ho x (by simp [hx]) (by rintro rfl; exact hnd.1.2 hx)

theorem StoredPath.congr : ∀ {c : Path τ α} {q : Ptr}, StoredPath m z root c q →
    (∀ x ∈ Path.addrs c, m' x = m x) → StoredPath m' z root c q
  | [], _, h, _ => h
  | f :: _, _, ⟨hf, hs, hc⟩, h =>
    ⟨(h f.addr (by simp [Path.addrs])).trans hf, hs.congr fun x hx => h x (by simp [Path.addrs, hx]),
      hc.congr fun x hx => h x (by simp [Path.addrs, hx])⟩

theorem StoredPath.root_mem : ∀ {c : Path τ α} {q : Ptr}, StoredPath m z root c q →
    root = q ∨ root ∈ Path.addrs c
  | [], _, h => .inl h
  | f :: c, _, ⟨_, _, h⟩ => by
    rcases h.root_mem with h' | h' <;> simp [Path.addrs, h']

namespace Rep

/-- Moving the focus between a node and its child at side `s`. -/
theorem focus {s : Side} {a : Ptr} {tag : τ} {d : α} {x y : PTree τ α} :
    Rep m z root c (.nodeAt s a tag d x y) ↔ Rep m z root (⟨s, a, tag, d, y⟩ :: c) x := by
  have hp : (z :: ((PTree.nodeAt s a tag d x y).addrs ++ Path.addrs c)).Perm
      (z :: (x.addrs ++ Path.addrs (⟨s, a, tag, d, y⟩ :: c))) := by
    refine .cons z (((PTree.addrs_nodeAt s a tag d x y).append_right _).trans ?_)
    simp only [Path.addrs, List.cons_append, List.append_assoc]
    exact List.perm_middle.symm
  constructor
  · rintro ⟨h1, h2, h3⟩
    rw [stored_nodeAt] at h2
    rw [PTree.root_nodeAt] at h1
    exact ⟨⟨h2.1, h2.2.2, h1⟩, h2.2.1, hp.nodup_iff.1 h3⟩
  · rintro ⟨⟨h1, h2, h3⟩, h4, h5⟩
    exact ⟨by rw [PTree.root_nodeAt]; exact h3, stored_nodeAt.2 ⟨h1, h4, h2⟩, hp.nodup_iff.2 h5⟩

/-- The cell at the focus. -/
theorem cell {s : Side} {a : Ptr} {tag : τ} {d : α} {x y : PTree τ α}
    (h : Rep m z root c (.nodeAt s a tag d x y)) :
    m a = .mkAt s tag (Path.parent z c) (x.root z) (y.root z) d := (stored_nodeAt.1 h.tree).1

/-- The cell of the focus' parent. -/
theorem cell_parent {f : Frame τ α} (h : Rep m z root (f :: c) t) :
    m f.addr = .mkAt f.side f.tag (Path.parent z c) (t.root z) (f.sib.root z) f.data := h.path.1

theorem leaf_notin (h : Rep m z root c t) : z ∉ t.addrs ∧ z ∉ Path.addrs c := by
  have := h.nodup; simp only [List.nodup_cons, List.mem_append, not_or] at this; exact this.1

theorem root_notin_path (h : Rep m z root c t) : t.root z ∉ Path.addrs c := by
  have h1 := h.nodup
  simp only [List.nodup_cons, List.nodup_append, List.mem_append, not_or] at h1
  rcases t.root_mem z with h' | h'
  · rw [h']; exact h1.1.2
  · exact fun hc => h1.2.2.2 _ h' _ hc rfl

/-- What stays where it is when the memory changes outside. -/
theorem congr (h : Rep m z root c t) (hm : ∀ x ∈ t.addrs ++ Path.addrs c, m' x = m x) :
    Rep m' z root c t :=
  ⟨h.path.congr fun x hx => hm x (by simp [hx]), h.tree.congr fun x hx => hm x (by simp [hx]), h.nodup⟩

/-- A write to the tag or the payload of the focus. -/
theorem write {s : Side} {a : Ptr} {tag tag' : τ} {d d' : α} {x y : PTree τ α}
    (h : Rep m z root c (.nodeAt s a tag d x y))
    (ha : m' a = .mkAt s tag' (Path.parent z c) (x.root z) (y.root z) d') (ho : ∀ b, b ≠ a → m' b = m b) :
    Rep m' z root c (.nodeAt s a tag' d' x y) := by
  have hn' := (List.Perm.cons z ((PTree.addrs_nodeAt s a tag d x y).append_right (Path.addrs c))).nodup_iff.1
    h.nodup
  have hn := (List.Perm.cons z ((PTree.addrs_nodeAt s a tag' d' x y).append_right (Path.addrs c))).nodup_iff.2
    hn'
  simp only [List.cons_append, List.append_assoc, List.nodup_cons, List.mem_cons, List.mem_append, not_or]
    at hn'
  obtain ⟨-, h2, h3⟩ := stored_nodeAt.1 h.tree
  refine ⟨?_, stored_nodeAt.2 ⟨ha, h2.congr ?_, h3.congr ?_⟩, hn⟩
  · have := h.path
    simp only [PTree.root_nodeAt] at this ⊢
    exact this.congr fun b hb => ho b (by rintro rfl; exact hn'.2.1.2.2 hb)
  · exact fun b hb => ho b (by rintro rfl; exact hn'.2.1.1 hb)
  · exact fun b hb => ho b (by rintro rfl; exact hn'.2.1.2.1 hb)

theorem setTag {s : Side} {a : Ptr} {tag tag' : τ} {d : α} {x y : PTree τ α}
    (h : Rep m z root c (.nodeAt s a tag d x y)) :
    Rep (m.setTag a tag') z root c (.nodeAt s a tag' d x y) :=
  h.write (by simp [Mem.setTag, h.cell]) fun b hb => by simp [Mem.setTag, hb]

theorem setData {s : Side} {a : Ptr} {tag : τ} {d d' : α} {x y : PTree τ α}
    (h : Rep m z root c (.nodeAt s a tag d x y)) :
    Rep (m.setData a (some d')) z root c (.nodeAt s a tag d' x y) :=
  h.write (by simp [Mem.setData, h.cell]) fun b hb => by simp [Mem.setData, hb]

end Rep

/-- The pointer to the focus was replaced by `q`: in the parent's cell, or in the root pointer. -/
def Relinked (m m' : Mem τ α) (root root' : Ptr) : Path τ α → Ptr → Prop
  | [], q => root' = q
  | f :: _, q => root' = root ∧ m' f.addr = (m f.addr).withChild f.side q

namespace Rep

variable {root' : Ptr}

/-- Another tree in the place of the focus, of which only the link to the focus is known. -/
theorem relink {t' : PTree τ α} (h : Rep m z root c t) (ht : Stored m' z (Path.parent z c) t')
    (hnd : (z :: (t'.addrs ++ Path.addrs c)).Nodup) (hp : Relinked m m' root root' c (t'.root z))
    (ho : ∀ v ∈ Path.addrs c, v ≠ Path.parent z c → m' v = m v) : Rep m' z root' c t' := by
  refine ⟨?_, ht, hnd⟩
  cases c with
  | nil => exact hp
  | cons f c =>
    obtain ⟨rfl, hp⟩ := hp
    obtain ⟨h1, h2, h3⟩ := h.path
    have hn : (f.addr :: (f.sib.addrs ++ Path.addrs c)).Nodup := by
      have := h.nodup
      simp only [List.nodup_cons, List.nodup_append, Path.addrs] at this ⊢
      exact this.2.2.1
    simp only [List.nodup_cons, List.mem_append, not_or] at hn
    refine ⟨by rw [hp, h1]; simp, h2.congr fun v hv => ?_, h3.congr fun v hv => ?_⟩
    · exact ho v (by simp [Path.addrs, hv]) (by rintro rfl; exact hn.1.1 hv)
    · exact ho v (by simp [Path.addrs, hv]) (by rintro rfl; exact hn.1.2 hv)

/-- A single rotation: `a` goes down to side `s`, its child `b` takes its place. -/
theorem rotate {s : Side} {a b : Ptr} {ta ta' tb tb' : τ} {da db : α} {x y w : PTree τ α}
    (h : Rep m z root c (.nodeAt s a ta da x (.nodeAt s b tb db y w)))
    (ha : m' a = .mkAt s ta' b (x.root z) (y.root z) da)
    (hb : m' b = .mkAt s tb' (Path.parent z c) a (w.root z) db)
    (hy : y.root z ≠ z → m' (y.root z) = (m (y.root z)).withParent a)
    (hp : Relinked m m' root root' c b)
    (ho : ∀ v, v ≠ a → v ≠ b → v ≠ y.root z → v ≠ Path.parent z c → m' v = m v) :
    Rep m' z root' c (.nodeAt s b tb' db (.nodeAt s a ta' da x y) w) := by
  have hn := (List.Perm.cons z ((PTree.addrs_nodeAt₂ ..).append_right (Path.addrs c))).nodup_iff.1 h.nodup
  have hn' := (List.Perm.cons z ((PTree.addrs_rotate s a b ta' tb' da db x y w).append_right
    (Path.addrs c))).nodup_iff.2 hn
  obtain ⟨-, hx, hb'⟩ := stored_nodeAt.1 h.tree
  obtain ⟨-, hyt, hw⟩ := stored_nodeAt.1 hb'
  simp only [List.cons_append, List.append_assoc, List.nodup_cons, List.nodup_append, List.mem_cons,
    List.mem_append, not_or] at hn
  have hpar := Path.parent_mem z c
  have hyr := y.root_mem z
  refine h.relink (stored_nodeAt.2 ⟨by simpa using hb, stored_nodeAt.2 ⟨ha, ?_, ?_⟩, ?_⟩) hn'
    (by simpa using hp) ?_
  · exact hx.congr fun v hv => ho v (by grind) (by grind) (by grind) (by grind)
  · refine hyt.reparent (by grind) hy (fun v hv hne => ?_) (by grind)
    exact ho v (by grind) (by grind) hne (by grind)
  · exact hw.congr fun v hv => ho v (by grind) (by grind) (by grind) (by grind)
  · exact fun v hv hne => ho v (by grind) (by grind) (by grind) hne

/-- A double rotation: the grandchild `g` takes the place of `a`, between `a` and its child `b`. -/
theorem rotate₂ {s : Side} {a b g : Ptr} {ta ta' tb tb' tg tg' : τ} {da db dg : α}
    {x y y' w : PTree τ α}
    (h : Rep m z root c (.nodeAt s a ta da x (.nodeAt s b tb db (.nodeAt s g tg dg y y') w)))
    (ha : m' a = .mkAt s ta' g (x.root z) (y.root z) da)
    (hb : m' b = .mkAt s tb' g (y'.root z) (w.root z) db)
    (hg : m' g = .mkAt s tg' (Path.parent z c) a b dg)
    (hy : y.root z ≠ z → m' (y.root z) = (m (y.root z)).withParent a)
    (hy' : y'.root z ≠ z → m' (y'.root z) = (m (y'.root z)).withParent b)
    (hp : Relinked m m' root root' c g)
    (ho : ∀ v, v ≠ a → v ≠ b → v ≠ g → v ≠ y.root z → v ≠ y'.root z → v ≠ Path.parent z c → m' v = m v) :
    Rep m' z root' c (.nodeAt s g tg' dg (.nodeAt s a ta' da x y) (.nodeAt s b tb' db y' w)) := by
  have hn := (List.Perm.cons z ((PTree.addrs_nodeAt₃ ..).append_right (Path.addrs c))).nodup_iff.1 h.nodup
  have hn' := (List.Perm.cons z ((PTree.addrs_rotate₂ s a b g ta' tb' tg' da db dg x y y' w).append_right
    (Path.addrs c))).nodup_iff.2 hn
  obtain ⟨-, hx, hb'⟩ := stored_nodeAt.1 h.tree
  obtain ⟨-, hg', hw⟩ := stored_nodeAt.1 hb'
  obtain ⟨-, hyt, hyt'⟩ := stored_nodeAt.1 hg'
  simp only [List.cons_append, List.append_assoc, List.nodup_cons, List.nodup_append, List.mem_cons,
    List.mem_append, not_or] at hn
  have hpar := Path.parent_mem z c
  have hyr := y.root_mem z
  have hyr' := y'.root_mem z
  refine h.relink (stored_nodeAt.2 ⟨by simpa using hg, stored_nodeAt.2 ⟨by simpa using ha, ?_, ?_⟩,
    stored_nodeAt.2 ⟨by simpa using hb, ?_, ?_⟩⟩) hn' (by simpa using hp) ?_
  · exact hx.congr fun v hv => ho v (by grind) (by grind) (by grind) (by grind) (by grind) (by grind)
  · refine hyt.reparent (by grind) hy (fun v hv hne => ?_) (by grind)
    exact ho v (by grind) (by grind) (by grind) hne (by grind) (by grind)
  · refine hyt'.reparent (by grind) hy' (fun v hv hne => ?_) (by grind)
    exact ho v (by grind) (by grind) (by grind) (by grind) hne (by grind)
  · exact hw.congr fun v hv => ho v (by grind) (by grind) (by grind) (by grind) (by grind) (by grind)
  · exact fun v hv hne => ho v (by grind) (by grind) (by grind) (by grind) (by grind) hne

end Rep

end Rep

end BeehiveIm.Lib
