/-
The red-black conditions on a tree and on the path to a hole in one, and what it means that the
cells of an `RbTree` draw a tree. The moves the fix-ups are made of (stepping to a child or to the
parent, recolouring, rotating) are lemmas about this relation.
-/
import BeehiveIm.Core.RbTree
import BeehiveIm.Lib.Hung

namespace BeehiveIm.Core.RbTree

open BeehiveIm.Lib

variable {α : Type}

/-! ## Red-black trees -/

/-- A tree with a root of colour `k`, without a red node under a red one, and with `n` black
nodes on every way down. -/
inductive Balanced : PTree Color α → Color → Nat → Prop where
  | nil : Balanced .nil .black 0
  | red {a : Ptr} {d : α} {l r : PTree Color α} {n : Nat} : Balanced l .black n → Balanced r .black n →
      Balanced (.node a .red d l r) .red n
  | black {a : Ptr} {d : α} {l r : PTree Color α} {kl kr : Color} {n : Nat} : Balanced l kl n →
      Balanced r kr n → Balanced (.node a .black d l r) .black (n + 1)

/-- A hole that a tree with a root of colour `k` and black height `n` fills to a red-black
tree with a black root. -/
inductive Hole : Path Color α → Color → Nat → Prop where
  | root {n : Nat} : Hole [] .black n
  | red {s : Side} {a : Ptr} {d : α} {sib : PTree Color α} {c : Path Color α} {n : Nat} :
      Balanced sib .black n → Hole c .red n → Hole (⟨s, a, .red, d, sib⟩ :: c) .black n
  | black {s : Side} {a : Ptr} {d : α} {sib : PTree Color α} {c : Path Color α} {k j : Color} {n : Nat} :
      Balanced sib j n → Hole c .black (n + 1) → Hole (⟨s, a, .black, d, sib⟩ :: c) k n

section Balanced

variable {s : Side} {a : Ptr} {d : α} {x y : PTree Color α} {k : Color} {n : Nat} {c : Path Color α}

theorem balanced_red : Balanced (.nodeAt s a .red d x y) k n ↔
    k = .red ∧ Balanced x .black n ∧ Balanced y .black n := by
  constructor
  · cases s <;> rintro (_ | ⟨h1, h2⟩)
    exacts [⟨rfl, h1, h2⟩, ⟨rfl, h2, h1⟩]
  · rintro ⟨rfl, h1, h2⟩
    cases s
    exacts [.red h1 h2, .red h2 h1]

theorem balanced_black : Balanced (.nodeAt s a .black d x y) k n ↔
    k = .black ∧ ∃ m kx ky, n = m + 1 ∧ Balanced x kx m ∧ Balanced y ky m := by
  constructor
  · cases s <;> rintro (_ | _ | ⟨h1, h2⟩)
    exacts [⟨rfl, _, _, _, rfl, h1, h2⟩, ⟨rfl, _, _, _, rfl, h2, h1⟩]
  · rintro ⟨rfl, m, kx, ky, rfl, h1, h2⟩
    cases s
    exacts [.black h1 h2, .black h2 h1]

/-- A black root may take the place of a red one. -/
theorem Hole.black_of (h : Hole c k n) : Hole c .black n := by
  cases h with
  | root => exact .root
  | red h1 h2 => exact .red h1 h2
  | black h1 h2 => exact .black h1 h2

theorem Hole.fill : ∀ {c : Path Color α} {t : PTree Color α} {k : Color} {n : Nat}, Hole c k n →
    Balanced t k n → ∃ n', Balanced (Path.fill c t) .black n'
  | [], _, _, _, .root, ht => ⟨_, ht⟩
  | _ :: _, _, _, _, .red h1 h2, ht => h2.fill (balanced_red.2 ⟨rfl, ht, h1⟩)
  | _ :: _, _, _, _, .black h1 h2, ht => h2.fill (balanced_black.2 ⟨rfl, _, _, _, rfl, ht, h1⟩)

/-- Every subtree of a red-black tree, and the hole it leaves. -/
theorem Balanced.hole : ∀ {c : Path Color α} {t : PTree Color α} {n : Nat},
    Balanced (Path.fill c t) .black n → ∃ k m, Balanced t k m ∧ Hole c k m
  | [], _, _, h => ⟨_, _, h, .root⟩
  | ⟨s, a, .red, d, sib⟩ :: c, t, _, h => by
    obtain ⟨k, m, ht, hc⟩ := Balanced.hole (c := c) h
    obtain ⟨rfl, h1, h2⟩ := balanced_red.1 ht
    exact ⟨_, _, h1, .red h2 hc⟩
  | ⟨s, a, .black, d, sib⟩ :: c, t, _, h => by
    obtain ⟨k, m, ht, hc⟩ := Balanced.hole (c := c) h
    obtain ⟨rfl, m, kx, ky, rfl, h1, h2⟩ := balanced_black.1 ht
    exact ⟨_, _, h1, .black h2 hc⟩

/-- The conditions do not look at the payloads. -/
theorem Hole.withData {d' : α} {tag : Color} : ∀ {c' : Path Color α} {k : Color} {n : Nat},
    Hole (c' ++ ⟨s, a, tag, d, x⟩ :: c) k n → Hole (c' ++ ⟨s, a, tag, d', x⟩ :: c) k n
  | [], _, _, h => by
    cases h with
    | red h1 h2 => exact .red h1 h2
    | black h1 h2 => exact .black h1 h2
  | ⟨_, _, _, _, _⟩ :: c', _, _, h => by
    cases h with
    | red h1 h2 => exact .red h1 h2.withData
    | black h1 h2 => exact .black h1 h2.withData

theorem Balanced.exists_red {t : PTree Color α} (h : Balanced t .red n) (s : Side) :
    ∃ a d x y, t = .nodeAt s a .red d x y := by
  cases h with
  | red _ _ =>
    rename_i a d l r _ _
    obtain ⟨x, y, he⟩ := PTree.node_eq_nodeAt s a Color.red d l r
    exact ⟨a, d, x, y, he⟩

/-- A tree with a black node on every way down starts with a node. -/
theorem Balanced.exists_node {t : PTree Color α} (h : Balanced t k (n + 1)) (s : Side) :
    ∃ a d x y, t = .nodeAt s a k d x y := by
  cases h with
  | red _ _ =>
    rename_i a d l r _ _
    obtain ⟨x, y, he⟩ := PTree.node_eq_nodeAt s a Color.red d l r
    exact ⟨a, d, x, y, he⟩
  | black _ _ =>
    rename_i a d l r _ _ _ _
    obtain ⟨x, y, he⟩ := PTree.node_eq_nodeAt s a Color.black d l r
    exact ⟨a, d, x, y, he⟩

end Balanced

/-! ## The cells draw a tree -/

/-- The cells of `T` draw `t` at the end of the path `c`; the sentinel is black. -/
structure At (T : RbTree α) (c : Path Color α) (t : PTree Color α) : Prop
    extends Hung T.mem T.sentinel T.root T.next c t where
  leaf : (T.mem T.sentinel).tag = .black

/-- The pointer to a tree that hangs in `T`. -/
abbrev ptr (T : RbTree α) (t : PTree Color α) : Ptr := t.root T.sentinel

section Fields

variable (T : RbTree α) (p q : Ptr) (k : Color) (s : Side) (d : Option α)

@[simp] theorem setColor_num : (T.setColor p k).num = T.num := rfl
@[simp] theorem setColor_sentinel : (T.setColor p k).sentinel = T.sentinel := rfl
@[simp] theorem setColor_root : (T.setColor p k).root = T.root := rfl
@[simp] theorem setColor_next : (T.setColor p k).next = T.next := rfl
@[simp] theorem setColor_child : (T.setColor p k).child s q = T.child s q := by
  by_cases h : q = p <;> simp [setColor, child, Mem.setTag, h]

@[simp] theorem setParent_child (r : Ptr) : (T.setParent p q).child s r = T.child s r := by
  by_cases h : r = p
  · subst h; cases s <;> simp [setParent, child, Mem.setParent, Cell.withParent]
  · simp [setParent, child, Mem.setParent, h]
@[simp] theorem setParent_sideOf (r r' : Ptr) : (T.setParent p q).sideOf r r' = T.sideOf r r' := by
  simp only [sideOf, setParent_child]

@[simp] theorem setParent_num : (T.setParent p q).num = T.num := rfl
@[simp] theorem setParent_sentinel : (T.setParent p q).sentinel = T.sentinel := rfl
@[simp] theorem setParent_root : (T.setParent p q).root = T.root := rfl
@[simp] theorem setParent_next : (T.setParent p q).next = T.next := rfl

@[simp] theorem setData_parent : (T.setData p d).parent q = T.parent q := by
  by_cases h : q = p <;> simp [setData, parent, Mem.setData, h]
@[simp] theorem setData_isRed : (T.setData p d).isRed q = T.isRed q := by
  by_cases h : q = p <;> simp [setData, isRed, Mem.setData, h]
@[simp] theorem setData_num : (T.setData p d).num = T.num := rfl
@[simp] theorem setData_sentinel : (T.setData p d).sentinel = T.sentinel := rfl
@[simp] theorem setData_root : (T.setData p d).root = T.root := rfl
@[simp] theorem setData_next : (T.setData p d).next = T.next := rfl

@[simp] theorem dealloc_num : (T.dealloc p).num = T.num := rfl
@[simp] theorem dealloc_sentinel : (T.dealloc p).sentinel = T.sentinel := rfl
@[simp] theorem dealloc_root : (T.dealloc p).root = T.root := rfl
@[simp] theorem dealloc_next : (T.dealloc p).next = T.next := rfl

@[simp] theorem rbtSetChild_num : (T.rbtSetChild p s q).num = T.num := rfl
@[simp] theorem rbtSetChild_sentinel : (T.rbtSetChild p s q).sentinel = T.sentinel := rfl
@[simp] theorem rbtSetChild_root : (T.rbtSetChild p s q).root = T.root := rfl
@[simp] theorem rbtSetChild_next : (T.rbtSetChild p s q).next = T.next := rfl

@[simp] theorem rbtReplaceChild_num (r : Ptr) : (T.rbtReplaceChild p q r).num = T.num := rfl
@[simp] theorem rbtReplaceChild_sentinel (r : Ptr) : (T.rbtReplaceChild p q r).sentinel = T.sentinel := rfl
@[simp] theorem rbtReplaceChild_root (r : Ptr) : (T.rbtReplaceChild p q r).root = T.root := rfl
@[simp] theorem rbtReplaceChild_next (r : Ptr) : (T.rbtReplaceChild p q r).next = T.next := rfl

@[simp] theorem rbtRotate_num : (T.rbtRotate s p).num = T.num := by
  simp only [rbtRotate, rbtSetChild_num]; split <;> simp
@[simp] theorem rbtRotate_sentinel : (T.rbtRotate s p).sentinel = T.sentinel := by
  simp only [rbtRotate, rbtSetChild_sentinel]; split <;> simp

end Fields

namespace At

variable {T : RbTree α} {c : Path Color α} {t : PTree Color α} {f : Frame Color α} {s : Side} {a : Ptr}
  {k : Color} {d : α} {x y : PTree Color α}

/-! ### Reading -/

theorem parent_eq (h : At T c (.nodeAt s a k d x y)) : T.parent a = Path.parent T.sentinel c := by
  simp [parent, h.rep.cell]

theorem child_eq (h : At T c (.nodeAt s a k d x y)) :
    T.child s a = T.ptr x ∧ T.child s.other a = T.ptr y := by
  simp [child, h.rep.cell]

theorem tag_eq (h : At T c (.nodeAt s a k d x y)) : (T.mem a).tag = k := by
  simp [h.rep.cell]

theorem cmp_eq (h : At T c (.nodeAt s a k d x y)) (ck : α → Int) : T.cmp ck a = ck d := by
  simp [cmp, h.rep.cell]

theorem ptr_eq_sentinel (h : At T c t) : T.sentinel = T.ptr t ↔ t = .nil := by
  rw [eq_comm]
  exact h.root_eq_leaf

/-- What a search reads at a node. -/
theorem read_node {l r : PTree Color α} (h : At T c (.node a k d l r)) (ck : α → Int) :
    T.sentinel ≠ a ∧ T.cmp ck a = ck d ∧ T.child .left a = T.ptr l ∧ T.child .right a = T.ptr r ∧
      (T.mem a).data = some d := by
  obtain ⟨hl, hr⟩ : T.child .left a = T.ptr l ∧ T.child .right a = T.ptr r := child_eq (s := .left) h
  refine ⟨Ne.symm (Hung.ne_leaf (s := .left) h.toHung), cmp_eq (s := .left) h ck, hl, hr, ?_⟩
  rw [show T.mem a = _ from Rep.cell (s := .left) h.rep]; rfl

/-- The colour of the cell a tree hangs at, the sentinel's included. -/
theorem color_eq {n : Nat} (h : At T c t) (hb : Balanced t k n) : (T.mem (T.ptr t)).tag = k := by
  cases hb with
  | nil => exact h.leaf
  | red _ _ => exact tag_eq (s := .left) h
  | black _ _ => exact tag_eq (s := .left) h

theorem isRed_eq {n : Nat} (h : At T c t) (hb : Balanced t k n) : T.isRed (T.ptr t) = (k = .red : Bool) := by
  rw [isRed, h.color_eq hb]

theorem isBlack_eq {n : Nat} (h : At T c t) (hb : Balanced t k n) :
    T.isBlack (T.ptr t) = (k = .black : Bool) := by
  rw [isBlack, h.color_eq hb]

/-! ### Moving -/

theorem focus : At T c (.nodeAt s a k d x y) ↔ At T (⟨s, a, k, d, y⟩ :: c) x :=
  ⟨fun h => ⟨Hung.focus.1 h.toHung, h.leaf⟩, fun h => ⟨Hung.focus.2 h.toHung, h.leaf⟩⟩

theorem focus_other : At T c (.nodeAt s a k d x y) ↔ At T (⟨s.other, a, k, d, x⟩ :: c) y := by
  rw [← focus, PTree.nodeAt_other]

theorem focus_path {c' : Path Color α} {t : PTree Color α} : At T c (Path.fill c' t) ↔ At T (c' ++ c) t :=
  ⟨fun h => ⟨Hung.focus_path.1 h.toHung, h.leaf⟩, fun h => ⟨Hung.focus_path.2 h.toHung, h.leaf⟩⟩

/-- Where a descent ends. -/
theorem descend (h : At T [] t) (ck : α → Int) : At T (descend ck t []).1 (descend ck t []).2 :=
  ⟨h.toHung.descend ck, h.leaf⟩

theorem whole (h : At T c t) : At T [] (Path.fill c t) := ⟨h.toHung.whole, h.leaf⟩

theorem frame_parent (h : At T (f :: c) t) : T.parent f.addr = Path.parent T.sentinel c := by
  simp [parent, h.rep.cell_parent]

theorem frame_child (h : At T (f :: c) t) :
    T.child f.side f.addr = T.ptr t ∧ T.child f.side.other f.addr = T.ptr f.sib := by
  simp [child, h.rep.cell_parent]

theorem frame_tag (h : At T (f :: c) t) : (T.mem f.addr).tag = f.tag := by
  simp [h.rep.cell_parent]

/-- Only the root hangs under the sentinel. -/
theorem parent_ne (h : At T (f :: c) t) : T.sentinel ≠ Path.parent T.sentinel (f :: c) :=
  fun h' => h.frame_ne h'.symm

/-- `node == parent->lchild` tells the side unless both children are the sentinel. -/
theorem sideOf_eq (h : At T (f :: c) t) (hne : t ≠ .nil ∨ f.sib ≠ .nil) :
    T.sideOf f.addr (T.ptr t) = f.side := by
  obtain ⟨h1, h2⟩ := h.frame_child
  unfold sideOf
  cases hs : f.side with
  | left => rw [hs] at h1; simp [h1]
  | right =>
    rw [hs] at h2
    have h2' : T.child .left f.addr = T.ptr f.sib := h2
    rw [h2', if_neg (h.root_ne_sib hne)]

theorem root_eq (h : At T [] t) : T.root = T.ptr t := h.rep.path

/-! ### Writing -/

theorem setColor (h : At T c (.nodeAt s a k d x y)) (k' : Color) :
    At (T.setColor a k') c (.nodeAt s a k' d x y) := by
  refine ⟨h.toHung.setTag k', ?_⟩
  simp [RbTree.setColor, Mem.setTag, Ne.symm h.ne_leaf, h.leaf]

/-- Recolouring a child. -/
theorem setColor_child {b : Ptr} {kb : Color} {db : α} {u v : PTree Color α} {s' : Side}
    (h : At T c (.nodeAt s a k d (.nodeAt s' b kb db u v) y)) (k' : Color) :
    At (T.setColor b k') c (.nodeAt s a k d (.nodeAt s' b k' db u v) y) :=
  focus.2 ((focus.1 h).setColor k')

theorem setColor_child_other {b : Ptr} {kb : Color} {db : α} {u v : PTree Color α} {r : Side}
    (h : At T c (.nodeAt s a k d x (.nodeAt r b kb db u v))) (k' : Color) :
    At (T.setColor b k') c (.nodeAt s a k d x (.nodeAt r b k' db u v)) :=
  focus_other.2 ((focus_other.1 h).setColor k')

/-- Black is what the sentinel is. -/
theorem setBlack_leaf (h : At T c t) : At (T.setColor T.sentinel .black) c t := by
  refine ⟨h.toHung.update ?_ _, by simp [RbTree.setColor, Mem.setTag]⟩
  have := h.rep.leaf_notin
  simpa using this

theorem setData (h : At T c (.nodeAt s a k d x y)) (d' : α) :
    At (T.setData a (some d')) c (.nodeAt s a k d' x y) := by
  refine ⟨h.toHung.setData d', ?_⟩
  simp [RbTree.setData, Mem.setData, Ne.symm h.ne_leaf, h.leaf]

/-- A cell outside the tree is freed. -/
theorem dealloc {p : Ptr} (h : At T c t) (hz : p ≠ T.sentinel) (hp : p ∉ t.addrs ++ Path.addrs c) :
    At (T.dealloc p) c t := by
  refine ⟨h.toHung.update hp _, ?_⟩
  simp [RbTree.dealloc, Ne.symm hz, h.leaf]

/-! ### Rotating -/

/-- The first step of a rotation: `b` takes the place of the focus below the parent. -/
theorem replace_top {b : Ptr} (h : At T c (.nodeAt s a k d x y)) (hb : b ≠ T.sentinel)
    (hbc : b ∉ Path.addrs c) :
    let P := Path.parent T.sentinel c
    ∃ root' m', (if T.sentinel = P then { T with root := b }.setParent b T.sentinel
        else T.rbtSetChild P (T.sideOf P a) b) = { T with root := root', mem := m' } ∧
      Relinked T.mem m' T.root root' c b ∧ m' b = (T.mem b).withParent P ∧
      ∀ v, v ≠ b → v ≠ P ∨ v = T.sentinel → m' v = T.mem v := by
  intro P
  cases c with
  | nil =>
    refine ⟨b, T.mem.setParent b T.sentinel, by simp [P, RbTree.setParent], rfl, ?_, fun v hv _ => ?_⟩
    · simp [Mem.setParent, P]
    · simp [Mem.setParent, hv]
  | cons f c =>
    have hP : T.sentinel ≠ P := h.parent_ne
    have hside : T.sideOf P a = f.side := by
      have := h.sideOf_eq (.inl (by cases s <;> simp))
      rwa [ptr, PTree.root_nodeAt] at this
    have hPb : P ≠ b := by rintro rfl; exact hbc (by simp [P, Path.addrs])
    refine ⟨T.root, T.mem.linkChild T.sentinel f.side P b, by rw [if_neg hP, hside]; rfl,
      ⟨rfl, Mem.linkChild_self hPb⟩, Mem.linkChild_child hPb hb, fun v hv hv' => ?_⟩
    exact Mem.linkChild_other (by rcases hv' with h' | rfl; exacts [h', hP]) (.inl hv)

theorem rotate {b : Ptr} {kb : Color} {db : α} {w : PTree Color α}
    (h : At T c (.nodeAt s a k d x (.nodeAt s b kb db y w))) :
    At (T.rbtRotate s a) c (.nodeAt s b kb db (.nodeAt s a k d x y) w) ∧
      ((T.rbtRotate s a).mem T.sentinel).parent = (T.mem T.sentinel).parent := by
  have hn := h.rep.nodup
  have hb : b ≠ T.sentinel := (focus_other.1 h).ne_leaf
  have ha : a ≠ T.sentinel := h.ne_leaf
  have hca : T.mem a = _ := h.rep.cell
  have hcb : T.mem b = _ := (focus_other.1 h).rep.cell
  rw [((PTree.addrs_nodeAt₂ ..).append_right _ |>.cons _).nodup_iff] at hn
  simp only [List.cons_append, List.append_assoc, List.nodup_cons, List.nodup_append, List.mem_cons,
    List.mem_append, not_or] at hn
  obtain ⟨root', m₁, hT₁, hlink, hm₁b, hm₁⟩ := h.replace_top hb (by grind)
  have hpar : T.parent a = Path.parent T.sentinel c := h.parent_eq
  have hchild : T.child s.other a = b := by simp [h.child_eq.2]
  have hy := y.root_mem T.sentinel
  have hP := Path.parent_mem T.sentinel c
  have hab : a ≠ b := by grind
  have hya : y.root T.sentinel ≠ a := by grind
  have hyb : y.root T.sentinel ≠ b := by grind
  have hm₁c : (m₁ b).child s = y.root T.sentinel := by
    rw [hm₁b, hcb]; simp
  obtain ⟨M, hM⟩ : ∃ M, M =
    (m₁.linkChild T.sentinel s.other a (y.root T.sentinel)).linkChild T.sentinel s b a := ⟨_, rfl⟩
  have hT : T.rbtRotate s a = { T with root := root', mem := M } := by
    unfold rbtRotate
    simp only [hpar, hchild, hT₁]
    simp only [rbtSetChild, child, hm₁c, hM]
  have hPa : a ≠ Path.parent T.sentinel c := by grind
  have hMa : M a = .mkAt s k b (x.root T.sentinel) (y.root T.sentinel) d := by
    rw [hM, Mem.linkChild_child (Ne.symm hab) ha, Mem.linkChild_self hya.symm, hm₁ a hab (.inl hPa), hca]
    simp
  have hMb : M b = .mkAt s kb (Path.parent T.sentinel c) a (w.root T.sentinel) db := by
    rw [hM, Mem.linkChild_self (Ne.symm hab), Mem.linkChild_other (Ne.symm hab) (.inl hyb.symm), hm₁b, hcb]
    simp
  have hMy : y.root T.sentinel ≠ T.sentinel → M (y.root T.sentinel) = (T.mem (y.root T.sentinel)).withParent a := by
    intro hyz
    have hyP : y.root T.sentinel ≠ Path.parent T.sentinel c := by grind
    rw [hM, Mem.linkChild_other hyb (.inl hya), Mem.linkChild_child hya.symm hyz, hm₁ _ hyb (.inl hyP)]
  have hMo : ∀ v, v ≠ a → v ≠ b → v ≠ y.root T.sentinel ∨ v = T.sentinel →
      v ≠ Path.parent T.sentinel c ∨ v = T.sentinel → M v = T.mem v := by
    intro v h1 h2 h3 h4
    have h3' : v ≠ y.root T.sentinel ∨ y.root T.sentinel = T.sentinel := by
      rcases h3 with h3 | rfl
      · exact .inl h3
      · by_cases h5 : y.root T.sentinel = T.sentinel
        exacts [.inr h5, .inl (Ne.symm h5)]
    rw [hM, Mem.linkChild_other h2 (.inl h1), Mem.linkChild_other h1 h3', hm₁ v h2 h4]
  have hMl : Relinked T.mem M T.root root' c b := by
    cases c with
    | nil => exact hlink
    | cons f c =>
      refine ⟨hlink.1, ?_⟩
      have h1 : f.addr ≠ a := by grind [Path.addrs]
      have h2 : f.addr ≠ b := by grind [Path.addrs]
      have h3 : f.addr ≠ y.root T.sentinel := by grind [Path.addrs, h.frame_ne]
      rw [hM, Mem.linkChild_other h2 (.inl h1), Mem.linkChild_other h1 (.inl h3), hlink.2]
  rw [hT]
  have hrep := h.rep.rotate hMa hMb hMy hMl fun v h1 h2 h3 h4 => hMo v h1 h2 (.inl h3) (.inl h4)
  refine ⟨⟨⟨hrep, fun p hp => h.fresh p ?_⟩, ?_⟩, ?_⟩
  · rwa [(PTree.addrs_nodeAt₂ ..).mem_iff, ← (PTree.addrs_rotate ..).mem_iff]
  · simp only [hMo _ ha.symm hb.symm (.inr rfl) (.inr rfl), h.leaf]
  · simp only [hMo _ ha.symm hb.symm (.inr rfl) (.inr rfl)]

end At

end BeehiveIm.Core.RbTree
