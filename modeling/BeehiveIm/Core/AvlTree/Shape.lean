/-
The AVL condition on a tree, what it means that the cells of an `AvlTree` draw a tree, and what the
writes of `avl_tree.c` do to it.
-/
import BeehiveIm.Core.AvlTree
import BeehiveIm.Lib.Hung

namespace BeehiveIm.Core.AvlTree

open BeehiveIm.Lib

variable {α : Type}

/-! ## AVL trees -/

/-- Every factor is the difference of the heights of the node's subtrees, and one of `AVL_LH`,
`AVL_EH` and `AVL_RH`. -/
def Avl : PTree Int α → Prop
  | .nil => True
  | .node _ bf _ l r => bf = l.height - r.height ∧ (bf = high .left ∨ bf = even ∨ bf = high .right) ∧
      Avl l ∧ Avl r

@[simp] theorem high_ne (s : Side) : high s.other ≠ high s := by cases s <;> decide
@[simp] theorem high_ne' (s : Side) : high s ≠ high s.other := by cases s <;> decide
@[simp] theorem high_ne_even (s : Side) : high s ≠ even := by cases s <;> decide
@[simp] theorem even_ne_high (s : Side) : even ≠ high s := by cases s <;> decide

section Avl

variable {s : Side} {a : Ptr} {bf : Int} {d : α} {x y : PTree Int α}

theorem height_nodeAt : (PTree.nodeAt s a bf d x y).height = max x.height y.height + 1 := by
  cases s <;> simp [PTree.height, max_comm]

/-- The three ways a node can be balanced, seen from one side. -/
theorem avl_nodeAt : Avl (.nodeAt s a bf d x y) ↔ Avl x ∧ Avl y ∧
    (bf = high s ∧ x.height = y.height + 1 ∨ bf = even ∧ x.height = y.height ∨
      bf = high s.other ∧ y.height = x.height + 1) := by
  cases s <;> simp only [Avl, PTree.nodeAt_left, PTree.nodeAt_right, high, even, Side.other] <;> grind

end Avl

/-! ## The cells draw a tree -/

/-- The cells of `T` draw `t` at the end of the path `c`. -/
abbrev At (T : AvlTree α) (c : Path Int α) (t : PTree Int α) : Prop := Hung T.mem null T.root T.next c t

/-- The pointer to a tree that hangs in `T`. -/
abbrev ptr (t : PTree Int α) : Ptr := t.root null

section Fields

variable (T : AvlTree α) (p q : Ptr) (b : Int) (s : Side) (d : Option α)

@[simp] theorem setBf_num : (T.setBf p b).num = T.num := rfl
@[simp] theorem avlSetChild_num : (T.avlSetChild p s q).num = T.num := rfl
@[simp] theorem setData_num : (T.setData p d).num = T.num := rfl
@[simp] theorem dealloc_num : (T.dealloc p).num = T.num := rfl

@[simp] theorem avlReplaceChild_num (r : Ptr) : (T.avlReplaceChild p q r).num = T.num := by
  unfold avlReplaceChild; split <;> [rfl; split <;> [rfl; split <;> rfl]]

@[simp] theorem avlRotate_num : (T.avlRotate s p).num = T.num := by simp [avlRotate]
@[simp] theorem avlRotate₂_num : (T.avlRotate₂ s p).num = T.num := by simp [avlRotate₂]

@[simp] theorem avlFactors₂_num : (T.avlFactors₂ s p).num = T.num := by
  unfold avlFactors₂; simp only; split <;> [rfl; split <;> [rfl; split <;> rfl]]

end Fields

section Reading

variable {T : AvlTree α} {c : Path Int α} {t : PTree Int α} {s : Side} {a : Ptr} {k : Int} {d : α}
  {x y : PTree Int α} {f : Frame Int α}

theorem At.parent_eq (h : At T c (.nodeAt s a k d x y)) : T.parent a = Path.parent null c := by
  simp [parent, h.rep.cell]

theorem At.child_eq (h : At T c (.nodeAt s a k d x y)) : T.child s a = ptr x ∧ T.child s.other a = ptr y := by
  simp [child, h.rep.cell]

theorem At.bf_eq (h : At T c (.nodeAt s a k d x y)) : T.bf a = k := by
  simp [bf, h.rep.cell]

theorem At.frame_child (h : At T (f :: c) t) :
    T.child f.side f.addr = ptr t ∧ T.child f.side.other f.addr = ptr f.sib := by
  simp [child, h.rep.cell_parent]

theorem At.root_eq (h : At T [] t) : T.root = ptr t := h.rep.path

/-- What a search reads at a node. -/
theorem At.read_node {l r : PTree Int α} (h : At T c (.node a k d l r)) (ck : α → Int) :
    a ≠ null ∧ T.cmp ck a = ck d ∧ T.child .left a = ptr l ∧ T.child .right a = ptr r ∧
      (T.mem a).data = some d := by
  have hcell : T.mem a = .mkAt .left k (Path.parent null c) (l.root null) (r.root null) d :=
    Rep.cell (s := .left) h.rep
  obtain ⟨hl, hr⟩ : T.child .left a = ptr l ∧ T.child .right a = ptr r := At.child_eq (s := .left) h
  exact ⟨Hung.ne_leaf (s := .left) h, by simp [cmp, hcell], hl, hr, by rw [hcell]; rfl⟩

end Reading

/-! ## Replacing a child -/

section Links

variable {T : AvlTree α} {c : Path Int α} {s : Side} {a b g : Ptr} {ka kb kg : Int} {da db dg : α}
  {x y y' w : PTree Int α} {m : Mem Int α}

/-- Below a parent, `avl_replace_child` writes the link at the focus' side. -/
theorem avlReplaceChild_frame {f : Frame Int α} {b : Ptr} (hz : f.addr ≠ null) (h₁ : T.child f.side f.addr = a)
    (h₂ : T.child f.side.other f.addr ≠ a) :
    T.avlReplaceChild f.addr a b = T.avlSetChild f.addr f.side b := by
  unfold avlReplaceChild
  rw [if_neg hz]
  cases hs : f.side with
  | left => rw [hs] at h₁; rw [if_pos h₁]
  | right =>
    rw [hs] at h₁ h₂
    have h₂' : T.child .left f.addr ≠ a := h₂
    rw [if_neg h₂', if_pos h₁]

/-- `avl_replace_child` of the focus, the parent's cell being as it was; `b` may be `NULL`. -/
theorem avlReplaceChild_spec (h : At T c (.nodeAt s a ka da x y)) (hb : b ∉ Path.addrs c)
    (hm : ∀ v, v ∈ Path.addrs c → m v = T.mem v) :
    ∃ root' m', ({ T with mem := m } : AvlTree α).avlReplaceChild (Path.parent null c) a b =
        { T with root := root', mem := m' } ∧ Relinked T.mem m' T.root root' c b ∧
      (b ≠ null → m' b = (m b).withParent (Path.parent null c)) ∧
      ∀ v, v ≠ Path.parent null c ∨ v = null → v ≠ b ∨ b = null → m' v = m v := by
  cases c with
  | nil =>
    refine ⟨b, if b ≠ null then m.setParent b null else m, by simp [avlReplaceChild], rfl, fun hbn => ?_,
      fun v _ hv => ?_⟩
    · rw [if_pos hbn]; simp [Mem.setParent]
    · split
      · simp [Mem.setParent, hv.resolve_right (by assumption)]
      · rfl
  | cons f c =>
    have hmf : m f.addr = T.mem f.addr := hm _ (by simp [Path.addrs])
    have hfb : f.addr ≠ b := by rintro rfl; exact hb (by simp [Path.addrs])
    have hch := At.frame_child h
    have hne := h.root_ne_sib (.inl (by cases s <;> simp))
    rw [ptr, PTree.root_nodeAt] at hch
    rw [PTree.root_nodeAt] at hne
    have hchild : ∀ s', ({ T with mem := m } : AvlTree α).child s' f.addr = T.child s' f.addr := by
      intro s'; simp [child, hmf]
    have heq : ({ T with mem := m } : AvlTree α).avlReplaceChild f.addr a b =
        { T with mem := m.linkChild null f.side f.addr b } :=
      avlReplaceChild_frame h.frame_ne (by rw [hchild]; exact hch.1)
        (by rw [hchild, hch.2]; exact Ne.symm hne)
    refine ⟨T.root, _, heq, ⟨rfl, ?_⟩, fun hbn => Mem.linkChild_child hfb hbn, fun v hv hv' => ?_⟩
    · rw [Mem.linkChild_self hfb, hmf]
    · refine Mem.linkChild_other ?_ hv'
      rcases hv with hv | rfl
      exacts [hv, Ne.symm h.frame_ne]

/-! ## Rotations -/

theorem At.rotate (h : At T c (.nodeAt s a ka da x (.nodeAt s b kb db y w))) :
    At (T.avlRotate s a) c (.nodeAt s b kb db (.nodeAt s a ka da x y) w) := by
  have hb : b ≠ null := (Hung.focus_other.1 h).ne_leaf
  have ha : a ≠ null := h.ne_leaf
  have hca : T.mem a = _ := h.rep.cell
  have hcb : T.mem b = _ := (Hung.focus_other.1 h).rep.cell
  have hn := h.rep.nodup
  rw [((PTree.addrs_nodeAt₂ ..).append_right _ |>.cons _).nodup_iff] at hn
  simp only [List.cons_append, List.append_assoc, List.nodup_cons, List.nodup_append, List.mem_cons,
    List.mem_append, not_or] at hn
  have hy := y.root_mem null
  have hP := Path.parent_mem null c
  have hab : a ≠ b := by grind
  have hya : y.root null ≠ a := by grind
  have hyb : y.root null ≠ b := by grind
  have haP : a ≠ Path.parent null c := by grind
  have hbc : b ∉ Path.addrs c := by grind
  have hchild : T.child s.other a = b := by rw [h.child_eq.2, ptr, PTree.root_nodeAt]
  obtain ⟨m, hm⟩ : ∃ m, m = (T.mem.linkChild null s.other a (y.root null)).linkChild null s b a := ⟨_, rfl⟩
  have hma : m a = .mkAt s ka b (x.root null) (y.root null) da := by
    rw [hm, Mem.linkChild_child (Ne.symm hab) ha, Mem.linkChild_self hya.symm, hca]; simp
  have hmb : m b = .mkAt s kb a a (w.root null) db := by
    rw [hm, Mem.linkChild_self (Ne.symm hab), Mem.linkChild_other (Ne.symm hab) (.inl hyb.symm), hcb]; simp
  have hmy : y.root null ≠ null → m (y.root null) = (T.mem (y.root null)).withParent a := by
    intro hyz
    rw [hm, Mem.linkChild_other hyb (.inl hya), Mem.linkChild_child hya.symm hyz]
  have hmo : ∀ v, v ≠ a → v ≠ b → v ≠ y.root null ∨ y.root null = null → m v = T.mem v := by
    intro v h1 h2 h3
    rw [hm, Mem.linkChild_other h2 (.inl h1), Mem.linkChild_other h1 h3]
  have hmc : ∀ v ∈ Path.addrs c, m v = T.mem v := fun v hv => hmo v (by grind) (by grind) (by grind)
  obtain ⟨root', M, hT', hlink, hMb, hMo⟩ := avlReplaceChild_spec (m := m) h hbc hmc
  have hT : T.avlRotate s a = { T with root := root', mem := M } := by
    rw [← hT', hm]
    unfold avlRotate
    simp only [h.parent_eq, hchild]
    have hcy : T.child s b = y.root null := (At.child_eq (Hung.focus_other.1 h)).1
    rw [hcy]; rfl
  rw [hT]
  have hMa : M a = .mkAt s ka b (x.root null) (y.root null) da := by
    rw [← hma]; exact hMo a (.inl haP) (.inl hab)
  have hMb' : M b = .mkAt s kb (Path.parent null c) a (w.root null) db := by
    rw [hMb hb, hmb]; simp
  have hMy : y.root null ≠ null → M (y.root null) = (T.mem (y.root null)).withParent a := by
    intro hyz
    rw [← hmy hyz]; exact hMo _ (.inl (by grind)) (.inl hyb)
  have hMv : ∀ v, v ≠ a → v ≠ b → v ≠ y.root null → v ≠ Path.parent null c → M v = T.mem v := by
    intro v h1 h2 h3 h4
    rw [hMo v (.inl h4) (.inl h2), hmo v h1 h2 (.inl h3)]
  refine ⟨h.rep.rotate hMa hMb' hMy hlink hMv, fun p hp => h.fresh p ?_⟩
  rwa [(PTree.addrs_nodeAt₂ ..).mem_iff, ← (PTree.addrs_rotate ..).mem_iff]

theorem At.rotate₂ (h : At T c (.nodeAt s a ka da x (.nodeAt s b kb db (.nodeAt s g kg dg y y') w))) :
    At (T.avlRotate₂ s a) c (.nodeAt s g kg dg (.nodeAt s a ka da x y) (.nodeAt s b kb db y' w)) := by
  have hcur := Hung.focus_other.1 h
  have hcur' := Hung.focus.1 hcur
  have ha : a ≠ null := h.ne_leaf
  have hb : b ≠ null := hcur.ne_leaf
  have hg : g ≠ null := hcur'.ne_leaf
  have hca : T.mem a = _ := h.rep.cell
  have hcb : T.mem b = _ := hcur.rep.cell
  have hcg : T.mem g = _ := hcur'.rep.cell
  have hn := h.rep.nodup
  rw [((PTree.addrs_nodeAt₃ ..).append_right _ |>.cons _).nodup_iff] at hn
  simp only [List.cons_append, List.append_assoc, List.nodup_cons, List.nodup_append, List.mem_cons,
    List.mem_append, not_or] at hn
  have hy := y.root_mem null
  have hy' := y'.root_mem null
  have hP := Path.parent_mem null c
  have hab : a ≠ b := by grind
  have hag : a ≠ g := by grind
  have hbg : b ≠ g := by grind
  have hya : y.root null ≠ a := by grind
  have hyb : y.root null ≠ b := by grind
  have hyg : y.root null ≠ g := by grind
  have hya' : y'.root null ≠ a := by grind
  have hyb' : y'.root null ≠ b := by grind
  have hyg' : y'.root null ≠ g := by grind
  have hyy : y.root null ≠ y'.root null ∨ y'.root null = null := by grind
  have hyy' : y'.root null ≠ y.root null ∨ y.root null = null := by grind
  have hchild : T.child s.other a = b := by rw [h.child_eq.2, ptr, PTree.root_nodeAt]
  have hgrand : T.child s b = g := by rw [(At.child_eq hcur).1, ptr, PTree.root_nodeAt]
  obtain ⟨m₁, hm₁⟩ : ∃ m, m = T.mem.linkChild null s b (y'.root null) := ⟨_, rfl⟩
  obtain ⟨m₂, hm₂⟩ : ∃ m, m = m₁.linkChild null s.other g b := ⟨_, rfl⟩
  obtain ⟨m₃, hm₃⟩ : ∃ m, m = m₂.linkChild null s.other a (y.root null) := ⟨_, rfl⟩
  obtain ⟨m, hm⟩ : ∃ m, m = m₃.linkChild null s g a := ⟨_, rfl⟩
  have h₂g : m₂ g = .mkAt s kg b (y.root null) b dg := by
    rw [hm₂, Mem.linkChild_self (Ne.symm hbg), hm₁, Mem.linkChild_other (Ne.symm hbg) (.inl hyg'.symm), hcg]
    simp
  have hma : m a = .mkAt s ka g (x.root null) (y.root null) da := by
    rw [hm, Mem.linkChild_child (Ne.symm hag) ha, hm₃, Mem.linkChild_self hya.symm, hm₂,
      Mem.linkChild_other hag (.inl hab), hm₁, Mem.linkChild_other hab (.inl hya'.symm), hca]
    simp
  have hmb : m b = .mkAt s kb g (y'.root null) (w.root null) db := by
    rw [hm, Mem.linkChild_other hbg (.inl (Ne.symm hab)), hm₃,
      Mem.linkChild_other (Ne.symm hab) (.inl hyb.symm), hm₂, Mem.linkChild_child (Ne.symm hbg) hb, hm₁,
      Mem.linkChild_self hyb'.symm, hcb]
    simp
  have hmg : m g = .mkAt s kg b a b dg := by
    rw [hm, Mem.linkChild_self (Ne.symm hag), hm₃, Mem.linkChild_other (Ne.symm hag) (.inl hyg.symm), h₂g]
    simp
  have hmy : y.root null ≠ null → m (y.root null) = (T.mem (y.root null)).withParent a := by
    intro hyz
    rw [hm, Mem.linkChild_other hyg (.inl hya), hm₃, Mem.linkChild_child hya.symm hyz, hm₂,
      Mem.linkChild_other hyg (.inl hyb), hm₁, Mem.linkChild_other hyb hyy]
  have hmy' : y'.root null ≠ null → m (y'.root null) = (T.mem (y'.root null)).withParent b := by
    intro hyz
    rw [hm, Mem.linkChild_other hyg' (.inl hya'), hm₃, Mem.linkChild_other hya' hyy', hm₂,
      Mem.linkChild_other hyg' (.inl hyb'), hm₁, Mem.linkChild_child hyb'.symm hyz]
  have hmo : ∀ v, v ≠ a → v ≠ b → v ≠ g → v ≠ y.root null ∨ y.root null = null →
      v ≠ y'.root null ∨ y'.root null = null → m v = T.mem v := by
    intro v h1 h2 h3 h4 h5
    rw [hm, Mem.linkChild_other h3 (.inl h1), hm₃, Mem.linkChild_other h1 h4, hm₂,
      Mem.linkChild_other h3 (.inl h2), hm₁, Mem.linkChild_other h2 h5]
  have hgc : g ∉ Path.addrs c := by grind
  have hmc : ∀ v ∈ Path.addrs c, m v = T.mem v := fun v hv =>
    hmo v (by grind) (by grind) (by grind) (by grind) (by grind)
  obtain ⟨root', M, hT', hlink, hMg, hMo⟩ := avlReplaceChild_spec (m := m) h hgc hmc
  have hT : T.avlRotate₂ s a = { T with root := root', mem := M } := by
    rw [← hT', hm, hm₃, hm₂, hm₁]
    have h₂g' : (m₂ g).child s = y.root null := by rw [h₂g]; simp
    rw [hm₂, hm₁] at h₂g'
    have hcy' : T.child s.other g = y'.root null := (At.child_eq hcur').2
    unfold avlRotate₂
    simp only [h.parent_eq, hchild, hgrand, hcy']
    simp only [avlSetChild, child, h₂g']
  rw [hT]
  have hMa : M a = .mkAt s ka g (x.root null) (y.root null) da := by
    rw [← hma]; exact hMo a (.inl (by grind)) (.inl hag)
  have hMb : M b = .mkAt s kb g (y'.root null) (w.root null) db := by
    rw [← hmb]; exact hMo b (.inl (by grind)) (.inl hbg)
  have hMg' : M g = .mkAt s kg (Path.parent null c) a b dg := by
    rw [hMg hg, hmg]; simp
  have hMy : y.root null ≠ null → M (y.root null) = (T.mem (y.root null)).withParent a := by
    intro hyz
    rw [← hmy hyz]; exact hMo _ (.inl (by grind)) (.inl hyg)
  have hMy' : y'.root null ≠ null → M (y'.root null) = (T.mem (y'.root null)).withParent b := by
    intro hyz
    rw [← hmy' hyz]; exact hMo _ (.inl (by grind)) (.inl hyg')
  have hMv : ∀ v, v ≠ a → v ≠ b → v ≠ g → v ≠ y.root null → v ≠ y'.root null → v ≠ Path.parent null c →
      M v = T.mem v := by
    intro v h1 h2 h3 h4 h5 h6
    rw [hMo v (.inl h6) (.inl h3), hmo v h1 h2 h3 (.inl h4) (.inl h5)]
  refine ⟨h.rep.rotate₂ hMa hMb hMg' hMy hMy' hlink hMv, fun p hp => h.fresh p ?_⟩
  rwa [(PTree.addrs_nodeAt₃ ..).mem_iff, ← (PTree.addrs_rotate₂ ..).mem_iff]

end Links

end BeehiveIm.Core.AvlTree
