/-
What the balancing functions of `avl_tree.c` restore: the insertion's, called when a subtree has
become two levels too high, and the deletion's, called when a subtree has lost a level.
-/
import BeehiveIm.Core.AvlTree.Shape

namespace BeehiveIm.Core.AvlTree

open BeehiveIm.Lib

variable {α : Type} {T : AvlTree α} {c : Path Int α} {s : Side} {a b g : Ptr} {ka kb kg : Int} {da db dg : α}
  {x y y' w t : PTree Int α}

/-! ## Single rotations -/

theorem avlSingleBalance_spec (h : At T c (.nodeAt s a ka da x (.nodeAt s b kb db y w))) :
    At (avlSingleBalance s T a) c (.nodeAt s b even db (.nodeAt s a even da x y) w) := by
  have hb : T.child s.other a = b := by rw [h.child_eq.2, ptr, PTree.root_nodeAt]
  have h₁ : At (T.setBf a even) c _ := h.setTag even
  have h₂ : At ((T.setBf a even).setBf b even) c _ := h₁.setTag_child_other even
  unfold avlSingleBalance
  rw [hb]
  exact h₂.rotate

/-- The single rotation of the deletion sets the factors in the other order. -/
theorem avlRotate_factors (h : At T c (.nodeAt s a ka da x (.nodeAt s b kb db y w))) (ka' kb' : Int) :
    At (((T.setBf b kb').setBf a ka').avlRotate s a) c (.nodeAt s b kb' db (.nodeAt s a ka' da x y) w) := by
  have h₁ : At (T.setBf b kb') c _ := h.setTag_child_other kb'
  have h₂ : At ((T.setBf b kb').setBf a ka') c _ := h₁.setTag ka'
  exact h₂.rotate

/-! ## Double rotations -/

/-- The factors of `node` and of its child after a double rotation, by that of the grandchild. -/
def nodeFactor (s : Side) (kg : Int) : Int := if kg = high s.other then high s else even
def childFactor (s : Side) (kg : Int) : Int := if kg = high s then high s.other else even

theorem avlFactors₂_spec (h : At T c (.nodeAt s a ka da x (.nodeAt s b kb db (.nodeAt s g kg dg y y') w)))
    (hg : kg = high s ∨ kg = even ∨ kg = high s.other) :
    At (T.avlFactors₂ s a) c (.nodeAt s a (nodeFactor s kg) da x
      (.nodeAt s b (childFactor s kg) db (.nodeAt s g even dg y y') w)) := by
  have hcur := Hung.focus_other.1 h
  have hb : T.child s.other a = b := by rw [h.child_eq.2, ptr, PTree.root_nodeAt]
  have hgr : T.child s b = g := by rw [(At.child_eq hcur).1, ptr, PTree.root_nodeAt]
  have hbf : T.bf g = kg := At.bf_eq (Hung.focus.1 hcur)
  have hset : ∀ k₁ k₂ k₃, At (((T.setBf a k₁).setBf b k₂).setBf g k₃) c (.nodeAt s a k₁ da x
      (.nodeAt s b k₂ db (.nodeAt s g k₃ dg y y') w)) := by
    intro k₁ k₂ k₃
    have h₁ : At (T.setBf a k₁) c _ := h.setTag k₁
    have h₂ : At ((T.setBf a k₁).setBf b k₂) c _ := h₁.setTag_child_other k₂
    exact Hung.focus_other.2 ((Hung.focus_other.1 h₂).setTag_child k₃)
  unfold avlFactors₂
  simp only [hb, hgr, hbf]
  rcases hg with rfl | rfl | rfl
  · rw [if_pos rfl, show nodeFactor s (high s) = even by simp [nodeFactor],
      show childFactor s (high s) = high s.other by simp [childFactor]]
    exact hset ..
  · rw [if_neg (by simp), if_pos rfl, show nodeFactor s even = even by simp [nodeFactor],
      show childFactor s even = even by simp [childFactor]]
    exact hset ..
  · rw [if_neg (by simp), if_neg (by simp), if_pos rfl,
      show nodeFactor s (high s.other) = high s by simp [nodeFactor],
      show childFactor s (high s.other) = even by simp [childFactor]]
    exact hset ..

theorem avlRotate₂_factors (h : At T c (.nodeAt s a ka da x (.nodeAt s b kb db (.nodeAt s g kg dg y y') w)))
    (hg : kg = high s ∨ kg = even ∨ kg = high s.other) :
    At ((T.avlFactors₂ s a).avlRotate₂ s a) c (.nodeAt s g even dg (.nodeAt s a (nodeFactor s kg) da x y)
      (.nodeAt s b (childFactor s kg) db y' w)) :=
  (avlFactors₂_spec h hg).rotate₂

/-- The factors a double rotation leaves are the right ones. -/
theorem avl_rotate₂ (a : Ptr) (da : α) (hx : Avl x) (ht : Avl (.nodeAt s b (high s) db (.nodeAt s g kg dg y y') w))
    (hh : (PTree.nodeAt s b (high s) db (.nodeAt s g kg dg y y') w).height = x.height + 2) :
    (kg = high s ∨ kg = even ∨ kg = high s.other) ∧
    Avl (.nodeAt s g even dg (.nodeAt s a (nodeFactor s kg) da x y) (.nodeAt s b (childFactor s kg) db y' w)) ∧
    (PTree.nodeAt s g even dg (.nodeAt s a (nodeFactor s kg) da x y)
      (.nodeAt s b (childFactor s kg) db y' w)).height = x.height + 2 := by
  obtain ⟨hgt, hw, hb⟩ := avl_nodeAt.1 ht
  obtain ⟨hy, hy', hg⟩ := avl_nodeAt.1 hgt
  simp only [height_nodeAt, high_ne', high_ne_even, false_and, or_false, true_and] at hh hb
  rcases hg with ⟨rfl, hg⟩ | ⟨rfl, hg⟩ | ⟨rfl, hg⟩
  · simp [avl_nodeAt, height_nodeAt, nodeFactor, childFactor, hx, hy, hy', hw]; omega
  · simp [avl_nodeAt, height_nodeAt, nodeFactor, childFactor, hx, hy, hy', hw]; omega
  · simp [avl_nodeAt, height_nodeAt, nodeFactor, childFactor, hx, hy, hy', hw]; omega

/-- A tree two levels higher than another starts with a node, and one whose inner subtree is the
higher has an inner grandchild. -/
theorem exists_nodeAt {n : Nat} (ht : t.height = n + 1) (s : Side) : ∃ b kb db y w, t = .nodeAt s b kb db y w := by
  cases t with
  | nil => cases ht
  | node b kb db l r =>
    obtain ⟨y, w, he⟩ := PTree.node_eq_nodeAt s b kb db l r
    exact ⟨b, kb, db, y, w, he⟩

/-! ## The balancing functions -/

/-- The factor of a tree's root. -/
def factor : PTree Int α → Int
  | .nil => even
  | .node _ k _ _ _ => k

@[simp] theorem factor_nodeAt : factor (.nodeAt s a ka da x y) = ka := by cases s <;> rfl

/-- After an insertion: the subtree `t` has become two levels higher than `x`, and leans. -/
theorem avlBalance_spec (h : At T c (.nodeAt s a ka da x t)) (hx : Avl x) (ht : Avl t)
    (hh : t.height = x.height + 2) (hf : factor t ≠ even) :
    ∃ t', At (avlBalance s.other T a) c t' ∧ (avlBalance s.other T a).num = T.num ∧ Avl t' ∧
      t'.height = x.height + 2 ∧ t'.toList = (PTree.nodeAt s a ka da x t).toList := by
  obtain ⟨b, kb, db, y, w, rfl⟩ := exists_nodeAt hh s
  rw [factor_nodeAt] at hf
  have hb : T.child s.other a = b := by rw [h.child_eq.2, ptr, PTree.root_nodeAt]
  have hbf : T.bf b = kb := At.bf_eq (Hung.focus_other.1 h)
  obtain ⟨hy, hw, hk⟩ := avl_nodeAt.1 ht
  rw [height_nodeAt] at hh
  unfold avlBalance
  simp only [hb, hbf, Side.other_other]
  rcases hk with ⟨rfl, hk⟩ | ⟨rfl, hk⟩ | ⟨rfl, hk⟩
  · rw [if_neg (by simp), if_pos rfl]
    obtain ⟨g, kg, dg, y₁, y₂, rfl⟩ := exists_nodeAt hk s
    obtain ⟨hg, havl, hheight⟩ := avl_rotate₂ a da hx ht (by rw [height_nodeAt]; exact hh)
    exact ⟨_, avlRotate₂_factors h hg, by simp [avlDoubleBalance], havl, hheight, by cases s <;> simp⟩
  · exact absurd rfl hf
  · rw [if_pos rfl]
    refine ⟨_, avlSingleBalance_spec h, by simp [avlSingleBalance], ?_, ?_, by cases s <;> simp⟩
    · simp [avl_nodeAt, height_nodeAt, hx, hy, hw]; omega
    · simp [height_nodeAt]; omega

/-- After a deletion: the subtree `x` has lost a level. -/
theorem avlDeleteBalance_spec (lower : Bool) (h : At T c (.nodeAt s a ka da x t)) (hx : Avl x) (ht : Avl t)
    (hk : ka = high s ∧ x.height = t.height ∨ ka = even ∧ x.height + 1 = t.height ∨
      ka = high s.other ∧ t.height = x.height + 2) :
    ∃ T' t' lower', avlDeleteBalance s T a lower = (T', lower') ∧ At T' c t' ∧ T'.num = T.num ∧ Avl t' ∧
      t'.height + lower'.toNat = max (x.height + 1) t.height + 1 ∧
      t'.toList = (PTree.nodeAt s a ka da x t).toList := by
  have hbf : T.bf a = ka := h.bf_eq
  unfold avlDeleteBalance
  rw [hbf]
  rcases hk with ⟨rfl, hk⟩ | ⟨rfl, hk⟩ | ⟨rfl, hk⟩
  · rw [if_pos rfl]
    refine ⟨_, _, true, rfl, h.setTag even, rfl, avl_nodeAt.2 ⟨hx, ht, by simp [hk]⟩, ?_, by cases s <;> rfl⟩
    simp [height_nodeAt]; omega
  · rw [if_neg (by simp), if_pos rfl]
    refine ⟨_, _, false, rfl, h.setTag (high s.other), rfl, avl_nodeAt.2 ⟨hx, ht, ?_⟩, ?_, by cases s <;> rfl⟩
    · simp; omega
    · simp [height_nodeAt]; omega
  · rw [if_neg (by simp), if_neg (by simp), if_pos rfl]
    obtain ⟨b, kb, db, y, w, rfl⟩ := exists_nodeAt hk s
    have hb : T.child s.other a = b := by rw [h.child_eq.2, ptr, PTree.root_nodeAt]
    have hkb : T.bf b = kb := At.bf_eq (Hung.focus_other.1 h)
    obtain ⟨hy, hw, hkk⟩ := avl_nodeAt.1 ht
    have hh := hk
    rw [height_nodeAt] at hk
    simp only [hb, hkb]
    rcases hkk with ⟨rfl, hkk⟩ | ⟨rfl, hkk⟩ | ⟨rfl, hkk⟩
    · -- the brother leans inwards
      rw [if_neg (by simp), if_neg (by simp), if_pos rfl]
      obtain ⟨g, kg, dg, y₁, y₂, rfl⟩ := exists_nodeAt hkk s
      obtain ⟨hg, havl, hheight⟩ := avl_rotate₂ a da hx ht hh
      refine ⟨_, _, true, rfl, avlRotate₂_factors h hg, by simp, havl, ?_, by cases s <;> simp⟩
      rw [hheight, hh]; simp
    · -- the brother does not lean: the height stays
      rw [if_pos rfl]
      refine ⟨_, _, false, rfl, avlRotate_factors h .., by simp, ?_, ?_, by cases s <;> simp⟩
      · simp [avl_nodeAt, height_nodeAt, hx, hy, hw]; omega
      · simp [height_nodeAt]; omega
    · -- the brother leans outwards
      rw [if_neg (by simp), if_pos rfl]
      refine ⟨_, _, true, rfl, avlRotate_factors h .., by simp, ?_, ?_, by cases s <;> simp⟩
      · simp [avl_nodeAt, height_nodeAt, hx, hy, hw]; omega
      · simp [height_nodeAt]; omega

end BeehiveIm.Core.AvlTree
