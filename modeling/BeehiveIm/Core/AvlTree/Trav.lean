/-
What `avl_trav` and `avl_destroy` hand to their callbacks, and writes to the elements of an AVL tree
in place.
-/
import BeehiveIm.Core.AvlTree.Delete

namespace BeehiveIm.Core.AvlTree

open BeehiveIm.Lib

variable {α : Type} {T : AvlTree α} {t : PTree Int α}

/-! ## `avl_trav` -/

theorem avlTravNode_eq : ∀ (fuel : Nat) {t : PTree Int α} {c : Path Int α}, At T c t → t ≠ .nil →
    t.height ≤ fuel → avlTravNode fuel T (ptr t) = some t.toList
  | _, .nil, _, _, hne, _ => absurd rfl hne
  | 0, .node _ _ _ _ _, _, _, _, hf => by simp [PTree.height] at hf
  | fuel + 1, .node a k d l r, c, h, _, hf => by
    obtain ⟨-, -, hl, hr, hdata⟩ := h.read_node fun _ => 0
    simp only [PTree.height] at hf
    have hsub {t : PTree Int α} {c : Path Int α} (h : At T c t) (hf : t.height ≤ fuel) :
        (if ptr t ≠ null then avlTravNode fuel T (ptr t) else some []) = some t.toList := by
      by_cases hnil : t = .nil
      · subst hnil
        exact if_neg (by simp)
      · rw [if_pos fun h0 => hnil (h.root_eq_leaf.1 h0)]
        exact avlTravNode_eq fuel h hnil hf
    have hleft := hsub (Hung.focus (s := .left).1 h) (by omega)
    have hright := hsub (Hung.focus (s := .right).1 h) (by omega)
    rw [avlTravNode]
    simp only [ptr, PTree.root_node, hl, hr, hdata]
    rw [hleft, hright]
    simp

/-- `avl_trav` hands the elements to its callback in their order. -/
theorem avlTrav_eq (h : Wf T t) : T.avlTrav = some t.toList := by
  have hheight := t.height_le_length
  have hnum := h.num
  unfold avlTrav
  by_cases hnil : t = .nil
  · subst hnil
    exact if_neg (not_not.2 h.at_.root_eq)
  · rw [if_pos (by rw [h.at_.root_eq]; exact fun h0 => hnil (h.at_.root_eq_leaf.1 h0)), h.at_.root_eq]
    exact avlTravNode_eq _ h.at_ hnil (by omega)

/-! ## `avl_destroy` -/

theorem avlDestroyNode_spec : ∀ (fuel : Nat) {t : PTree Int α} {c : Path Int α}, At T c t → t ≠ .nil →
    t.height ≤ fuel → ∃ l, avlDestroyNode fuel T (ptr t) = some l ∧ l.Perm t.toList
  | _, .nil, _, _, hne, _ => absurd rfl hne
  | 0, .node _ _ _ _ _, _, _, _, hf => by simp [PTree.height] at hf
  | fuel + 1, .node a k d l r, c, h, _, hf => by
    obtain ⟨-, -, hl, hr, hdata⟩ := h.read_node fun _ => 0
    simp only [PTree.height] at hf
    have hsub {t : PTree Int α} {c : Path Int α} (h : At T c t) (hf : t.height ≤ fuel) :
        ∃ l, (if ptr t ≠ null then avlDestroyNode fuel T (ptr t) else some []) = some l ∧ l.Perm t.toList := by
      by_cases hnil : t = .nil
      · subst hnil
        exact ⟨[], if_neg (by simp), .refl _⟩
      · rw [if_pos fun h0 => hnil (h.root_eq_leaf.1 h0)]
        exact avlDestroyNode_spec fuel h hnil hf
    obtain ⟨ll, hll, hlp⟩ := hsub (Hung.focus (s := .left).1 h) (by omega)
    obtain ⟨rl, hrl, hrp⟩ := hsub (Hung.focus (s := .right).1 h) (by omega)
    refine ⟨ll ++ rl ++ [d], ?_, ?_⟩
    · rw [avlDestroyNode]
      simp only [ptr, PTree.root_node, hl, hr, hdata]
      rw [hll, hrl]
      rfl
    · rw [List.append_assoc]
      exact (hlp.append (List.perm_append_comm.trans (hrp.cons d)))

/-- `avl_destroy` hands every element to its callback, once. -/
theorem avlDestroy_spec (h : Wf T t) : ∃ l, T.avlDestroy = some l ∧ l.Perm t.toList := by
  have hheight := t.height_le_length
  have hnum := h.num
  unfold avlDestroy
  by_cases hnil : t = .nil
  · subst hnil
    exact ⟨[], if_neg (not_not.2 h.at_.root_eq), .refl _⟩
  · rw [if_pos (by rw [h.at_.root_eq]; exact fun h0 => hnil (h.at_.root_eq_leaf.1 h0)), h.at_.root_eq]
    exact avlDestroyNode_spec _ h.at_ hnil (by omega)

/-! ## Writes in place -/

theorem alterBy_shape (ck : α → Int) (g : α → α) : ∀ t : PTree Int α, Avl t →
    Avl (alterBy ck g t) ∧ (alterBy ck g t).height = t.height ∧ (alterBy ck g t).toList.length = t.toList.length
  | .nil, _ => ⟨trivial, rfl, rfl⟩
  | .node a k e l r, h => by
    obtain ⟨hk, hlr, hl, hr⟩ := h
    obtain ⟨hl', hlh, hll⟩ := alterBy_shape ck g l hl
    obtain ⟨hr', hrh, hrl⟩ := alterBy_shape ck g r hr
    rw [alterBy]
    split
    · exact ⟨⟨hk, hlr, hl, hr⟩, rfl, by simp⟩
    · split
      · exact ⟨⟨by rw [hlh]; exact hk, hlr, hl', hr⟩, by simp [PTree.height, hlh], by simp [hll]⟩
      · exact ⟨⟨by rw [hrh]; exact hk, hlr, hl, hr'⟩, by simp [PTree.height, hrh], by simp [hrl]⟩

/-- A write keeps the tree but for the element the search meets. -/
theorem avlWrite_alter (h : Wf T t) (ck : α → Int) (g : α → α) :
    ∃ T', T.avlWrite ck g = some T' ∧ Wf T' (alterBy ck g t) := by
  have hheight := t.height_le_length
  have hnum := h.num
  have hfuel : t.height < T.num + 1 := by omega
  have hat := h.at_.descend ck
  have hmeet := meetBy_descend ck t []
  obtain ⟨havl, -, hlen⟩ := alterBy_shape ck g t h.bal
  rw [avlWrite, h.at_.root_eq, avlQueryLoop_eq _ h.at_ hfuel]
  rcases he : descend ck t [] with ⟨c, _ | ⟨a, k, d, l, r⟩⟩ <;> rw [he] at hat hmeet
  · exact ⟨T, rfl, by rw [alterBy_none hmeet]; exact h⟩
  have hcell : (T.mem a).data = some d := (At.read_node hat ck).2.2.2.2
  have hat' : At (T.setData a (some (g d))) c (.node a k (g d) l r) := Hung.setData (s := .left) hat (g d)
  refine ⟨_, rfl, ?_, havl, by rw [hlen]; exact hnum⟩
  have hw := hat'.whole
  rw [fill_alterBy t [] he] at hw
  simpa [hcell] using hw

/-- A write to the element that a search finds, if the probe finds no other. -/
theorem avlWrite_met {ck : α → Int} (h : Wf T t) (hu : AtMostOne ck t.toList) (hm : meetBy ck t = findBy ck t.toList)
    (g : α → α) : ∃ T', T.avlWrite ck g = some T' ∧ ∃ t', Wf T' t' ∧ t'.toList = writeBy ck g t.toList := by
  obtain ⟨T', hT', hwf⟩ := avlWrite_alter h ck g
  exact ⟨T', hT', _, hwf, toList_alterBy g hu hm⟩

end BeehiveIm.Core.AvlTree
