/-
`rbt_delete` on a red-black tree. The fix-up starts at a tree that is one black node short for its
hole; a round either makes up for the missing node or hands the shortage to the parent.
-/
import BeehiveIm.Core.RbTree.Insert

namespace BeehiveIm.Core.RbTree

open BeehiveIm.Lib

variable {α : Type} {T : RbTree α} {c : Path Color α} {t : PTree Color α} {s : Side} {n fuel : Nat} {k : Color}

/-! ## One round of the fix-up -/

section Round

variable {a b v g : Ptr} {ka kb kw : Color} {da db dv dg : α} {y w y₁ y₂ w₁ w₂ : PTree Color α}

/-- Cases 4 and 8. -/
theorem rbtDeleteOuter_spec
    (h : At T c (.nodeAt s a ka da t (.nodeAt s b kb db y (.nodeAt s v .red dv w₁ w₂)))) :
    At (rbtDeleteOuter s T a b) c
      (.nodeAt s b ka db (.nodeAt s a .black da t y) (.nodeAt s v .black dv w₁ w₂)) := by
  have hb := (At.focus_other.1 h).setColor ka
  have hv := (At.focus_other.1 hb).setColor .black
  have ha := (At.focus_other.2 (At.focus_other.2 hv)).setColor .black
  have hv' : (T.setColor b ka).child s.other b = v := by
    rw [hb.child_eq.2, ptr, PTree.root_nodeAt]
  unfold rbtDeleteOuter
  simp only [h.tag_eq, hv']
  exact ha.rotate.1

/-- Cases 3 and 7 lead to cases 4 and 8. -/
theorem rbtDeleteInner_spec
    (h : At T c (.nodeAt s a ka da t (.nodeAt s b .black db (.nodeAt s g .red dg y₁ y₂) w)))
    (hw : Balanced w .black n) :
    ∃ T', rbtDeleteInner s T a b = (T', g) ∧ T'.num = T.num ∧
      At T' c (.nodeAt s a ka da t (.nodeAt s g .black dg y₁ (.nodeAt s b .red db y₂ w))) := by
  have hb := At.focus_other.1 h
  have hwb : T.isBlack (T.child s.other b) = true := by
    rw [hb.child_eq.2, (At.focus_other.1 hb).isBlack_eq hw]; rfl
  have hg : T.child s b = g := by rw [hb.child_eq.1, ptr, PTree.root_nodeAt]
  have h₁ := (hb.setColor_child .black).setColor .red
  rw [← PTree.nodeAt_other s b, ← PTree.nodeAt_other s g] at h₁
  have h₂ := h₁.rotate.1
  rw [PTree.nodeAt_other, PTree.nodeAt_other] at h₂
  have h₃ := At.focus_other.2 h₂
  refine ⟨_, ?_, by simp, h₃⟩
  unfold rbtDeleteInner
  simp only [hwb, if_true, hg]
  rw [h₃.child_eq.2, ptr, PTree.root_nodeAt]

/-- What a rotation at `a` restores when its child lacks one black node. -/
theorem balanced_rotated (hc : Hole (⟨s, a, ka, da, y⟩ :: c) .black (n + 1)) {x u : PTree Color α}
    (hx : Balanced x .black (n + 1)) (hu : Balanced u .black (n + 1)) :
    ∃ k m, Balanced (.nodeAt s b ka db x u) k m ∧ Hole c k m := by
  cases hc with
  | red _ hc => exact ⟨_, _, balanced_red.2 ⟨rfl, hx, hu⟩, hc⟩
  | black _ hc => exact ⟨_, _, balanced_black.2 ⟨rfl, _, _, _, rfl, hx, hu⟩, hc⟩

/-- A round whose brother is black and has a red child ends the repair. -/
theorem rbtDeleteBalance_rotate (h : At T (⟨s, a, ka, da, .nodeAt s b .black db y w⟩ :: c) t)
    (ht : Balanced t .black n) {ky : Color} (hy : Balanced y ky n) (hw : Balanced w kw n)
    (hred : ¬(ky = .black ∧ kw = .black))
    (hc : Hole (⟨s, a, ka, da, .nodeAt s b .black db y w⟩ :: c) .black (n + 1)) :
    ∃ T' t', rbtDeleteBalance s T a b = (T', T'.root) ∧ T'.num = T.num ∧ At T' c t' ∧
      (∃ k m, Balanced t' k m ∧ Hole c k m) ∧
      t'.toList = (PTree.nodeAt s a ka da t (.nodeAt s b .black db y w)).toList := by
  have h₀ := At.focus.2 h
  have hb := At.focus_other.1 h₀
  have hchild : T.child s b = T.ptr y ∧ T.child s.other b = T.ptr w := hb.child_eq
  have hty := (At.focus.1 hb).color_eq hy
  have htw := (At.focus_other.1 hb).color_eq hw
  have hif : ¬(T.isBlack (T.child .left b) = true ∧ T.isBlack (T.child .right b) = true) := by
    simp only [isBlack_eq_true]
    cases s with
    | left =>
      rw [show T.child .left b = _ from hchild.1, show T.child .right b = _ from hchild.2, hty, htw]
      exact hred
    | right =>
      rw [show T.child .left b = _ from hchild.2, show T.child .right b = _ from hchild.1, hty, htw]
      exact fun h' => hred ⟨h'.2, h'.1⟩
  unfold rbtDeleteBalance
  rw [if_neg hif]
  cases kw with
  | red =>
    obtain ⟨v, dv, w₁, w₂, rfl⟩ := hw.exists_red s
    obtain ⟨-, hw₁, hw₂⟩ := balanced_red.1 hw
    have hin : rbtDeleteInner s T a b = (T, b) := by
      unfold rbtDeleteInner
      rw [if_neg]
      rw [hchild.2, isBlack_eq_true, htw]; simp
    refine ⟨_, _, by rw [hin], by simp [rbtDeleteOuter], rbtDeleteOuter_spec h₀, ?_, ?_⟩
    · exact balanced_rotated hc (balanced_black.2 ⟨rfl, n, _, _, rfl, ht, hy⟩)
        (balanced_black.2 ⟨rfl, n, _, _, rfl, hw₁, hw₂⟩)
    · cases s <;> simp
  | black =>
    have hky : ky = .red := by
      cases ky with
      | red => rfl
      | black => exact absurd ⟨rfl, rfl⟩ hred
    subst hky
    obtain ⟨g, dg, y₁, y₂, rfl⟩ := hy.exists_red s
    obtain ⟨-, hy₁, hy₂⟩ := balanced_red.1 hy
    obtain ⟨T₁, hin, hnum, h₁⟩ := rbtDeleteInner_spec h₀ hw
    refine ⟨_, _, by rw [hin], by simp [rbtDeleteOuter, hnum], rbtDeleteOuter_spec h₁, ?_, ?_⟩
    · exact balanced_rotated hc (balanced_black.2 ⟨rfl, n, _, _, rfl, ht, hy₁⟩)
        (balanced_black.2 ⟨rfl, n, _, _, rfl, hy₂, hw⟩)
    · cases s <;> simp

/-- A round whose brother is black with black children makes the brother red. -/
theorem rbtDeleteBalance_recolor (h : At T (⟨s, a, ka, da, .nodeAt s b .black db y w⟩ :: c) t)
    (hy : Balanced y .black n) (hw : Balanced w .black n) :
    rbtDeleteBalance s T a b = (T.setColor b .red, a) ∧
      At (T.setColor b .red) c (.nodeAt s a ka da t (.nodeAt s b .red db y w)) := by
  have h₀ := At.focus.2 h
  have hb := At.focus_other.1 h₀
  have hchild : T.child s b = T.ptr y ∧ T.child s.other b = T.ptr w := hb.child_eq
  have hty := (At.focus.1 hb).color_eq hy
  have htw := (At.focus_other.1 hb).color_eq hw
  refine ⟨?_, h₀.setColor_child_other .red⟩
  unfold rbtDeleteBalance
  rw [if_pos]
  simp only [isBlack_eq_true]
  cases s with
  | left => rw [show T.child .left b = _ from hchild.1, show T.child .right b = _ from hchild.2, hty, htw]; simp
  | right => rw [show T.child .left b = _ from hchild.2, show T.child .right b = _ from hchild.1, hty, htw]; simp

end Round

/-! ## The fix-up -/

/-- The loop stops at a red node or at the root, and makes it black. -/
theorem rbtDeleteFixup_exit (h : At T c t) (ht : Balanced t k n) (hc : Hole c .black (n + 1))
    (hk : k = .red ∨ c = []) :
    ∃ T', rbtDeleteFixup (fuel + 1) T (T.ptr t) = some T' ∧ Restored T T' (Path.fill c t).toList := by
  have hif : ¬(T.isBlack (T.ptr t) = true ∧ T.root ≠ T.ptr t) := by
    rcases hk with rfl | rfl
    · rw [h.isBlack_eq ht]; simp
    · exact fun h' => h'.2 h.root_eq
  refine ⟨_, by rw [rbtDeleteFixup, if_neg hif], ?_⟩
  cases ht with
  | nil =>
    obtain rfl := hk.resolve_left (by simp)
    exact .of_at rfl h.setBlack_leaf .nil .root rfl
  | red hl hr =>
    refine .of_at rfl (At.setColor (s := .left) h .black) (.black hl hr) hc ?_
    rw [Path.toList_fill, Path.toList_fill]; rfl
  | black hl hr =>
    obtain rfl := hk.resolve_left (by simp)
    exact .of_at rfl (At.setColor (s := .left) h .black) (.black hl hr) .root rfl

/-- After a rotation the loop only passes by the root. -/
theorem rbtDeleteFixup_root (fuel : Nat) (h : At T c t) (ht : Balanced t k n) (hc : Hole c k n) :
    ∃ T', rbtDeleteFixup (fuel + 1) T T.root = some T' ∧ Restored T T' (Path.fill c t).toList := by
  obtain ⟨m, hm⟩ := hc.fill ht
  rw [h.whole.root_eq]
  exact rbtDeleteFixup_exit h.whole hm .root (.inr rfl)

section Fixup

variable {a b : Ptr} {ka : Color} {da db : α} {y w sib : PTree Color α}

/-- What the loop reads at a tree one black node short, below the root. -/
theorem read_short (h : At T (⟨s, a, ka, da, sib⟩ :: c) t) (hsib : Balanced sib k (n + 1)) :
    T.root ≠ T.ptr t ∧ T.sideOf a (T.ptr t) = s ∧ T.child s.other a = T.ptr sib := by
  refine ⟨h.root_ne, h.sideOf_eq (.inr ?_), h.frame_child.2⟩
  rintro h'
  change sib = .nil at h'
  subst h'
  cases hsib

/-- Below a red node with a black child at the other side, the rest of the round ends the repair. -/
theorem rbtDeleteBalance_red (fuel : Nat) (h : At T (⟨s, a, .red, da, .nodeAt s b .black db y w⟩ :: c) t)
    (ht : Balanced t .black n)
    (hc : Hole (⟨s, a, .red, da, .nodeAt s b .black db y w⟩ :: c) .black (n + 1)) :
    ∃ T', rbtDeleteFixup (fuel + 1) (rbtDeleteBalance s T a b).1 (rbtDeleteBalance s T a b).2 = some T' ∧
      Restored T T' (Path.fill c (.nodeAt s a .red da t (.nodeAt s b .black db y w))).toList := by
  obtain ⟨hsib, hc'⟩ : Balanced (.nodeAt s b .black db y w) .black (n + 1) ∧ Hole c .red (n + 1) := by
    cases hc with
    | red h1 h2 => exact ⟨h1, h2⟩
  obtain ⟨-, m, ky, kw, hm, hy, hw⟩ := balanced_black.1 hsib
  obtain rfl : n = m := by omega
  by_cases hblack : ky = .black ∧ kw = .black
  · obtain ⟨rfl, rfl⟩ := hblack
    obtain ⟨he, h₁⟩ := rbtDeleteBalance_recolor h hy hw
    have hif : ¬((T.setColor b .red).isBlack a = true ∧ (T.setColor b .red).root ≠ a) := by
      rw [isBlack_eq_true, h₁.tag_eq]; simp
    refine ⟨_, by rw [he, rbtDeleteFixup, if_neg hif], ?_⟩
    refine .of_at (n := n + 1) rfl (h₁.setColor .black) ?_ hc'.black_of ?_
    · exact balanced_black.2 ⟨rfl, n, _, _, rfl, ht, balanced_red.2 ⟨rfl, hy, hw⟩⟩
    · rw [Path.toList_fill, Path.toList_fill]
      cases s <;> simp
  · obtain ⟨T₁, t₁, he, hnum, h₁, ⟨k₁, m₁, hb₁, hc₁⟩, hl⟩ := rbtDeleteBalance_rotate h ht hy hw hblack hc
    obtain ⟨T', hT', hres⟩ := rbtDeleteFixup_root fuel h₁ hb₁ hc₁
    refine ⟨T', by rw [he]; exact hT', (hres.trans_num hnum).congr ?_⟩
    rw [Path.toList_fill, Path.toList_fill, hl]

/-- Cases 1 and 5: the red brother gives way to its inner child. -/
theorem rbtDeleteBrother_red (h : At T (⟨s, a, .black, da, .nodeAt s b .red db y w⟩ :: c) t) :
    ∃ T', rbtDeleteBrother s T a b = (T', T'.ptr y) ∧ T'.num = T.num ∧
      At T' (⟨s, a, .red, da, y⟩ :: ⟨s, b, .black, db, w⟩ :: c) t := by
  have h₀ := At.focus.2 h
  have hb : T.isRed b = true := by simp [isRed, (At.focus_other.1 h₀).tag_eq]
  have h₁ := ((h₀.setColor .red).setColor_child_other .black).rotate.1
  have h₂ := At.focus.1 (At.focus.1 h₁)
  refine ⟨_, ?_, by simp, h₂⟩
  unfold rbtDeleteBrother
  rw [if_pos hb]
  exact congrArg _ h₂.frame_child.2

theorem rbtDeleteBrother_black (h : (T.mem b).tag = .black) : rbtDeleteBrother s T a b = (T, b) := by
  simp [rbtDeleteBrother, isRed, h]

/-- The repair of a tree one black node short for its hole. The parent link is read from the cell
even where the tree is the sentinel. -/
theorem rbtDeleteFixup_spec : ∀ (fuel : Nat) {T : RbTree α} {c : Path Color α} {t : PTree Color α} {n : Nat}
    {k : Color}, At T c t → T.parent (T.ptr t) = Path.parent T.sentinel c → Balanced t k n →
    Hole c .black (n + 1) → c.length + 1 < fuel →
    ∃ T', rbtDeleteFixup fuel T (T.ptr t) = some T' ∧ Restored T T' (Path.fill c t).toList
  | 0, _, _, _, _, _, _, _, _, _, hf => by omega
  | fuel + 1, T, [], t, n, k, h, _, ht, hc, _ => rbtDeleteFixup_exit h ht hc (.inr rfl)
  | fuel + 1, T, f :: c, t, n, .red, h, _, ht, hc, _ => rbtDeleteFixup_exit h ht hc (.inl rfl)
  | fuel + 1, T, ⟨s, a, ka, da, sib⟩ :: c, t, n, .black, h, hp, ht, hc, hf => by
    simp only [List.length_cons] at hf
    obtain ⟨fuel, rfl⟩ : ∃ m, fuel = m + 1 := ⟨fuel - 1, by omega⟩
    obtain ⟨kb, hsib⟩ : ∃ kb, Balanced sib kb (n + 1) := by
      cases hc with
      | red h _ => exact ⟨_, h⟩
      | black h _ => exact ⟨_, h⟩
    obtain ⟨hroot, hside, hchild⟩ := read_short h hsib
    obtain ⟨b, db, y, w, rfl⟩ := hsib.exists_node s
    have hblack : T.isBlack (T.ptr t) = true := by rw [h.isBlack_eq ht]; rfl
    have hbtag : (T.mem b).tag = kb := (At.focus_other.1 (At.focus.2 h)).tag_eq
    rw [Path.parent_cons] at hp
    rw [ptr, PTree.root_nodeAt] at hchild
    have hround : rbtDeleteFixup (fuel + 2) T (T.ptr t) =
        let r := rbtDeleteBrother s T a b
        rbtDeleteFixup (fuel + 1) (rbtDeleteBalance s r.1 a r.2).1 (rbtDeleteBalance s r.1 a r.2).2 := by
      rw [rbtDeleteFixup, if_pos ⟨hblack, hroot⟩]
      simp only [hp, hside, hchild]
    rw [hround, Path.fill_cons]
    cases kb with
    | red =>
      obtain ⟨-, hy, hw⟩ := balanced_red.1 hsib
      obtain ⟨rfl, hc'⟩ : ka = .black ∧ Hole c .black (n + 2) := by
        cases hc with
        | red h' _ => cases s <;> cases h'
        | black _ h' => exact ⟨rfl, h'⟩
      obtain ⟨T₁, he, hnum, h₁⟩ := rbtDeleteBrother_red h
      obtain ⟨g, dg, y₁, y₂, rfl⟩ := hy.exists_node s
      obtain ⟨T', hT', hres⟩ := rbtDeleteBalance_red fuel h₁ ht (.red hy (.black hw hc'))
      refine ⟨T', by rw [he]; simpa [ptr] using hT', (hres.trans_num hnum).congr ?_⟩
      rw [Path.fill_cons, Path.toList_fill, Path.toList_fill]
      cases s <;> simp [Frame.fill]
    | black =>
      rw [rbtDeleteBrother_black hbtag]
      show ∃ T', rbtDeleteFixup (fuel + 1) (rbtDeleteBalance s T a b).1 (rbtDeleteBalance s T a b).2 =
        some T' ∧ _
      cases ka with
      | red => exact rbtDeleteBalance_red _ h ht hc
      | black =>
        have hc' : Hole c .black (n + 2) := by
          cases hc with
          | black _ hc' => exact hc'
        obtain ⟨-, m, ky, kw, hm, hy, hw⟩ := balanced_black.1 hsib
        obtain rfl : n = m := by omega
        by_cases hbb : ky = .black ∧ kw = .black
        · obtain ⟨rfl, rfl⟩ := hbb
          obtain ⟨he, h₁⟩ := rbtDeleteBalance_recolor h hy hw
          obtain ⟨T', hT', hres⟩ := rbtDeleteFixup_spec (fuel + 1) h₁
            (by rw [ptr, PTree.root_nodeAt]; exact h₁.parent_eq)
            (balanced_black.2 ⟨rfl, n, _, _, rfl, ht, balanced_red.2 ⟨rfl, hy, hw⟩⟩) hc' (by omega)
          have hres' : Restored T T' _ := hres.trans_num rfl
          refine ⟨T', by rw [he]; simpa [ptr] using hT', hres'.congr ?_⟩
          rw [Path.toList_fill, Path.toList_fill]
          cases s <;> simp [Frame.fill]
        · obtain ⟨T₁, t₁, he, hnum, h₁, ⟨k₁, m₁, hb₁, hc₁⟩, hl⟩ :=
            rbtDeleteBalance_rotate h ht hy hw hbb hc
          obtain ⟨T', hT', hres⟩ := rbtDeleteFixup_root fuel h₁ hb₁ hc₁
          refine ⟨T', by rw [he]; exact hT', (hres.trans_num hnum).congr ?_⟩
          rw [Path.toList_fill, Path.toList_fill, hl]
          rfl

end Fixup

/-! ## Taking a node out -/

section Splice

variable {f : Frame Color α} {a : Ptr} {d : α} {x : PTree Color α}

/-- `refer` takes the place of the node below its parent. -/
theorem At.splice_child (h : At T (f :: c) (.nodeAt s a k d .nil x)) :
    let T' := (T.setParent (T.ptr x) f.addr).rbtReplaceChild f.addr a (T.ptr x)
    At T' (f :: c) x ∧ T'.parent (T.ptr x) = f.addr ∧
      ∀ q, (T'.mem q).tag = (T.mem q).tag ∧ (T'.mem q).data = (T.mem q).data := by
  intro T'
  obtain ⟨hn, ha, -⟩ := h.splice_addrs
  have hx := x.root_mem T.sentinel
  have hf := h.frame_ne
  simp only [Path.addrs, List.nodup_cons, List.nodup_append, List.mem_cons, List.mem_append, not_or] at hn
  have hfx : f.addr ≠ x.root T.sentinel := by grind
  have hside : (T.setParent (T.ptr x) f.addr).sideOf f.addr a = f.side := by
    have := h.sideOf_eq (.inl (by cases s <;> simp))
    rw [ptr, PTree.root_nodeAt] at this
    rw [setParent_sideOf, this]
  have hmem : T'.mem = (T.mem.setParent (x.root T.sentinel) f.addr).setChild f.side f.addr
      (x.root T.sentinel) := by
    simp only [T', rbtReplaceChild, hside]; rfl
  have hMf : T'.mem f.addr = (T.mem f.addr).withChild f.side (x.root T.sentinel) := by
    rw [hmem]; simp [Mem.setChild, Mem.setParent, hfx]
  have hMx : T'.mem (x.root T.sentinel) = (T.mem (x.root T.sentinel)).withParent f.addr := by
    rw [hmem]; simp [Mem.setChild, Mem.setParent, hfx.symm]
  have hMo : ∀ v, v ≠ x.root T.sentinel → v ≠ f.addr → T'.mem v = T.mem v := by
    intro v h1 h2
    rw [hmem]; simp [Mem.setChild, Mem.setParent, h1, h2]
  have htag : ∀ q, (T'.mem q).tag = (T.mem q).tag ∧ (T'.mem q).data = (T.mem q).data := by
    intro q
    by_cases h1 : q = f.addr
    · rw [h1, hMf]; simp
    · by_cases h2 : q = x.root T.sentinel
      · rw [h2, hMx]; simp
      · rw [hMo q h2 h1]; exact ⟨rfl, rfl⟩
  have hstored := (stored_nodeAt.1 h.rep.tree).2.2
  refine ⟨⟨⟨h.rep.relink ?_ h.splice_addrs.1 ⟨rfl, hMf⟩ fun v hv hne => hMo v ?_ hne,
    fun p hp => h.fresh p ?_⟩, ?_⟩, ?_, htag⟩
  · refine hstored.reparent hn.2.1 (fun _ => hMx) (fun v hv hne => hMo v hne ?_) hn.1.1
    exact fun he => hn.2.2.2 v hv f.addr (.inl rfl) he
  · simp only [Path.addrs, List.mem_cons, List.mem_append] at hv
    grind
  · simp only [PTree.mem_addrs_nodeAt]
    tauto
  · exact (htag _).1.trans h.leaf
  · show (T'.mem (x.root T.sentinel)).parent = f.addr
    rw [hMx]; rfl

/-- `refer` becomes the root. -/
theorem At.splice_root (h : At T [] (.nodeAt s a k d .nil x)) :
    let T' := { T.setParent (T.ptr x) T.sentinel with root := T.ptr x }
    At T' [] x ∧ T'.parent (T.ptr x) = T.sentinel ∧
      ∀ q, (T'.mem q).tag = (T.mem q).tag ∧ (T'.mem q).data = (T.mem q).data := by
  intro T'
  obtain ⟨hn, ha, -⟩ := h.splice_addrs
  simp only [Path.addrs, List.append_nil, List.nodup_cons] at hn
  have hMx : T'.mem (x.root T.sentinel) = (T.mem (x.root T.sentinel)).withParent T.sentinel := by
    simp [T', RbTree.setParent, Mem.setParent]
  have hMo : ∀ v, v ≠ x.root T.sentinel → T'.mem v = T.mem v := by
    intro v h1
    simp [T', RbTree.setParent, Mem.setParent, h1]
  have htag : ∀ q, (T'.mem q).tag = (T.mem q).tag ∧ (T'.mem q).data = (T.mem q).data := by
    intro q
    by_cases h2 : q = x.root T.sentinel
    · rw [h2, hMx]; simp
    · rw [hMo q h2]; exact ⟨rfl, rfl⟩
  have hstored := (stored_nodeAt.1 h.rep.tree).2.2
  refine ⟨⟨⟨⟨rfl, ?_, h.splice_addrs.1⟩, fun p hp => h.fresh p ?_⟩, (htag _).1.trans h.leaf⟩, ?_, htag⟩
  · exact hstored.reparent hn.2 (fun _ => hMx) (fun v _ hne => hMo v hne) hn.1
  · simp only [PTree.mem_addrs_nodeAt]
    tauto
  · show (T'.mem (x.root T.sentinel)).parent = T.sentinel
    rw [hMx]; rfl

/-- Freeing the node taken out, and making up for it if it was black. -/
theorem rbtDeleteDone_spec (h : At T c x) (hp : T.parent (T.ptr x) = Path.parent T.sentinel c)
    (ha : a ≠ T.sentinel) (hac : a ∉ x.addrs ++ Path.addrs c) (hk : (T.mem a).tag = k)
    (ht : Balanced (.nodeAt s a k d .nil x) k n) (hc : Hole c k n) (hf : c.length ≤ T.num) :
    ∃ T', T.rbtDeleteDone a (T.ptr x) = some T' ∧ Restored T T' (Path.fill c x).toList := by
  have hd := h.dealloc ha hac
  unfold rbtDeleteDone
  cases k with
  | red =>
    obtain ⟨-, hnil, hx⟩ := balanced_red.1 ht
    exact ⟨_, if_pos (by simp [isRed, hk]), .of_at rfl hd hx hc.black_of rfl⟩
  | black =>
    obtain ⟨-, m, ky, kx, rfl, hnil, hx⟩ := balanced_black.1 ht
    rw [if_neg (by simp [isRed, hk])]
    have hxa : T.ptr x ≠ a := x.root_ne (Ne.symm ha) (fun h' => hac (by simp [h']))
    obtain ⟨T', hT', hres⟩ := rbtDeleteFixup_spec (T.num + 3) hd
      (by simpa [parent, RbTree.dealloc, hxa] using hp) hx hc (by omega)
    exact ⟨T', hT', hres.trans_num rfl⟩

/-- Cases 1 and 2: one child of the node is the sentinel. -/
theorem rbtDeleteSingle_spec (h : At T c (.nodeAt s a k d .nil x)) (ht : Balanced (.nodeAt s a k d .nil x) k n)
    (hc : Hole c k n) (hf : c.length ≤ T.num) :
    ∃ T', T.rbtDeleteSingle a (T.ptr x) = some T' ∧ Restored T T' (Path.fill c x).toList := by
  obtain ⟨-, ha, hac⟩ := h.splice_addrs
  have hk := h.tag_eq
  unfold rbtDeleteSingle
  simp only [h.parent_eq, setParent_sentinel]
  cases c with
  | nil =>
    obtain ⟨h₁, h₂, h₃⟩ := h.splice_root
    rw [if_pos (by simp)]
    obtain ⟨T', hT', hres⟩ := rbtDeleteDone_spec h₁ h₂ ha hac ((h₃ a).1.trans hk) ht hc hf
    exact ⟨T', hT', hres.trans_num rfl⟩
  | cons f c =>
    obtain ⟨h₁, h₂, h₃⟩ := h.splice_child
    rw [if_neg h.parent_ne]
    obtain ⟨T', hT', hres⟩ := rbtDeleteDone_spec h₁ h₂ ha hac ((h₃ a).1.trans hk) ht hc hf
    exact ⟨T', hT', hres.trans_num rfl⟩

/-- The way down to the leftmost node. -/
theorem rbtLeftmost_spec : ∀ (fuel : Nat) {t : PTree Color α} {c : Path Color α}, At T c t → t ≠ .nil →
    t.height < fuel → ∃ c' p kp dp x, t = Path.fill c' (.node p kp dp .nil x) ∧ Path.before c' = [] ∧
      rbtLeftmost fuel T (T.ptr t) = some p
  | 0, _, _, _, _, hf => by omega
  | _ + 1, .nil, _, _, hne, _ => absurd rfl hne
  | fuel + 1, .node a k d l r, c, h, _, hf => by
    simp only [PTree.height] at hf
    have hl : T.child .left a = T.ptr l := (At.child_eq (s := .left) h).1
    have hL : At T (⟨.left, a, k, d, r⟩ :: c) l := At.focus (s := .left).1 h
    rw [rbtLeftmost, ptr, PTree.root_node, hl]
    cases l with
    | nil => exact ⟨[], a, k, d, r, rfl, rfl, by simp⟩
    | node b kb db l₁ l₂ =>
      obtain ⟨c', p, kp, dp, x, he, hb, hm⟩ := rbtLeftmost_spec fuel hL (by simp) (by omega)
      refine ⟨c' ++ [⟨.left, a, k, d, r⟩], p, kp, dp, x, ?_, ?_, ?_⟩
      · rw [Path.fill_append, ← he]; rfl
      · rw [Path.before_append, hb]; simp [Path.before]
      · rw [if_pos (fun h' => by simpa using hL.ptr_eq_sentinel.1 h')]; exact hm

/-- Case 3, `next` being the node at the end of the path `c'` below the right child. -/
theorem rbtDeleteNext_spec {l : PTree Color α} {c' : Path Color α} {p : Ptr} {kp : Color} {dp : α}
    (h : At T (c' ++ ⟨.right, a, k, d, l⟩ :: c) (.node p kp dp .nil x))
    (ht : Balanced (.node p kp dp .nil x) kp n) (hc : Hole (c' ++ ⟨.right, a, k, d, l⟩ :: c) kp n)
    (hf : (c' ++ ⟨.right, a, k, d, l⟩ :: c).length ≤ T.num) :
    ∃ T', T.rbtDeleteNext a p = some T' ∧
      Restored T T' (Path.fill (c' ++ ⟨.right, a, k, dp, l⟩ :: c) x).toList := by
  obtain ⟨-, hz, hpc⟩ := Hung.splice_addrs (s := .left) h.toHung
  have hk : (T.mem p).tag = kp := At.tag_eq (s := .left) h
  have hdata : (T.mem p).data = some dp := by
    rw [show T.mem p = _ from Rep.cell (s := .left) h.rep]; rfl
  have hright : T.child .right p = T.ptr x := (At.child_eq (s := .left) h).2
  have hparent : T.parent p = _ := At.parent_eq (s := .left) h
  obtain ⟨f, c'', hfc⟩ : ∃ f c'', c' ++ ⟨.right, a, k, d, l⟩ :: c = f :: c'' := by
    cases c' <;> exact ⟨_, _, rfl⟩
  rw [hfc] at h hparent
  obtain ⟨h₁, h₂, h₃⟩ := At.splice_child (s := .left) h
  rw [← hfc] at h₁
  have h₄ := At.focus_path.1 (At.focus.1 ((At.focus.2 (At.focus_path.2 h₁)).setData dp))
  unfold rbtDeleteNext
  simp only [hright, hparent, Path.parent_cons]
  rw [(h₃ p).2, hdata]
  obtain ⟨T', hT', hres⟩ := rbtDeleteDone_spec (s := .left) h₄ (by
      rw [setData_parent]
      refine h₂.trans ?_
      have : Path.parent T.sentinel (c' ++ ⟨.right, a, k, dp, l⟩ :: c) =
          Path.parent T.sentinel (c' ++ ⟨.right, a, k, d, l⟩ :: c) := by cases c' <;> rfl
      exact (this.trans (by rw [hfc]; rfl)).symm) hz
    (by simpa [Path.addrs_append, Path.addrs] using hpc)
    (by
      have := setData_isRed ((T.setParent (T.ptr x) f.addr).rbtReplaceChild f.addr p (T.ptr x)) a p (some dp)
      simp only [isRed, (h₃ p).1, hk] at this
      revert this
      generalize (RbTree.mem _ _).tag = q
      cases q <;> cases kp <;> simp)
    ht hc.withData (by simpa using hf)
  exact ⟨T', hT', hres.trans_num rfl⟩

end Splice

/-! ## `rbt_delete` -/

/-- The node at the focus is taken out of the order, whatever its children. -/
theorem rbtDeleteNode_spec {a : Ptr} {d : α} {l r : PTree Color α} (h : At T c (.node a k d l r))
    (ht : Balanced (.node a k d l r) k n) (hc : Hole c k n)
    (hf : (Path.fill c (.node a k d l r)).toList.length ≤ T.num + 1) :
    ∃ T', T.rbtDeleteNode a = some T' ∧
      Restored T T' (Path.before c ++ (l.toList ++ r.toList) ++ Path.after c) := by
  obtain ⟨hl, hr⟩ : T.child .left a = T.ptr l ∧ T.child .right a = T.ptr r := At.child_eq (s := .left) h
  have hL : At T (⟨.left, a, k, d, r⟩ :: c) l := At.focus (s := .left).1 h
  have hR : At T (⟨.right, a, k, d, l⟩ :: c) r := At.focus (s := .right).1 h
  have hdepth := Path.length_add_height c (.node a k d l r)
  have hheight := (Path.fill c (.node a k d l r)).height_le_length
  simp only [PTree.height] at hdepth
  unfold rbtDeleteNode
  rw [hl, hr]
  by_cases hln : T.sentinel = T.ptr l
  · obtain rfl := hL.ptr_eq_sentinel.1 hln
    rw [if_pos hln]
    obtain ⟨T', hT', hres⟩ := rbtDeleteSingle_spec (s := .left) h ht hc (by omega)
    exact ⟨T', hT', hres.congr (by rw [Path.toList_fill]; simp)⟩
  rw [if_neg hln]
  by_cases hrn : T.sentinel = T.ptr r
  · obtain rfl := hR.ptr_eq_sentinel.1 hrn
    rw [if_pos hrn]
    obtain ⟨T', hT', hres⟩ := rbtDeleteSingle_spec (s := .right) h ht hc (by omega)
    exact ⟨T', hT', hres.congr (by rw [Path.toList_fill]; simp)⟩
  rw [if_neg hrn]
  obtain ⟨c', p, kp, dp, x, rfl, hb, hm⟩ := rbtLeftmost_spec (T.num + 1) hR
    (fun h' => hrn (hR.ptr_eq_sentinel.2 h')) (by omega)
  have hp := At.focus_path.1 hR
  obtain ⟨n', hwhole⟩ := hc.fill ht
  obtain ⟨kp', m, hkp, hcp⟩ := Balanced.hole (c := c' ++ ⟨.right, a, k, d, l⟩ :: c)
    (t := .node p kp dp .nil x) (by rw [Path.fill_append]; exact hwhole)
  have hlen := Path.length_add_height (c' ++ ⟨.right, a, k, d, l⟩ :: c) (.node p kp dp .nil x)
  rw [Path.fill_append] at hlen
  change _ ≤ (Path.fill c (.node a k d l (Path.fill c' (.node p kp dp .nil x)))).height at hlen
  simp only [PTree.height] at hlen
  obtain rfl : kp = kp' := by
    cases kp with
    | red => exact (balanced_red (s := .left).1 hkp).1.symm
    | black => exact (balanced_black (s := .left).1 hkp).1.symm
  obtain ⟨T', hT', hres⟩ := rbtDeleteNext_spec hp hkp hcp (by omega)
  refine ⟨T', by rw [hm]; exact hT', hres.congr ?_⟩
  rw [Path.toList_fill, Path.before_append, Path.after_append, Path.toList_fill, hb]
  simp [Path.before, Path.after]

section Delete

variable {ck : α → Int}

/-- The search ends where the descent ends. -/
theorem rbtDeleteLoop_eq : ∀ (fuel : Nat) {t : PTree Color α} {c : Path Color α}, At T c t → t.height < fuel →
    rbtDeleteLoop ck fuel T (T.ptr t) = match (descend ck t c).2 with
      | .nil => some (T, none)
      | .node a _ d _ _ => ({ T with num := T.num - 1 }.rbtDeleteNode a).map (·, some d)
  | 0, _, _, _, hf => by omega
  | fuel + 1, .nil, _, _, _ => by simp [rbtDeleteLoop, descend]
  | fuel + 1, .node a k d l r, c, h, hf => by
    obtain ⟨hz, hcmp, hl, hr, hdata⟩ := h.read_node ck
    simp only [PTree.height] at hf
    rw [rbtDeleteLoop, descend]
    simp only [ptr, PTree.root_node, if_neg hz, hcmp]
    by_cases h0 : ck d = 0
    · simp [h0, hdata]
    rw [if_neg h0, if_neg h0]
    by_cases hlt : ck d < 0
    · rw [if_pos hlt, if_pos hlt, hl]
      exact rbtDeleteLoop_eq _ (At.focus (s := .left).1 h) (by omega)
    · rw [if_neg hlt, if_neg hlt, hr]
      exact rbtDeleteLoop_eq _ (At.focus (s := .right).1 h) (by omega)

theorem rbtDelete_eq (h : Wf T t) : T.rbtDelete ck = match (descend ck t []).2 with
      | .nil => some (T, none)
      | .node a _ d _ _ => ({ T with num := T.num - 1 }.rbtDeleteNode a).map (·, some d) := by
  have hheight := t.height_le_length
  have hnum := h.num
  have hfuel : t.height < T.num + 1 := by omega
  rw [← rbtDeleteLoop_eq _ h.at_ hfuel, ← h.at_.root_eq, rbtDelete]

theorem rbtDelete_none (h : Wf T t) (hx : findBy ck t.toList = none) : T.rbtDelete ck = some (T, none) := by
  rw [rbtDelete_eq h, descend_none hx]

/-- The element found is taken out, and answered. -/
theorem rbtDelete_some (h : Wf T t) (hs : Splits ck t.toList) {x : α} (hx : findBy ck t.toList = some x) :
    ∃ T', T.rbtDelete ck = some (T', some x) ∧ ∃ t', Wf T' t' ∧ t'.toList = eraseBy ck t.toList := by
  rw [rbtDelete_eq h]
  have hfill := descend_fill ck t []
  rcases he : descend ck t [] with ⟨c, _ | ⟨a, k, d, l, r⟩⟩ <;> rw [he] at hfill
  · have := (descend_leaf hs he x).1
    rw [hx] at this; cases this
  obtain ⟨hd, hl⟩ := descend_node hs he
  obtain rfl : x = d := by rw [hx] at hd; exact Option.some.inj hd
  simp only [Path.fill_nil] at hfill
  have hat := h.at_.descend ck
  rw [he] at hat
  obtain ⟨k', m, hk, hc⟩ := Balanced.hole (show Balanced (Path.fill c (.node a k x l r)) .black _ by
    rw [hfill]; exact h.bal.choose_spec)
  obtain rfl : k = k' := by
    cases k with
    | red => exact (balanced_red (s := .left).1 hk).1.symm
    | black => exact (balanced_black (s := .left).1 hk).1.symm
  have hlen : t.toList.length = (eraseBy ck t.toList).length + 1 := by
    rw [hl, ← hfill, Path.toList_fill]
    simp only [PTree.toList_node, List.length_append, List.length_cons]
    omega
  have hnum := h.num
  obtain ⟨T', hT', hres⟩ := rbtDeleteNode_spec (T := { T with num := T.num - 1 }) ⟨hat.toHung, hat.leaf⟩
    hk hc (by rw [hfill]; show _ ≤ T.num - 1 + 1; omega)
  rw [← hl] at hres
  exact ⟨T', congrArg (Option.map _) hT', hres.wf (by show T.num - 1 = _; omega)⟩

/-! ## `rbt_query` -/

theorem rbtQueryLoop_eq : ∀ (fuel : Nat) {t : PTree Color α} {c : Path Color α}, At T c t → t.height < fuel →
    rbtQueryLoop ck fuel T (T.ptr t) = some (match (descend ck t c).2 with
      | .nil => none
      | .node a _ _ _ _ => some a)
  | 0, _, _, _, hf => by omega
  | fuel + 1, .nil, _, _, _ => by simp [rbtQueryLoop, descend]
  | fuel + 1, .node a k d l r, c, h, hf => by
    obtain ⟨hz, hcmp, hl, hr, -⟩ := h.read_node ck
    simp only [PTree.height] at hf
    rw [rbtQueryLoop, descend]
    simp only [ptr, PTree.root_node, if_neg hz, hcmp]
    by_cases h0 : ck d = 0
    · simp [h0]
    rw [if_neg h0, if_neg h0]
    by_cases hlt : ck d < 0
    · rw [if_pos hlt, if_pos hlt, hl]
      exact rbtQueryLoop_eq _ (At.focus (s := .left).1 h) (by omega)
    · rw [if_neg hlt, if_neg hlt, hr]
      exact rbtQueryLoop_eq _ (At.focus (s := .right).1 h) (by omega)

/-- Without an order among the keys a query answers what the search meets. -/
theorem rbtQuery_eq (h : Wf T t) : T.rbtQuery ck = some (meetBy ck t) := by
  have hheight := t.height_le_length
  have hnum := h.num
  have hfuel : t.height < T.num + 1 := by omega
  have hmeet := meetBy_descend ck t []
  rw [rbtQuery, h.at_.root_eq, rbtQueryLoop_eq _ h.at_ hfuel]
  have hat := h.at_.descend ck
  rcases he : descend ck t [] with ⟨c, _ | ⟨a, k, d, l, r⟩⟩ <;> rw [he] at hat hmeet <;> rw [hmeet]
  · rfl
  · simp [(hat.read_node ck).2.2.2.2]

theorem rbtQuery_none (h : Wf T t) (hx : findBy ck t.toList = none) : T.rbtQuery ck = some none := by
  rw [rbtQuery_eq h, meetBy_none (findBy_eq_none.1 hx)]

/-- A query answers the element the probe finds. -/
theorem rbtQuery_spec (h : Wf T t) (hs : Splits ck t.toList) : T.rbtQuery ck = some (findBy ck t.toList) := by
  rw [rbtQuery_eq h, meetBy_eq hs]

end Delete

end BeehiveIm.Core.RbTree
