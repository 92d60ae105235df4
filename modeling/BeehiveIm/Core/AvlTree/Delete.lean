/-
`avl_delete` on an AVL tree, by induction on the subtree the recursion goes down into. `lower` tells
the parent that the subtree has lost a level.
-/
import BeehiveIm.Core.AvlTree.Insert

namespace BeehiveIm.Core.AvlTree

open BeehiveIm.Lib

variable {α : Type} {T : AvlTree α} {c : Path Int α} {s : Side} {a : Ptr} {k : Int} {d e : α}
  {t x y : PTree Int α} {f : Frame Int α} {lower : Bool}

/-! ## Taking a node out -/

/-- A node with one child gives way to it. -/
theorem At.splice (h : At T c (.nodeAt s a k d .nil x)) :
    At ((T.avlReplaceChild (Path.parent null c) a (ptr x)).dealloc a) c x := by
  obtain ⟨hn, ha, hac⟩ := h.splice_addrs
  have hx := x.root_mem null
  have hP := Path.parent_mem null c
  simp only [List.nodup_cons, List.nodup_append, List.mem_append, not_or] at hn
  have hxc : ptr x ∉ Path.addrs c := by
    intro hm
    rcases hx with hx | hx
    · exact hn.1.2 (by rw [← hx]; exact hm)
    · exact hn.2.2.2 _ hx _ hm rfl
  obtain ⟨root', m, hT, hlink, hmx, hmo⟩ := avlReplaceChild_spec (m := T.mem) h hxc fun _ _ => rfl
  rw [show T.avlReplaceChild _ _ _ = _ from hT]
  have hstored := (stored_nodeAt.1 h.rep.tree).2.2
  have hrep : Rep m null root' c x := by
    refine h.rep.relink ?_ h.splice_addrs.1 hlink fun v hv hne => hmo v (.inl hne) (.inl ?_)
    · refine hstored.reparent hn.2.1 (fun hz => hmx hz) (fun v hv hne => hmo v (.inl ?_) (.inl hne)) hn.1.1
      rintro rfl
      rcases hP with hP | hP
      · exact hn.1.1 (by rw [← hP]; exact hv)
      · exact hn.2.2.2 _ hv _ hP rfl
    · rintro rfl; exact hxc hv
  have hhung : Hung m null root' T.next c x := by
    refine ⟨hrep, fun p hp => h.fresh p ?_⟩
    simp only [PTree.mem_addrs_nodeAt]
    tauto
  exact hhung.update hac _

/-- Below a parent the link is written by `avl_set_lchild` or `avl_set_rchild`. -/
theorem At.splice_frame (h : At T (f :: c) (.nodeAt s a k d .nil x)) :
    At ((T.avlSetChild f.addr f.side (ptr x)).dealloc a) (f :: c) x := by
  have hch := At.frame_child h
  have hne := h.root_ne_sib (.inl (by cases s <;> simp))
  rw [ptr, PTree.root_nodeAt] at hch
  rw [PTree.root_nodeAt] at hne
  rw [← avlReplaceChild_frame h.frame_ne hch.1 (by rw [hch.2]; exact Ne.symm hne)]
  exact At.splice h

/-! ## The way back up -/

/-- What a call leaves that takes an element out of a subtree of the given height. -/
structure Shrunk (T' : AvlTree α) (c : Path Int α) (num height : Nat) (l : List α) (lower : Bool)
    (t' : PTree Int α) : Prop where
  at_ : At T' c t'
  num_eq : T'.num = num
  bal : Avl t'
  height_eq : t'.height + lower.toNat = height
  list : t'.toList = l

/-- The caller's part: the subtree at side `s` has become `x`, of height one less if `lower` says
so. -/
theorem Shrunk.up {x₀ : PTree Int α} {num : Nat} {l : List α}
    (h : Shrunk T (⟨s, a, k, e, y⟩ :: c) num x₀.height l lower x) (hbal : Avl (.nodeAt s a k e x₀ y)) :
    ∃ T' t' lower', (if lower = true then avlDeleteBalance s T a lower else (T, lower)) = (T', lower') ∧
      Shrunk T' c num (PTree.nodeAt s a k e x₀ y).height (PTree.nodeAt s a k e x y).toList lower' t' := by
  obtain ⟨-, hy, hk⟩ := avl_nodeAt.1 hbal
  have hat := Hung.focus.2 h.at_
  have hh := h.height_eq
  cases lower with
  | false =>
    simp only [Bool.toNat_false, Nat.add_zero] at hh
    refine ⟨T, _, false, rfl, hat, h.num_eq, avl_nodeAt.2 ⟨h.bal, hy, ?_⟩, ?_, rfl⟩
    · rw [hh]; exact hk
    · simp [height_nodeAt, hh]
  | true =>
    simp only [Bool.toNat_true] at hh
    obtain ⟨T', t', lower', hT', hat', hnum, hbal', hheight, hl⟩ :=
      avlDeleteBalance_spec true hat h.bal hy (by omega)
    refine ⟨T', t', lower', by simpa using hT', hat', hnum.trans h.num_eq, hbal', ?_, hl⟩
    rw [hheight, height_nodeAt, hh]

/-! ## The predecessor -/

/-- The last element below `t` moves up to `node`, whose left subtree holds `t`. -/
theorem avlReplaceAndDelete_spec (lower : Bool) {node : Ptr} {r : PTree Int α} :
    ∀ (fuel : Nat) {T : AvlTree α} {c' : Path Int α} {t : PTree Int α},
      At T (c' ++ ⟨.left, node, k, d, r⟩ :: c) t → (∀ g ∈ c', g.side = .right) → Avl t → t ≠ .nil →
      t.height ≤ fuel → ∃ T' t' lower' dp, avlReplaceAndDelete node fuel T (ptr t) lower = some (T', lower') ∧
        t'.toList ++ [dp] = t.toList ∧
        Shrunk T' (c' ++ ⟨.left, node, k, dp, r⟩ :: c) T.num t.height t'.toList lower' t'
  | _, _, _, .nil, _, _, _, hne, _ => absurd rfl hne
  | 0, _, _, .node _ _ _ _ _, _, _, _, _, hf => by simp [PTree.height] at hf
  | fuel + 1, T, c', .node p kp dp lp rp, h, hside, hbal, _, hf => by
    obtain ⟨-, -, -, hr, hdata⟩ := h.read_node fun _ => 0
    have hR : At T (⟨.right, p, kp, dp, lp⟩ :: (c' ++ ⟨.left, node, k, d, r⟩ :: c)) rp :=
      Hung.focus (s := .right).1 h
    simp only [PTree.height] at hf
    rw [avlReplaceAndDelete, ptr, PTree.root_node, hr]
    by_cases hnil : rp = .nil
    · subst hnil
      rw [if_pos (by simp)]
      -- the payload moves up first
      have h₁ : At (T.setData node (some dp)) (c' ++ ⟨.left, node, k, dp, r⟩ :: c) (.node p kp dp lp .nil) :=
        Hung.focus_path.1 (Hung.focus.1 ((Hung.focus.2 (Hung.focus_path.2 h)).setData dp))
      obtain ⟨-, -, hl₁, -, -⟩ := h₁.read_node fun _ => 0
      have hp₁ := At.parent_eq (s := .left) h₁
      have hlink : ∃ f c₁, c' ++ ⟨.left, node, k, dp, r⟩ :: c = f :: c₁ ∧
          (if p = (T.setData node (some dp)).child .left node then
            (T.setData node (some dp)).avlSetChild node .left (ptr lp)
          else (T.setData node (some dp)).avlSetChild ((T.setData node (some dp)).parent p) .right (ptr lp)) =
          (T.setData node (some dp)).avlSetChild f.addr f.side (ptr lp) := by
        have hchild := (At.frame_child (Hung.focus_path.2 h₁)).1
        cases c' with
        | nil => exact ⟨_, _, rfl, if_pos hchild.symm⟩
        | cons g c' =>
          refine ⟨g, _, rfl, ?_⟩
          rw [if_neg, hp₁, hside g (by simp)]
          · rfl
          · rw [show (T.setData node (some dp)).child .left node = _ from hchild]
            intro he
            have hmem := Path.root_fill_mem null g c' (.node p kp dp lp .nil)
            replace he : p = PTree.root null _ := he
            rw [← he] at hmem
            refine (Hung.splice_addrs (s := .right) h₁).2.2 ?_
            rw [Path.addrs_append]
            simp only [List.mem_append]
            exact .inr (.inl hmem)
      obtain ⟨f, c₁, hfc, hlink⟩ := hlink
      have h₂ := h₁
      rw [hfc] at h₂
      have h₃ := At.splice_frame (s := .right) h₂
      rw [← hfc] at h₃
      refine ⟨_, lp, true, dp, ?_, by simp, h₃, ?_, hbal.2.2.1, ?_, rfl⟩
      · simp only [hdata, hl₁, hlink]
      · simp
      · simp [PTree.height]
    · have hroot : ptr rp ≠ null := fun h' => hnil (hR.root_eq_leaf.1 h')
      have hR' : At T ((⟨.right, p, kp, dp, lp⟩ :: c') ++ ⟨.left, node, k, d, r⟩ :: c) rp := hR
      have hside' : ∀ g ∈ (⟨.right, p, kp, dp, lp⟩ :: c' : Path Int α), g.side = .right := by simpa using hside
      rw [if_neg hroot]
      obtain ⟨T₁, t₁, lower₁, dl, hT₁, hl₁, hs₁⟩ :=
        avlReplaceAndDelete_spec lower fuel hR' hside' hbal.2.2.2 hnil (by omega)
      obtain ⟨T', t', lower', hT', hs'⟩ := hs₁.up (s := .right) hbal
      refine ⟨T', t', lower', dl, ?_, ?_, ?_⟩
      · rw [hT₁, ← hT']; rfl
      · rw [hs'.list, PTree.toList_node, ← hl₁]; simp
      · rw [← hs'.list] at hs'; exact hs'

/-! ## The search -/

/-- The node to be removed has been found at the focus. -/
theorem avlDeleteFound_spec (lower : Bool) {l r : PTree Int α} (h : At T c (.node a k e l r))
    (hbal : Avl (.node a k e l r)) (hf : (PTree.node a k e l r).height ≤ T.num) :
    ∃ T' t' lower', T.avlDeleteFound a lower = some (T', lower') ∧
      Shrunk T' c (T.num - 1) (PTree.node a k e l r).height (l.toList ++ r.toList) lower' t' := by
  have h₀ : At { T with num := T.num - 1 } c (.node a k e l r) := h
  obtain ⟨-, -, hl, hr, -⟩ := h₀.read_node fun _ => 0
  have hp := At.parent_eq (s := .left) h₀
  simp only [PTree.height] at hf
  unfold avlDeleteFound
  simp only [hl, hr, hp]
  by_cases hrn : r = .nil
  · subst hrn
    rw [if_pos (by simp)]
    refine ⟨_, l, true, rfl, At.splice (s := .right) h₀, by simp, hbal.2.2.1, by simp [PTree.height], by simp⟩
  have hR := Hung.focus (s := .right).1 h₀
  rw [if_neg fun h' => hrn (hR.root_eq_leaf.1 h')]
  by_cases hln : l = .nil
  · subst hln
    rw [if_pos (by simp)]
    exact ⟨_, r, true, rfl, At.splice (s := .left) h₀, by simp, hbal.2.2.2, by simp [PTree.height], by simp⟩
  have hL := Hung.focus (s := .left).1 h₀
  rw [if_neg fun h' => hln (hL.root_eq_leaf.1 h')]
  have hL' : At { T with num := T.num - 1 } ([] ++ ⟨.left, a, k, e, r⟩ :: c) l := hL
  obtain ⟨T₁, l', lower₁, dp, hT₁, hlist, hs⟩ := avlReplaceAndDelete_spec lower (T.num - 1 + 1) hL'
    (by simp) hbal.2.2.1 hln (by omega)
  obtain ⟨T', t', lower', hT', hs'⟩ := hs.up (s := .left) (show Avl (.nodeAt .left a k dp l r) from hbal)
  refine ⟨T', t', lower', ?_, ?_⟩
  · rw [hT₁, ← hT']; rfl
  · have hl' : (PTree.nodeAt .left a k dp l' r).toList = l.toList ++ r.toList := by
      rw [← hlist]; simp
    rw [hl'] at hs'
    exact hs'

section Delete

variable {ck : α → Int}

/-- What `_avl_delete` answers at a subtree `t` of which it sees the root. -/
structure DeleteAt (ck : α → Int) (T : AvlTree α) (c : Path Int α) (t : PTree Int α)
    (r : Option (AvlTree α × Bool × Option α)) : Prop where
  absent : meetBy ck t = none → r = some (T, false, none)
  found : ∀ x, meetBy ck t = some x → ∃ T' t' lower', r = some (T', lower', some x) ∧
    Shrunk T' c (T.num - 1) t.height (dropBy ck t) lower' t'

/-- One level of the recursion, towards side `s`. -/
theorem avlDeleteSide_spec {delete : AvlTree α → Ptr → Bool → Option (AvlTree α × Bool × Option α)}
    (h : At T c (.nodeAt s a k e t y)) (hbal : Avl (.nodeAt s a k e t y)) (hto : Toward s (ck e))
    (hrec : t ≠ .nil → DeleteAt ck T (⟨s, a, k, e, y⟩ :: c) t (delete T (ptr t) false)) :
    DeleteAt ck T c (.nodeAt s a k e t y) (avlDeleteSide s delete T a false) := by
  rw [avlDeleteSide, h.child_eq.1]
  by_cases hnil : t = .nil
  · subst hnil
    rw [if_pos (by simp)]
    refine ⟨fun _ => rfl, fun x hx => ?_⟩
    rw [meetBy_toward hto] at hx; cases hx
  have hroot : ptr t ≠ null := fun h' => hnil ((Hung.focus.1 h).root_eq_leaf.1 h')
  have hr := hrec hnil
  rw [if_neg hroot]
  refine ⟨fun hx => ?_, fun x hx => ?_⟩ <;> rw [meetBy_toward hto] at hx
  · rw [hr.absent hx]; rfl
  obtain ⟨T₁, t₁, lower₁, hT₁, hs₁⟩ := hr.found x hx
  obtain ⟨T', t', lower', hT', hs'⟩ := hs₁.up hbal
  rw [dropBy_toward hto hs₁.list] at hs'
  refine ⟨T', t', lower', ?_, hs'⟩
  rw [hT₁]
  cases lower₁ with
  | false =>
    obtain ⟨rfl, rfl⟩ : T₁ = T' ∧ false = lower' := by simpa using hT'
    rfl
  | true => simp only [if_true] at hT' ⊢; rw [hT']

theorem avlDeleteNode_spec : ∀ (fuel : Nat) {T : AvlTree α} {c : Path Int α} {t : PTree Int α}, At T c t → Avl t →
    t ≠ .nil → t.height ≤ fuel → t.height ≤ T.num → DeleteAt ck T c t (avlDeleteNode ck fuel T (ptr t) false)
  | _, _, _, .nil, _, _, hne, _, _ => absurd rfl hne
  | 0, _, _, .node _ _ _ _ _, _, _, _, hf, _ => by simp [PTree.height] at hf
  | fuel + 1, T, c, .node a k e l r, h, hbal, _, hf, hn => by
    obtain ⟨-, hcmp, -, -, hdata⟩ := h.read_node ck
    have hn' := hn
    simp only [PTree.height] at hf hn'
    rw [ptr, PTree.root_node, avlDeleteNode]
    simp only [hcmp, hdata]
    have hl : l ≠ .nil → DeleteAt ck T (⟨.left, a, k, e, r⟩ :: c) l (avlDeleteNode ck fuel T (ptr l) false) :=
      fun hne => avlDeleteNode_spec fuel (Hung.focus (s := .left).1 h) hbal.2.2.1 hne (by omega) (by omega)
    have hr : r ≠ .nil → DeleteAt ck T (⟨.right, a, k, e, l⟩ :: c) r (avlDeleteNode ck fuel T (ptr r) false) :=
      fun hne => avlDeleteNode_spec fuel (Hung.focus (s := .right).1 h) hbal.2.2.2 hne (by omega) (by omega)
    by_cases hlt : ck e < 0
    · rw [if_pos hlt]
      exact avlDeleteSide_spec (s := .left) h hbal hlt hl
    rw [if_neg hlt]
    by_cases hgt : 0 < ck e
    · rw [if_pos hgt]
      exact avlDeleteSide_spec (s := .right) h hbal hgt hr
    rw [if_neg hgt]
    have h0 : ck e = 0 := by omega
    have hmet : meetBy ck (PTree.node a k e l r) = some e := by rw [meetBy, if_pos h0]
    refine ⟨fun hx => (by rw [hmet] at hx; cases hx), fun x hx => ?_⟩
    obtain rfl : e = x := by rw [hmet] at hx; exact Option.some.inj hx
    obtain ⟨T', t', lower', hT', hs'⟩ := avlDeleteFound_spec false h hbal hn
    refine ⟨T', t', lower', by rw [hT']; rfl, ?_⟩
    rw [dropBy, if_pos h0]
    exact hs'

/-! ## `avl_delete` -/

/-- Below a root, `avl_delete` is `_avl_delete`. -/
theorem avlDelete_eq (h : Wf T t) (hne : t ≠ .nil) :
    ∃ r, DeleteAt ck T [] t r ∧ T.avlDelete ck = r.map fun r => (r.1, r.2.2) := by
  have hheight := t.height_le_length
  have hnum := h.num
  have hroot : T.root ≠ null := by rw [h.at_.root_eq]; exact fun h' => hne (h.at_.root_eq_leaf.1 h')
  refine ⟨_, avlDeleteNode_spec (T.num + 1) h.at_ h.bal hne (by omega) (by omega), ?_⟩
  rw [avlDelete, if_neg hroot, h.at_.root_eq]

/-- A search that meets nothing takes nothing out. -/
theorem avlDelete_unmet (h : Wf T t) (hx : meetBy ck t = none) : T.avlDelete ck = some (T, none) := by
  by_cases hne : t = .nil
  · subst hne
    have hroot : T.root = null := h.at_.root_eq
    rw [avlDelete, if_pos hroot]
  · obtain ⟨r, hr, he⟩ := avlDelete_eq h hne
    rw [he, hr.absent hx]; rfl

/-- The element that the search meets is taken out, whatever the order. -/
theorem avlDelete_dropped (h : Wf T t) {x : α} (hx : meetBy ck t = some x) :
    ∃ T', T.avlDelete ck = some (T', some x) ∧ ∃ t', Wf T' t' ∧ t'.toList = dropBy ck t := by
  have hne : t ≠ .nil := by rintro rfl; cases hx
  obtain ⟨r, hr, he⟩ := avlDelete_eq h hne
  obtain ⟨T', t', lower', rfl, hs'⟩ := hr.found x hx
  refine ⟨T', by rw [he]; rfl, t', ⟨hs'.at_, hs'.bal, ?_⟩, hs'.list⟩
  have hlen := (dropBy_perm hx).2.length_eq
  rw [List.length_cons] at hlen
  rw [hs'.num_eq, hs'.list, h.num, hlen, Nat.add_sub_cancel]

theorem avlDelete_none (h : Wf T t) (hs : Splits ck t.toList) (hx : findBy ck t.toList = none) :
    T.avlDelete ck = some (T, none) := avlDelete_unmet h ((meetBy_eq hs).trans hx)

/-- The element found is taken out, and answered. -/
theorem avlDelete_some (h : Wf T t) (hs : Splits ck t.toList) {x : α} (hx : findBy ck t.toList = some x) :
    ∃ T', T.avlDelete ck = some (T', some x) ∧ ∃ t', Wf T' t' ∧ t'.toList = eraseBy ck t.toList := by
  have hmet := (meetBy_eq hs).trans hx
  rw [← dropBy_eq hs.atMostOne hmet]
  exact avlDelete_dropped h hmet

/-! ## `avl_query` -/

theorem avlQueryLoop_eq : ∀ (fuel : Nat) {t : PTree Int α} {c : Path Int α}, At T c t → t.height < fuel →
    avlQueryLoop ck fuel T (ptr t) = some (match (descend ck t c).2 with
      | .nil => none
      | .node a _ _ _ _ => some a)
  | 0, _, _, _, hf => by omega
  | fuel + 1, .nil, _, _, _ => by simp [avlQueryLoop, descend]
  | fuel + 1, .node a k d l r, c, h, hf => by
    obtain ⟨hz, hcmp, hl, hr, -⟩ := h.read_node ck
    simp only [PTree.height] at hf
    rw [avlQueryLoop, descend]
    simp only [ptr, PTree.root_node, if_neg hz, hcmp]
    by_cases h0 : ck d = 0
    · simp [h0]
    rw [if_neg h0, if_neg h0]
    by_cases hlt : ck d < 0
    · rw [if_pos hlt, if_pos hlt, hl]
      exact avlQueryLoop_eq _ (Hung.focus (s := .left).1 h) (by omega)
    · rw [if_neg hlt, if_neg hlt, hr]
      exact avlQueryLoop_eq _ (Hung.focus (s := .right).1 h) (by omega)

/-- Without an order among the keys a query answers what the search meets. -/
theorem avlQuery_eq (h : Wf T t) : T.avlQuery ck = some (meetBy ck t) := by
  have hheight := t.height_le_length
  have hnum := h.num
  have hfuel : t.height < T.num + 1 := by omega
  have hmeet := meetBy_descend ck t []
  rw [avlQuery, h.at_.root_eq, avlQueryLoop_eq _ h.at_ hfuel]
  have hat := h.at_.descend ck
  rcases he : descend ck t [] with ⟨c, _ | ⟨a, k, d, l, r⟩⟩ <;> rw [he] at hat hmeet <;> rw [hmeet]
  · rfl
  · simp [(At.read_node hat ck).2.2.2.2]

/-- A query answers the element the probe finds. -/
theorem avlQuery_spec (h : Wf T t) (hs : Splits ck t.toList) : T.avlQuery ck = some (findBy ck t.toList) := by
  rw [avlQuery_eq h, meetBy_eq hs]

end Delete

end BeehiveIm.Core.AvlTree
