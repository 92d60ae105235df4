/-
`rbt_insert` on a red-black tree. The fix-up starts with a red node in a hole that takes a black
one; each round either ends or moves the same situation two levels up.
-/
import BeehiveIm.Core.RbTree.Shape

namespace BeehiveIm.Core.RbTree

open BeehiveIm.Lib

variable {α : Type} {T : RbTree α} {c : Path Color α} {t : PTree Color α} {s : Side} {n fuel : Nat}

/-- `T'` is `T` brought back to a red-black tree, with the in-order list `l`. -/
structure Restored (T T' : RbTree α) (l : List α) : Prop where
  num : T'.num = T.num
  tree : ∃ t, At T' [] t ∧ (∃ n, Balanced t .black n) ∧ t.toList = l

theorem Restored.of_at {T' : RbTree α} {l : List α} {k : Color} (hnum : T'.num = T.num) (h : At T' c t)
    (ht : Balanced t k n) (hc : Hole c k n) (hl : (Path.fill c t).toList = l) : Restored T T' l :=
  ⟨hnum, _, h.whole, hc.fill ht, hl⟩

theorem Restored.trans_num {T₀ T' : RbTree α} {l : List α} (h : Restored T T' l) (hn : T.num = T₀.num) :
    Restored T₀ T' l := ⟨h.num.trans hn, h.tree⟩

theorem Restored.congr {T' : RbTree α} {l l' : List α} (h : Restored T T' l) (hl : l = l') :
    Restored T T' l' := hl ▸ h

/-! ## The fix-up -/

section Fixup

theorem rbtInsertFixup_of_black {p : Ptr} (h : T.isRed p = false) : rbtInsertFixup (fuel + 1) T p = some T := by
  simp [rbtInsertFixup, h]

theorem rbtInsertFixup_of_parent_black {p : Ptr} (h : T.isBlack (T.parent p) = true) :
    rbtInsertFixup (fuel + 1) T p = some T := by
  simp [rbtInsertFixup, h]

theorem isRed_eq_false {p : Ptr} : T.isRed p = false ↔ (T.mem p).tag = .black := by
  cases h : (T.mem p).tag <;> simp [isRed, h]

theorem isBlack_eq_true {p : Ptr} : T.isBlack p = true ↔ (T.mem p).tag = .black := by
  simp [isBlack]

theorem isBlack_eq_false {p : Ptr} : T.isBlack p = false ↔ (T.mem p).tag = .red := by
  cases h : (T.mem p).tag <;> simp [isBlack, h]

/-- Nothing is left to do above a tree that fits its hole. -/
theorem rbtInsertFixup_above (h : At T c t) (hc : Hole c .black n) :
    rbtInsertFixup (fuel + 1) T (Path.parent T.sentinel c) = some T := by
  cases hc with
  | root => exact rbtInsertFixup_of_black (isRed_eq_false.2 h.leaf)
  | black _ _ => exact rbtInsertFixup_of_black (isRed_eq_false.2 h.frame_tag)
  | red _ hc =>
    have h' := At.focus.2 h
    cases hc with
    | black _ _ =>
      refine rbtInsertFixup_of_parent_black (isBlack_eq_true.2 ?_)
      rw [Path.parent_cons, h'.parent_eq]
      exact h'.frame_tag

variable {a b g : Ptr} {db dg : α} {y u : PTree Color α}

/-- What the fix-up reads at a red node under a red parent. -/
theorem read_red_red {s' : Side} (h : At T (⟨s', b, .red, db, y⟩ :: ⟨s, g, .black, dg, u⟩ :: c) t)
    (ht : Balanced t .red n) :
    T.isRed (T.ptr t) = true ∧ T.parent (T.ptr t) = b ∧ T.isBlack b = false ∧ T.parent b = g ∧
      T.sideOf g b = s ∧ T.child s.other g = T.ptr u ∧ T.sideOf b (T.ptr t) = s' ∧
      T.parent g = Path.parent T.sentinel c := by
  have h₁ := At.focus.2 h
  have h₂ := At.focus.2 h₁
  have hne : t ≠ .nil := by rintro rfl; cases ht
  refine ⟨by rw [h.isRed_eq ht]; rfl, ?_, isBlack_eq_false.2 h.frame_tag, h.frame_parent, ?_, h₂.child_eq.2,
    h.sideOf_eq (.inl hne), h₂.parent_eq⟩
  · cases ht with
    | red _ _ => exact At.parent_eq (s := .left) h
  · have := h₁.sideOf_eq (.inl (by cases s' <;> simp))
    rwa [ptr, PTree.root_nodeAt] at this

/-- Case 2: the node is an outer grandchild; one rotation ends the repair. -/
theorem rbtInsertFixup_outer (fuel : Nat) (h : At T (⟨s, b, .red, db, y⟩ :: ⟨s, g, .black, dg, u⟩ :: c) t)
    (ht : Balanced t .red n) (hy : Balanced y .black n) (hu : Balanced u .black n)
    (hc : Hole c .black (n + 1)) :
    ∃ T', rbtInsertFixup (fuel + 2) T (T.ptr t) = some T' ∧
      Restored T T' (Path.fill c (.nodeAt s g .black dg (.nodeAt s b .red db t y) u)).toList := by
  obtain ⟨h1, h2, h3, h4, h5, h6, h7, h8⟩ := read_red_red h ht
  have hred : T.isRed (T.ptr u) = false := by
    rw [(At.focus_other.1 (At.focus.2 (At.focus.2 h))).isRed_eq hu]; rfl
  have hT₁ := ((At.focus.2 (At.focus.2 h)).setColor .red).setColor_child .black
  rw [← PTree.nodeAt_other, ← PTree.nodeAt_other s b] at hT₁
  have hT₂ := hT₁.rotate.1
  refine ⟨_, ?_, Restored.of_at ?_ hT₂ (n := n + 1) ?_ hc ?_⟩
  · rw [rbtInsertFixup]
    simp only [h1, h2, h3, h4, h5, h6, h7, h8, hred, if_true, if_false, Bool.false_eq_true]
    convert rbtInsertFixup_above hT₂ hc using 2
    simp
  · simp
  · rw [balanced_black]
    exact ⟨rfl, n, _, _, rfl, balanced_red.2 ⟨rfl, hu, hy⟩, ht⟩
  · rw [Path.toList_fill, Path.toList_fill, PTree.toList_rotate]
    cases s <;> simp [Side.other]

/-- Case 3: the node is an inner grandchild; a rotation makes its parent an outer one. -/
theorem rbtInsertFixup_inner (fuel : Nat) (h : At T (⟨s.other, b, .red, db, y⟩ :: ⟨s, g, .black, dg, u⟩ :: c) t)
    (ht : Balanced t .red n) (hy : Balanced y .black n) (hu : Balanced u .black n)
    (hc : Hole c .black (n + 1)) :
    ∃ T', rbtInsertFixup (fuel + 3) T (T.ptr t) = some T' ∧
      Restored T T' (Path.fill c (.nodeAt s g .black dg (.nodeAt s.other b .red db t y) u)).toList := by
  obtain ⟨h1, h2, h3, h4, h5, h6, h7, -⟩ := read_red_red h ht
  have hred : T.isRed (T.ptr u) = false := by
    rw [(At.focus_other.1 (At.focus.2 (At.focus.2 h))).isRed_eq hu]; rfl
  obtain ⟨a, d, l, r, rfl⟩ := ht.exists_red s
  obtain ⟨-, hl, hr⟩ := balanced_red.1 ht
  have hT₁ := At.focus.2 h
  rw [PTree.nodeAt_other] at hT₁
  have hT₂ := At.focus.1 hT₁.rotate.1
  obtain ⟨T', hT', hres⟩ := rbtInsertFixup_outer fuel hT₂ (balanced_red.2 ⟨rfl, hy, hl⟩) hr hu hc
  refine ⟨T', ?_, hres.num.trans (by simp), ?_⟩
  · rw [rbtInsertFixup]
    simp only [h1, h2, h3, h4, h5, h6, h7, hred, if_true, if_false, Bool.false_eq_true, Side.other_ne]
    simpa using hT'
  · obtain ⟨t', h₁, h₂, h₃⟩ := hres.tree
    refine ⟨t', h₁, h₂, h₃.trans ?_⟩
    rw [Path.toList_fill, Path.toList_fill]
    cases s <;> simp [Side.other]

theorem rbtInsertFixup_spec : ∀ (fuel : Nat) {T : RbTree α} {c : Path Color α} {t : PTree Color α} {n : Nat},
    At T c t → Balanced t .red n → Hole c .black n → c ≠ [] → c.length < fuel →
    ∃ T', rbtInsertFixup fuel T (T.ptr t) = some T' ∧ Restored T T' (Path.fill c t).toList
  | 0, _, _, _, _, _, _, _, _, hf => by omega
  | fuel + 1, T, ⟨_, _, _, _, _⟩ :: c, t, n, h, ht, .black hs hc, _, _ => by
    refine ⟨T, rbtInsertFixup_of_parent_black (isBlack_eq_true.2 ?_), .of_at rfl h ht (.black hs hc) rfl⟩
    cases ht with
    | red _ _ =>
      rw [show T.parent (T.ptr _) = _ from At.parent_eq (s := .left) h]
      exact h.frame_tag
  | fuel + 1, T, ⟨s', b, _, db, y⟩ :: ⟨s, g, _, dg, u⟩ :: c, t, n, h, ht,
      .red hy (.black (j := .black) hu hc), _, hf => by
    simp only [List.length_cons] at hf
    obtain ⟨fuel, rfl⟩ : ∃ k, fuel = k + 2 := ⟨fuel - 2, by omega⟩
    rcases Side.eq_or_other s s' with rfl | rfl
    · exact rbtInsertFixup_outer _ h ht hy hu hc
    · exact rbtInsertFixup_inner _ h ht hy hu hc
  | fuel + 1, T, ⟨s', b, _, db, y⟩ :: ⟨s, g, _, dg, .node v _ dv x₁ x₂⟩ :: c, t, n, h, ht,
      .red hy (.black (j := .red) (.red hx₁ hx₂) hc), _, hf => by
    obtain ⟨h1, h2, h3, h4, h5, h6, h7, -⟩ := read_red_red h ht
    simp only [List.length_cons] at hf
    have hT := At.focus.2 (At.focus.2 h)
    have hred : T.isRed (T.ptr (.node v .red dv x₁ x₂)) = true := by
      rw [(At.focus_other.1 hT).isRed_eq (.red hx₁ hx₂)]; rfl
    have hT₁ : At ((T.setColor b .black).setColor v .black) c
        (.nodeAt s g .black dg (.nodeAt s' b .black db t y) (.nodeAt .left v .black dv x₁ x₂)) :=
      (hT.setColor_child .black).setColor_child_other (r := .left) .black
    have hl : ∀ k, (Path.fill c (.nodeAt s g k dg (.nodeAt s' b .black db t y)
        (.nodeAt .left v .black dv x₁ x₂))).toList =
        (Path.fill c (.nodeAt s g .black dg (.nodeAt s' b .red db t y) (.node v .red dv x₁ x₂))).toList := by
      intro k
      rw [Path.toList_fill, Path.toList_fill]
      cases s <;> cases s' <;> simp
    have hb : Balanced (.nodeAt s' b .black db t y) .black (n + 1) :=
      balanced_black.2 ⟨rfl, n, _, _, rfl, ht, hy⟩
    have hv : Balanced (.nodeAt .left v .black dv x₁ x₂) .black (n + 1) :=
      balanced_black.2 ⟨rfl, n, _, _, rfl, hx₁, hx₂⟩
    rw [rbtInsertFixup]
    simp only [h1, h2, h3, h4, h5, h6, hred, if_true, if_false, Bool.false_eq_true]
    cases c with
    | nil =>
      have hroot : T.root = g := by simpa [ptr] using hT.root_eq
      rw [if_neg (by simp [ptr, hroot])]
      obtain ⟨fuel, rfl⟩ : ∃ k, fuel = k + 1 := ⟨fuel - 1, by omega⟩
      refine ⟨_, rbtInsertFixup_of_black (isRed_eq_false.2 ?_), .of_at (n := n + 2) rfl hT₁ ?_ .root ?_⟩
      · exact hT₁.tag_eq
      · exact balanced_black.2 ⟨rfl, n + 1, _, _, rfl, hb, hv⟩
      · exact hl .black
    | cons f c =>
      have hroot : g ≠ T.root := by
        have := (hT.root_ne).symm
        simpa [ptr] using this
      rw [if_pos (by simpa [ptr] using hroot)]
      have hT₂ := hT₁.setColor .red
      obtain ⟨T', hT', hres⟩ := rbtInsertFixup_spec fuel hT₂ (n := n + 1)
        (balanced_red.2 ⟨rfl, hb, hv⟩) hc (by simp) (by simp only [List.length_cons] at *; omega)
      refine ⟨T', by simpa [ptr] using hT', hres.num, ?_⟩
      rw [Path.fill_cons, Path.fill_cons]
      simp only [Frame.fill]
      rw [← hl .red]
      exact hres.tree

end Fixup

/-! ## The new node -/

/-- A red-black tree in the cells of `T`, `num` counting its nodes. -/
structure Wf (T : RbTree α) (t : PTree Color α) : Prop where
  at_ : At T [] t
  bal : ∃ n, Balanced t .black n
  num : T.num = t.toList.length

theorem Restored.wf {T' : RbTree α} {l : List α} (h : Restored T T' l) (hl : T.num = l.length) :
    ∃ t, Wf T' t ∧ t.toList = l := by
  obtain ⟨t, h₁, h₂, rfl⟩ := h.tree
  exact ⟨t, ⟨h₁, h₂, h.num.trans hl⟩, rfl⟩

variable {f : Frame Color α} {d : α}

/-- The state in which the fix-up starts: the next free cell is a red leaf of the tree. -/
def attach (T : RbTree α) (p : Ptr) (s : Side) (d : α) : RbTree α :=
  { ({ T with
      next := T.next + 1
      mem := Function.update T.mem T.next ⟨.red, 0, T.sentinel, T.sentinel, none⟩ }.rbtSetChild p s T.next)
    with num := T.num + 1 }.setData T.next (some d)

theorem rbtInsertChild_eq (T : RbTree α) (p : Ptr) (s : Side) (d : α) : T.rbtInsertChild p s d true =
    (rbtInsertFixup (T.num + 3) (T.attach p s d) T.next).map (·, .ok) := rfl

theorem At.attach (h : At T (f :: c) .nil) (d : α) :
    At (T.attach f.addr f.side d) (f :: c) (.node T.next .red d .nil .nil) := by
  obtain ⟨hz, -, hfresh⟩ := h.next_notin
  have hf : f.addr ≠ T.next := by rintro hf; exact hfresh (by simp [Path.addrs, hf])
  have hself : (T.attach f.addr f.side d).mem T.next =
      ⟨.red, f.addr, T.sentinel, T.sentinel, some d⟩ := by
    simp only [RbTree.attach, rbtSetChild, RbTree.setData, Mem.setData, Function.update_self,
      Mem.linkChild_child hf hz]
    rfl
  have hother : ∀ v, v ≠ T.next → v ≠ f.addr → (T.attach f.addr f.side d).mem v = T.mem v := by
    intro v hv hv'
    simp only [RbTree.attach, rbtSetChild, RbTree.setData, Mem.setData, Function.update_of_ne hv,
      Mem.linkChild_other hv' (.inl hv)]
  refine ⟨⟨h.rep.relink ?_ ?_ ?_ fun v hv hne => hother v ?_ hne, fun p hp => ?_⟩, ?_⟩
  · exact ⟨hself, trivial, trivial⟩
  · have := h.rep.nodup
    simp only [PTree.addrs_nil, List.nil_append, List.nodup_cons, PTree.addrs_node, List.append_nil,
      List.cons_append, List.mem_cons, not_or] at this ⊢
    exact ⟨⟨hz.symm, this.1⟩, hfresh, this.2⟩
  · refine ⟨rfl, ?_⟩
    simp only [RbTree.attach, rbtSetChild, RbTree.setData, Mem.setData, Function.update_of_ne hf,
      Mem.linkChild_self hf]
    rfl
  · rintro rfl; exact hfresh hv
  · show p < T.next + 1
    simp only [PTree.addrs_node, PTree.addrs_nil, List.append_nil, List.mem_singleton] at hp
    rcases hp with rfl | rfl | hp
    · exact Nat.lt_succ_of_lt (h.fresh T.sentinel (.inl rfl))
    · exact Nat.lt_succ_self _
    · exact Nat.lt_succ_of_lt (h.fresh p (.inr (.inr hp)))
  · exact (congrArg Cell.tag (hother _ hz.symm (Ne.symm h.frame_ne))).trans h.leaf

theorem rbtInsertChild_ok (h : At T (f :: c) .nil) (hc : Hole (f :: c) .black 0)
    (hf : (f :: c).length ≤ T.num) (hnum : T.num = (Path.fill (f :: c) .nil).toList.length) :
    ∃ T', T.rbtInsertChild f.addr f.side d true = some (T', .ok) ∧
      ∃ t, Wf T' t ∧ t.toList = Path.before (f :: c) ++ d :: Path.after (f :: c) := by
  obtain ⟨T', hT', hres⟩ := rbtInsertFixup_spec (T.num + 3) (h.attach d) (.red .nil .nil) hc
    (by simp) (by omega)
  refine ⟨T', by rw [rbtInsertChild_eq]; exact congrArg _ hT', ?_⟩
  obtain ⟨t, h₁, h₂⟩ := hres.wf (by
    show T.num + 1 = _
    rw [hnum, Path.toList_fill, Path.toList_fill]
    simp; omega)
  refine ⟨t, h₁, h₂.trans ?_⟩
  rw [Path.toList_fill]; simp

/-! ## `rbt_insert` -/

section Insert

variable {ck : α → Int} {mem : Bool}

/-- The loop ends where the descent ends. -/
theorem rbtInsertLoop_eq : ∀ (fuel : Nat) {t : PTree Color α} {c : Path Color α}, At T c t → t ≠ .nil →
    t.height < fuel → rbtInsertLoop ck d mem fuel T (T.ptr t) = match descend ck t c with
      | (f :: _, .nil) => T.rbtInsertChild f.addr f.side d mem
      | (_, _) => some (T, .nodeExist)
  | 0, _, _, _, _, hf => by omega
  | fuel + 1, .nil, _, _, hne, _ => absurd rfl hne
  | fuel + 1, .node a k e l r, c, h, _, hf => by
    obtain ⟨hz, hcmp, hl, hr, -⟩ := h.read_node ck
    have hL : At T (⟨.left, a, k, e, r⟩ :: c) l := At.focus (s := .left).1 h
    have hR : At T (⟨.right, a, k, e, l⟩ :: c) r := At.focus (s := .right).1 h
    simp only [PTree.height] at hf
    rw [rbtInsertLoop, descend]
    simp only [ptr, PTree.root_node, if_neg hz, hcmp]
    by_cases h0 : ck e = 0
    · simp [h0]
    rw [if_neg h0, if_neg h0]
    by_cases hlt : ck e < 0
    · simp only [if_pos hlt, hl]
      cases l with
      | nil => simp [descend]
      | node b _ _ _ _ =>
        rw [if_neg (fun h' => by simpa using hL.ptr_eq_sentinel.1 h')]
        exact rbtInsertLoop_eq _ hL (by simp) (by omega)
    · simp only [if_neg hlt, hr]
      cases r with
      | nil => simp [descend]
      | node b _ _ _ _ =>
        rw [if_neg (fun h' => by simpa using hR.ptr_eq_sentinel.1 h')]
        exact rbtInsertLoop_eq _ hR (by simp) (by omega)

theorem rbtInsert_eq (h : Wf T t) (hne : t ≠ .nil) :
    T.rbtInsert ck d mem = match descend ck t [] with
      | (f :: _, .nil) => T.rbtInsertChild f.addr f.side d mem
      | (_, _) => some (T, .nodeExist) := by
  have hz : T.sentinel ≠ T.root := by
    rw [h.at_.root_eq]; exact fun h' => hne (h.at_.ptr_eq_sentinel.1 h')
  rw [rbtInsert, if_neg hz, h.at_.root_eq]
  exact rbtInsertLoop_eq _ h.at_ hne (by have := t.height_le_length; have := h.num; omega)

/-- The first node. -/
theorem rbtInsert_nil (h : Wf T .nil) (ck : α → Int) (d : α) : ∃ T', T.rbtInsert ck d true = some (T', .ok) ∧
    Wf T' (.node T.next .black d .nil .nil) := by
  have hroot : T.sentinel = T.root := h.at_.root_eq.symm
  obtain ⟨hz, -, -⟩ := h.at_.next_notin
  refine ⟨_, by rw [rbtInsert, if_pos hroot]; rfl, ⟨⟨⟨⟨?_, ?_, ?_⟩, fun p hp => ?_⟩, ?_⟩, ⟨1, .black .nil .nil⟩, ?_⟩⟩
  · rfl
  · refine ⟨?_, trivial, trivial⟩
    simp [RbTree.setData, RbTree.setParent, Mem.setData, Mem.setParent, Cell.withData, Cell.withParent]
  · simpa [RbTree.setData, RbTree.setParent, Path.addrs] using hz.symm
  · simp only [RbTree.setData, RbTree.setParent, PTree.addrs_node, PTree.addrs_nil, List.append_nil,
      List.mem_singleton, Path.addrs, List.not_mem_nil, or_false] at hp ⊢
    rcases hp with rfl | rfl
    exacts [Nat.lt_succ_of_lt (h.at_.fresh _ (.inl rfl)), Nat.lt_succ_self _]
  · simpa [RbTree.setData, RbTree.setParent, Mem.setData, Mem.setParent, hz.symm] using h.at_.leaf
  · simpa [RbTree.setData, RbTree.setParent] using h.num

theorem rbtInsert_nil_err (h : Wf T .nil) (d : α) : T.rbtInsert ck d false = some (T, .err) := by
  have hroot : T.sentinel = T.root := h.at_.root_eq.symm
  rw [rbtInsert, if_pos hroot]
  simp only [rbtCreatNode, Bool.false_eq_true, if_false]
  rw [show ({ T with root := T.sentinel } : RbTree α) = T by cases T; simp_all]

/-- The key is there already. -/
theorem rbtInsert_exist (h : Wf T t) (hs : Splits ck t.toList) {x : α} (hx : findBy ck t.toList = some x) :
    T.rbtInsert ck d mem = some (T, .nodeExist) := by
  have hne : t ≠ .nil := by rintro rfl; cases hx
  rw [rbtInsert_eq h hne]
  rcases he : descend ck t [] with ⟨_ | ⟨f, c⟩, _ | _⟩
  · rfl
  · rfl
  · have := (descend_leaf hs he d).1
    rw [hx] at this; cases this
  · rfl

theorem rbtInsert_err (h : Wf T t) (hs : Splits ck t.toList) (hx : findBy ck t.toList = none) :
    T.rbtInsert ck d false = some (T, .err) := by
  cases t with
  | nil => exact rbtInsert_nil_err h d
  | node a k e l r =>
    rw [rbtInsert_eq h (by simp)]
    rcases he : descend ck (.node a k e l r) [] with ⟨_ | ⟨f, c⟩, _ | _⟩
    · have := descend_fill ck (.node a k e l r) []
      rw [he] at this; cases this
    · have := (descend_node hs he).1
      rw [hx] at this; cases this
    · rfl
    · have := (descend_node hs he).1
      rw [hx] at this; cases this

/-- A new key goes to its place in the order. -/
theorem rbtInsert_ok (h : Wf T t) (hs : Splits ck t.toList) (hx : findBy ck t.toList = none) :
    ∃ T', T.rbtInsert ck d true = some (T', .ok) ∧ ∃ t', Wf T' t' ∧ t'.toList = insertBy ck d t.toList := by
  cases t with
  | nil =>
    obtain ⟨T', h₁, h₂⟩ := rbtInsert_nil h ck d
    exact ⟨T', h₁, _, h₂, by simp [insertBy]⟩
  | node a k e l r =>
    rw [rbtInsert_eq h (by simp)]
    have hfill := descend_fill ck (.node a k e l r) []
    rcases he : descend ck (.node a k e l r) [] with ⟨_ | ⟨f, c⟩, _ | _⟩ <;> rw [he] at hfill
    · cases hfill
    · have := (descend_node hs he).1
      rw [hx] at this; cases this
    · have hlen := descend_length ck (.node a k e l r) []
      have hheight := (PTree.node a k e l r).height_le_length
      rw [he] at hlen
      simp only [Path.fill_nil] at hfill
      have hat := h.at_.descend ck
      rw [he] at hat
      obtain ⟨k', m, hk, hc⟩ := Balanced.hole (show Balanced (Path.fill (f :: c) .nil) .black _ by
        rw [hfill]; exact h.bal.choose_spec)
      cases hk
      rw [(descend_leaf hs he d).2]
      refine rbtInsertChild_ok hat hc ?_ (by rw [hfill]; exact h.num)
      have := h.num
      simp only [List.length_cons, List.length_nil] at hlen ⊢
      omega
    · have := (descend_node hs he).1
      rw [hx] at this; cases this

end Insert

end BeehiveIm.Core.RbTree
