/-
`avl_insert` on an AVL tree, by induction on the subtree the recursion goes down into. `taller`
tells the parent that the subtree has grown, and a subtree that has grown leans.
-/
import BeehiveIm.Core.AvlTree.Balance

namespace BeehiveIm.Core.AvlTree

open BeehiveIm.Lib

variable {α : Type} {T : AvlTree α} {c : Path Int α} {s : Side} {a : Ptr} {k : Int} {d e : α}
  {t y : PTree Int α} {f : Frame Int α}

/-- An AVL tree in the cells of `T`, `num` counting its nodes. -/
structure Wf (T : AvlTree α) (t : PTree Int α) : Prop where
  at_ : At T [] t
  bal : Avl t
  num : T.num = t.toList.length

/-- `avl_creat` makes the empty tree. -/
theorem avlCreat_wf : Wf (avlCreat α) .nil where
  at_ := by
    refine ⟨⟨rfl, trivial, by simp [Path.addrs]⟩, fun p hp => ?_⟩
    obtain rfl : p = 0 := by simpa [Path.addrs, null] using hp
    exact Nat.zero_lt_one
  bal := trivial
  num := rfl

/-! ## The new node -/

/-- The next free cell as a leaf below `p` at side `s`. -/
def attach (T : AvlTree α) (p : Ptr) (s : Side) (d : α) : AvlTree α :=
  { T with
    next := T.next + 1
    mem := Mem.setChild (Function.update T.mem T.next ⟨even, p, null, null, some d⟩) s p T.next }

theorem At.attach (h : At T (f :: c) .nil) (d : α) :
    At (T.attach f.addr f.side d) (f :: c) (.node T.next even d .nil .nil) := by
  obtain ⟨hz, -, hfresh⟩ := h.next_notin
  have hf : f.addr ≠ T.next := by rintro hf; exact hfresh (by simp [Path.addrs, hf])
  have hself : (T.attach f.addr f.side d).mem T.next = ⟨even, f.addr, null, null, some d⟩ := by
    simp [AvlTree.attach, Mem.setChild, Ne.symm hf]
  have hparent : (T.attach f.addr f.side d).mem f.addr = (T.mem f.addr).withChild f.side T.next := by
    simp [AvlTree.attach, Mem.setChild, hf]
  have hother : ∀ v, v ≠ T.next → v ≠ f.addr → (T.attach f.addr f.side d).mem v = T.mem v := by
    intro v hv hv'
    simp [AvlTree.attach, Mem.setChild, hv, hv']
  refine ⟨h.rep.relink ⟨hself, trivial, trivial⟩ ?_ ⟨rfl, hparent⟩ fun v hv hne => hother v ?_ hne,
    fun p hp => ?_⟩
  · have := h.rep.nodup
    simp only [PTree.addrs_nil, List.nil_append, List.nodup_cons, PTree.addrs_node, List.append_nil,
      List.cons_append, List.mem_cons, not_or] at this ⊢
    exact ⟨⟨hz.symm, this.1⟩, hfresh, this.2⟩
  · rintro rfl; exact hfresh hv
  · show p < T.next + 1
    simp only [PTree.addrs_node, PTree.addrs_nil, List.append_nil, List.mem_singleton] at hp
    rcases hp with rfl | rfl | hp
    · exact Nat.lt_succ_of_lt (h.fresh null (.inl rfl))
    · exact Nat.lt_succ_self _
    · exact Nat.lt_succ_of_lt (h.fresh p (.inr (.inr hp)))

/-! ## The way back up -/

/-- What a call of `_avl_insert` on `t` leaves, `l` being the list to reach. -/
structure Grown (T T' : AvlTree α) (c : Path Int α) (height : Nat) (l : List α) (taller : Bool)
    (t' : PTree Int α) : Prop where
  at_ : At T' c t'
  num : T'.num = T.num
  bal : Avl t'
  height_eq : t'.height = height + taller.toNat
  leans : taller = true → factor t' ≠ even ∨ t'.height = 1
  list : t'.toList = l

/-- The subtree at side `s` has grown by one level. -/
theorem avlInsertTaller_spec (h : At T c (.nodeAt s a k e t y)) (ht : Avl t) (hy : Avl y)
    (hk : k = high s ∧ t.height = y.height + 2 ∨ k = even ∧ t.height = y.height + 1 ∨
      k = high s.other ∧ t.height = y.height)
    (hf : factor t ≠ even ∨ t.height = 1) :
    ∃ T' t' taller, avlInsertTaller s T a = (T', .ok, taller) ∧
      Grown T T' c (max (t.height - 1) y.height + 1) (PTree.nodeAt s a k e t y).toList taller t' := by
  have hbf : T.bf a = k := h.bf_eq
  unfold avlInsertTaller
  rw [hbf]
  rcases hk with ⟨rfl, hk⟩ | ⟨rfl, hk⟩ | ⟨rfl, hk⟩
  · rw [if_neg (by simp), if_neg (by simp), if_pos rfl]
    have hf' : factor t ≠ even := hf.resolve_right (by omega)
    have h' := h
    rw [← PTree.nodeAt_other] at h'
    obtain ⟨t', hat, hnum, havl, hheight, hl⟩ := avlBalance_spec h' hy ht hk hf'
    rw [Side.other_other] at hat hnum
    refine ⟨_, t', false, rfl, hat, hnum, havl, ?_, by simp, by rw [hl, PTree.nodeAt_other]⟩
    rw [hheight]; simp; omega
  · rw [if_neg (by simp), if_pos rfl]
    refine ⟨_, _, true, rfl, h.setTag (high s), rfl, avl_nodeAt.2 ⟨ht, hy, .inl ⟨rfl, hk⟩⟩, ?_, ?_, ?_⟩
    · simp [height_nodeAt]; omega
    · exact fun _ => .inl (by simp)
    · cases s <;> rfl
  · rw [if_pos rfl]
    refine ⟨_, _, false, rfl, h.setTag even, rfl, avl_nodeAt.2 ⟨ht, hy, .inr (.inl ⟨rfl, hk⟩)⟩, ?_, by simp, ?_⟩
    · simp [height_nodeAt]; omega
    · cases s <;> rfl

section Insert

variable {ck : α → Int} {mem : Bool}

/-- What `_avl_insert` answers at a subtree `t` of which it sees the root. -/
structure InsertAt (ck : α → Int) (d : α) (mem : Bool) (T : AvlTree α) (c : Path Int α) (t : PTree Int α)
    (r : Option (AvlTree α × AvlRet × Bool)) : Prop where
  exist : ∀ x, meetBy ck t = some x → r = some (T, .nodeExist, false)
  err : meetBy ck t = none → mem = false → r = some (T, .err, false)
  ok : meetBy ck t = none → mem = true → ∃ T' t' taller, r = some (T', .ok, taller) ∧
    Grown T T' c t.height (placeBy ck d t) taller t'

/-- One level of the recursion, towards side `s`. -/
theorem avlInsertSide_spec {insert : AvlTree α → Ptr → Option (AvlTree α × AvlRet × Bool)}
    (h : At T c (.nodeAt s a k e t y)) (hbal : Avl (.nodeAt s a k e t y)) (hto : Toward s (ck e))
    (hrec : t ≠ .nil → InsertAt ck d mem T (⟨s, a, k, e, y⟩ :: c) t (insert T (ptr t))) :
    InsertAt ck d mem T c (.nodeAt s a k e t y) (avlInsertSide s insert T a d mem) := by
  obtain ⟨ht, hy, hk⟩ := avl_nodeAt.1 hbal
  have hcur := Hung.focus.1 h
  have hlist : ∀ {t' : PTree Int α}, t'.toList = placeBy ck d t →
      (PTree.nodeAt s a k e t' y).toList = placeBy ck d (PTree.nodeAt s a k e t y) :=
    placeBy_toward hto
  rw [avlInsertSide, h.child_eq.1]
  by_cases hnil : t = .nil
  · subst hnil
    rw [if_pos (by simp)]
    refine ⟨fun x hx => ?_, fun _ hm => by subst hm; rfl, fun _ hm => ?_⟩
    · rw [meetBy_toward hto] at hx; cases hx
    subst hm
    have hT₁ : At (T.attach a s d) c (.nodeAt s a k e (.node T.next even d .nil .nil) y) :=
      Hung.focus.2 (At.attach hcur d)
    have hleaf : Avl (.node T.next even d .nil .nil) := ⟨by simp [even], .inr (.inl rfl), trivial, trivial⟩
    have hk' : k = high s ∧ 1 = y.height + 2 ∨ k = even ∧ 1 = y.height + 1 ∨ k = high s.other ∧ 1 = y.height := by
      simp only [PTree.height] at hk
      omega
    obtain ⟨T', t', taller, hT', hg⟩ := avlInsertTaller_spec hT₁ hleaf hy hk' (.inr rfl)
    refine ⟨T', t', taller, by rw [← hT']; rfl, hg.at_, hg.num, hg.bal, ?_, hg.leans, ?_⟩
    · rw [hg.height_eq, height_nodeAt]; simp [PTree.height]
    · rw [hg.list]; exact hlist (by simp [placeBy])
  have hroot : ptr t ≠ null := fun h' => hnil (hcur.root_eq_leaf.1 h')
  have hr := hrec hnil
  rw [if_neg hroot]
  refine ⟨fun x hx => ?_, fun hx hm => ?_, fun hx hm => ?_⟩ <;> rw [meetBy_toward hto] at hx
  · rw [hr.exist x hx]; rfl
  · rw [hr.err hx hm]; rfl
  obtain ⟨T₁, t₁, taller, hT₁, hg₁⟩ := hr.ok hx hm
  have h₁ := Hung.focus.2 hg₁.at_
  have hh := hg₁.height_eq
  rw [hT₁]
  cases taller with
  | false =>
    refine ⟨T₁, _, false, rfl, h₁, hg₁.num, avl_nodeAt.2 ⟨hg₁.bal, hy, ?_⟩, ?_, by simp, hlist hg₁.list⟩
    · simpa [hh] using hk
    · simp [height_nodeAt, hh]
  | true =>
    simp only [Bool.toNat_true] at hh
    obtain ⟨T', t', taller, hT', hg⟩ := avlInsertTaller_spec h₁ hg₁.bal hy (by omega) (hg₁.leans rfl)
    refine ⟨T', t', taller, by rw [← hT']; rfl, hg.at_, hg.num.trans hg₁.num, hg.bal, ?_, hg.leans, ?_⟩
    · rw [hg.height_eq, height_nodeAt, hh]; simp
    · rw [hg.list]; exact hlist hg₁.list

theorem avlInsertNode_spec : ∀ (fuel : Nat) {T : AvlTree α} {c : Path Int α} {t : PTree Int α}, At T c t → Avl t →
    t ≠ .nil → t.height ≤ fuel → InsertAt ck d mem T c t (avlInsertNode ck d mem fuel T (ptr t))
  | _, _, _, .nil, _, _, hne, _ => absurd rfl hne
  | 0, _, _, .node _ _ _ _ _, _, _, _, hf => by simp [PTree.height] at hf
  | fuel + 1, T, c, .node a k e l r, h, hbal, _, hf => by
    obtain ⟨-, hcmp, -, -, -⟩ := h.read_node ck
    simp only [PTree.height] at hf
    rw [ptr, PTree.root_node, avlInsertNode]
    simp only [hcmp]
    have hl : l ≠ .nil → InsertAt ck d mem T (⟨.left, a, k, e, r⟩ :: c) l (avlInsertNode ck d mem fuel T (ptr l)) :=
      fun hne => avlInsertNode_spec fuel (Hung.focus (s := .left).1 h) hbal.2.2.1 hne (by omega)
    have hr : r ≠ .nil → InsertAt ck d mem T (⟨.right, a, k, e, l⟩ :: c) r (avlInsertNode ck d mem fuel T (ptr r)) :=
      fun hne => avlInsertNode_spec fuel (Hung.focus (s := .right).1 h) hbal.2.2.2 hne (by omega)
    by_cases h0 : ck e = 0
    · rw [if_pos h0]
      have hf : meetBy ck (PTree.node a k e l r) = some e := by rw [meetBy, if_pos h0]
      exact ⟨fun _ _ => rfl, fun hx _ => (by rw [hf] at hx; cases hx), fun hx _ => (by rw [hf] at hx; cases hx)⟩
    rw [if_neg h0]
    by_cases hlt : ck e < 0
    · rw [if_pos hlt]
      exact avlInsertSide_spec (s := .left) h hbal hlt hl
    · rw [if_neg hlt]
      exact avlInsertSide_spec (s := .right) h hbal (show 0 < ck e by omega) hr

/-! ## `avl_insert` -/

theorem avlInsert_nil (h : Wf T .nil) (ck : α → Int) (d : α) : ∃ T', T.avlInsert ck d true = some (T', .ok) ∧
    Wf T' (.node T.next even d .nil .nil) := by
  obtain ⟨hz, -, -⟩ := h.at_.next_notin
  have hroot : T.root = null := h.at_.root_eq
  refine ⟨_, by rw [avlInsert, if_pos hroot]; rfl, ⟨⟨?_, ?_, ?_⟩, fun p hp => ?_⟩, ?_, rfl⟩
  · rfl
  · exact ⟨by simp, trivial, trivial⟩
  · simpa [Path.addrs] using hz.symm
  · simp only [PTree.addrs_node, PTree.addrs_nil, List.append_nil, List.mem_singleton, Path.addrs,
      List.not_mem_nil, or_false] at hp
    rcases hp with rfl | rfl
    exacts [Nat.lt_succ_of_lt (h.at_.fresh null (.inl rfl)), Nat.lt_succ_self _]
  · exact ⟨by simp [PTree.height, even], .inr (.inl rfl), trivial, trivial⟩

/-- Below a root, `avl_insert` is `_avl_insert`. -/
theorem avlInsert_eq (h : Wf T t) (hne : t ≠ .nil) :
    ∃ r, InsertAt ck d mem T [] t r ∧ T.avlInsert ck d mem = match r with
      | none => none
      | some (T, ret, _) => some (if ret = .ok then { T with num := T.num + 1 } else T, ret) := by
  have hheight := t.height_le_length
  have hnum := h.num
  have hroot : ptr t ≠ null := fun h' => hne (h.at_.root_eq_leaf.1 h')
  refine ⟨_, avlInsertNode_spec (T.num + 1) h.at_ h.bal hne (by omega), ?_⟩
  rcases hr : avlInsertNode ck d mem (T.num + 1) T (ptr t) with _ | ⟨_, _, _⟩ <;>
    simp only [avlInsert, h.at_.root_eq, if_neg hroot, hr]

/-- A search that meets an element inserts nothing. -/
theorem avlInsert_met (h : Wf T t) {x : α} (hx : meetBy ck t = some x) :
    T.avlInsert ck d mem = some (T, .nodeExist) := by
  have hne : t ≠ .nil := by rintro rfl; cases hx
  obtain ⟨r, hr, he⟩ := avlInsert_eq (d := d) h hne
  rw [he, hr.exist x hx]; rfl

/-- The new element goes to the leaf where the search ends, whatever the order. -/
theorem avlInsert_placed (h : Wf T t) (hx : meetBy ck t = none) :
    ∃ T', T.avlInsert ck d true = some (T', .ok) ∧ ∃ t', Wf T' t' ∧ t'.toList = placeBy ck d t := by
  by_cases hne : t = .nil
  · subst hne
    obtain ⟨T', h₁, h₂⟩ := avlInsert_nil h ck d
    exact ⟨T', h₁, _, h₂, by simp [placeBy]⟩
  · obtain ⟨r, hr, he⟩ := avlInsert_eq (d := d) h hne
    obtain ⟨T', t', taller, rfl, hg⟩ := hr.ok hx rfl
    refine ⟨{ T' with num := T'.num + 1 }, by rw [he]; rfl, t', ⟨hg.at_, hg.bal, ?_⟩, hg.list⟩
    show T'.num + 1 = _
    rw [hg.list, hg.num, h.num]
    exact (placeBy_perm t).length_eq.symm

/-- The key is there already. -/
theorem avlInsert_exist (h : Wf T t) (hs : Splits ck t.toList) {x : α} (hx : findBy ck t.toList = some x) :
    T.avlInsert ck d mem = some (T, .nodeExist) :=
  avlInsert_met h ((meetBy_eq hs).trans hx)

theorem avlInsert_err (h : Wf T t) (hs : Splits ck t.toList) (hx : findBy ck t.toList = none) :
    T.avlInsert ck d false = some (T, .err) := by
  by_cases hne : t = .nil
  · subst hne
    have hroot : T.root = null := h.at_.root_eq
    rw [avlInsert, if_pos hroot]; rfl
  · obtain ⟨r, hr, he⟩ := avlInsert_eq (d := d) h hne
    rw [he, hr.err ((meetBy_eq hs).trans hx) rfl]; rfl

/-- A new key goes to its place in the order. -/
theorem avlInsert_ok (h : Wf T t) (hs : Splits ck t.toList) (hx : findBy ck t.toList = none) :
    ∃ T', T.avlInsert ck d true = some (T', .ok) ∧ ∃ t', Wf T' t' ∧ t'.toList = insertBy ck d t.toList := by
  rw [← placeBy_eq hs hx]
  exact avlInsert_placed h ((meetBy_eq hs).trans hx)

end Insert

end BeehiveIm.Core.AvlTree
