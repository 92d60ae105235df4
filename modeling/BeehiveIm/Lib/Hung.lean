/-
A drawn tree together with the allocator's border: every cell of it is below the first address not
yet handed out. The moves of a cursor (to a child, to the parent, down a search) are lemmas here, as
are the writes that keep the shape.
-/
import BeehiveIm.Lib.Search

namespace BeehiveIm.Lib

variable {τ α : Type}

/-- `t` is drawn at the end of `c`, in cells below `next`. -/
structure Hung (m : Mem τ α) (z root next : Ptr) (c : Path τ α) (t : PTree τ α) : Prop where
  rep : Rep m z root c t
  fresh : ∀ p, p = z ∨ p ∈ t.addrs ∨ p ∈ Path.addrs c → p < next

namespace Hung

variable {m : Mem τ α} {z root next a p : Ptr} {c : Path τ α} {t x y : PTree τ α} {s : Side} {k : τ} {d : α}
  {f : Frame τ α}

/-! ## Reading -/

theorem ne_leaf (h : Hung m z root next c (.nodeAt s a k d x y)) : a ≠ z := by
  have := h.rep.leaf_notin.1
  rintro rfl
  simp at this

theorem root_eq_leaf (h : Hung m z root next c t) : t.root z = z ↔ t = .nil := by
  cases t with
  | nil => simp
  | node a k d l r => simpa using ne_leaf (s := .left) h

/-- The next free cell is outside the tree. -/
theorem next_notin (h : Hung m z root next c t) : next ≠ z ∧ next ∉ t.addrs ∧ next ∉ Path.addrs c :=
  ⟨fun h' => Nat.lt_irrefl _ (h.fresh _ (.inl h')), fun h' => Nat.lt_irrefl _ (h.fresh _ (.inr (.inl h'))),
    fun h' => Nat.lt_irrefl _ (h.fresh _ (.inr (.inr h')))⟩

theorem frame_ne (h : Hung m z root next (f :: c) t) : f.addr ≠ z := by
  have := h.rep.leaf_notin.2
  intro h'
  simp [Path.addrs, h'] at this

/-- The focus and its sibling are different cells, unless both are the leaf. -/
theorem root_ne_sib (h : Hung m z root next (f :: c) t) (hne : t ≠ .nil ∨ f.sib ≠ .nil) :
    t.root z ≠ f.sib.root z := by
  have hn := h.rep.nodup
  have hx := t.root_mem z
  have hy := f.sib.root_mem z
  simp only [Path.addrs, List.nodup_cons, List.nodup_append, List.mem_cons, List.mem_append, not_or] at hn
  rcases hne with hne | hne
  · cases t with
    | nil => exact absurd rfl hne
    | node b _ _ _ _ => grind [PTree.root_node, PTree.addrs_node]
  · cases hsib : f.sib with
    | nil => exact absurd hsib hne
    | node b _ _ _ _ => grind [PTree.root_node, PTree.addrs_node]

/-- Below the root the root pointer leads elsewhere. -/
theorem root_ne (h : Hung m z root next (f :: c) t) : root ≠ t.root z := by
  intro he
  refine h.rep.root_notin_path ?_
  rw [← he]
  rcases h.rep.path.2.2.root_mem with hr | hr <;> simp [Path.addrs, hr]

/-! ## Moving -/

theorem focus : Hung m z root next c (.nodeAt s a k d x y) ↔ Hung m z root next (⟨s, a, k, d, y⟩ :: c) x := by
  constructor
  · rintro ⟨h1, h2⟩
    refine ⟨Rep.focus.1 h1, fun p hp => h2 p ?_⟩
    simp only [Path.addrs, List.mem_cons, List.mem_append, PTree.mem_addrs_nodeAt] at hp ⊢
    tauto
  · rintro ⟨h1, h2⟩
    refine ⟨Rep.focus.2 h1, fun p hp => h2 p ?_⟩
    simp only [Path.addrs, List.mem_cons, List.mem_append, PTree.mem_addrs_nodeAt] at hp ⊢
    tauto

theorem focus_other : Hung m z root next c (.nodeAt s a k d x y) ↔
    Hung m z root next (⟨s.other, a, k, d, x⟩ :: c) y := by
  rw [← focus, PTree.nodeAt_other]

theorem focus_path : ∀ {c' : Path τ α} {t : PTree τ α},
    Hung m z root next c (Path.fill c' t) ↔ Hung m z root next (c' ++ c) t
  | [], _ => Iff.rfl
  | f :: c', t => by
    rw [Path.fill_cons, focus_path]
    exact focus

/-- Where a descent ends. -/
theorem descend (h : Hung m z root next [] t) (ck : α → Int) :
    Hung m z root next (descend ck t []).1 (descend ck t []).2 := by
  have h' : Hung m z root next [] (Path.fill (Lib.descend ck t []).1 (Lib.descend ck t []).2) := by
    rw [descend_fill]; exact h
  simpa using focus_path.1 h'

theorem whole (h : Hung m z root next c t) : Hung m z root next [] (Path.fill c t) :=
  focus_path.2 (by simpa using h)

/-! ## Writing -/

theorem setTag (h : Hung m z root next c (.nodeAt s a k d x y)) (k' : τ) :
    Hung (m.setTag a k') z root next c (.nodeAt s a k' d x y) :=
  ⟨h.rep.setTag, fun p hp => h.fresh p (by simpa using hp)⟩

theorem setTag_child_other {b : Ptr} {kb : τ} {db : α} {u v : PTree τ α} {s' : Side}
    (h : Hung m z root next c (.nodeAt s a k d x (.nodeAt s' b kb db u v))) (k' : τ) :
    Hung (m.setTag b k') z root next c (.nodeAt s a k d x (.nodeAt s' b k' db u v)) :=
  focus_other.2 ((focus_other.1 h).setTag k')

theorem setTag_child {b : Ptr} {kb : τ} {db : α} {u v : PTree τ α} {s' : Side}
    (h : Hung m z root next c (.nodeAt s a k d (.nodeAt s' b kb db u v) y)) (k' : τ) :
    Hung (m.setTag b k') z root next c (.nodeAt s a k d (.nodeAt s' b k' db u v) y) :=
  focus.2 ((focus.1 h).setTag k')

theorem setData (h : Hung m z root next c (.nodeAt s a k d x y)) (d' : α) :
    Hung (m.setData a (some d')) z root next c (.nodeAt s a k d' x y) :=
  ⟨h.rep.setData, fun p hp => h.fresh p (by simpa using hp)⟩

/-- A write outside the tree. -/
theorem update (h : Hung m z root next c t) (hp : p ∉ t.addrs ++ Path.addrs c) (cell : Cell τ α) :
    Hung (Function.update m p cell) z root next c t := by
  refine ⟨h.rep.congr fun q hq => ?_, h.fresh⟩
  have : q ≠ p := by rintro rfl; exact hp hq
  simp [this]

/-- The addresses left when a node with one child is taken out; its own is not among them. -/
theorem splice_addrs (h : Hung m z root next c (.nodeAt s a k d .nil x)) :
    (z :: (x.addrs ++ Path.addrs c)).Nodup ∧ a ≠ z ∧ a ∉ x.addrs ++ Path.addrs c := by
  have hn := h.rep.nodup
  rw [((PTree.addrs_nodeAt ..).append_right _ |>.cons _).nodup_iff] at hn
  simp only [PTree.addrs_nil, List.nil_append, List.cons_append, List.nodup_cons, List.mem_cons, not_or] at hn ⊢
  exact ⟨⟨hn.1.2, hn.2.2⟩, Ne.symm hn.1.1, hn.2.1⟩

end Hung

end BeehiveIm.Lib
