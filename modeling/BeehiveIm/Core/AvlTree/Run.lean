/-
Runs of `avl_insert` and `avl_delete` from `avl_creat`, against the map of the keys
inserted and not deleted since.
-/
import BeehiveIm.Core.AvlTree.Delete
import BeehiveIm.Core.AvlTree.Trav
import BeehiveIm.Lib.OrdMap
import BeehiveIm.Lib.Run
import BeehiveIm.Lib.Spine

namespace BeehiveIm.Core.AvlTree

open BeehiveIm.Lib

variable {α : Type} {cmp : α → α → Int}

def step (cmp : α → α → Int) (T : AvlTree α) : MapOp α → Option (AvlTree α)
  | .insert d mem => (T.avlInsert (cmp d) d mem).map (·.1)
  | .delete k => (T.avlDelete (cmp k)).map (·.1)

def run (cmp : α → α → Int) (ops : List (MapOp α)) : Option (AvlTree α) := ops.foldlM (step cmp) (avlCreat α)

/-- A call does to the tree what `listStep` does to its in-order list. -/
theorem Wf.step {T : AvlTree α} {t : PTree Int α} (h : Wf T t) (op : MapOp α)
    (hs : ∀ k, Splits (cmp k) t.toList) :
    ∃ T' t', step cmp T op = some T' ∧ Wf T' t' ∧ t'.toList = listStep cmp t.toList op := by
  cases op with
  | insert d mem =>
    simp only [AvlTree.step, listStep]
    cases hf : findBy (cmp d) t.toList with
    | some x =>
      rw [avlInsert_exist h (hs d) hf]
      exact ⟨T, t, rfl, h, by simp⟩
    | none =>
      cases mem with
      | false =>
        rw [avlInsert_err h (hs d) hf]
        exact ⟨T, t, rfl, h, by simp⟩
      | true =>
        obtain ⟨T', hT', t', hwf, hl⟩ := avlInsert_ok (d := d) h (hs d) hf
        rw [hT']
        exact ⟨T', t', rfl, hwf, by simpa using hl⟩
  | delete d =>
    simp only [AvlTree.step, listStep]
    cases hf : findBy (cmp d) t.toList with
    | none =>
      rw [avlDelete_none h (hs d) hf, eraseBy_eq_self (findBy_eq_none.1 hf)]
      exact ⟨T, t, rfl, h, rfl⟩
    | some x =>
      obtain ⟨T', hT', t', hwf, hl⟩ := avlDelete_some h (hs d) hf
      rw [hT']
      exact ⟨T', t', rfl, hwf, hl⟩

/-- The tree refines the map. -/
def Refines (cmp : α → α → Int) (T : AvlTree α) (m : α → Option α) : Prop :=
  ∃ t, Wf T t ∧ Stores cmp t.toList m

theorem Refines.step (hc : CmpOn cmp Set.univ) {T : AvlTree α} {m : α → Option α} (h : Refines cmp T m)
    (op : MapOp α) : ∃ T', step cmp T op = some T' ∧ Refines cmp T' (mapStep cmp m op) := by
  obtain ⟨t, hwf, hm⟩ := h
  obtain ⟨T', t', hT', hwf', hl⟩ := hwf.step op (hm.splits hc)
  exact ⟨T', hT', t', hwf', by rw [hl]; exact hm.step hc op⟩

theorem Refines.query (hc : CmpOn cmp Set.univ) {T : AvlTree α} {m : α → Option α} (h : Refines cmp T m) (k : α) :
    T.avlQuery (cmp k) = some (m k) := by
  obtain ⟨t, hwf, hm⟩ := h
  rw [avlQuery_spec hwf (hm.splits hc k), hm.find]

/-- A key that is not there is inserted. -/
theorem Refines.insert (hc : CmpOn cmp Set.univ) {T : AvlTree α} {m : α → Option α} (h : Refines cmp T m) {d : α}
    (hd : m d = none) : ∃ T', T.avlInsert (cmp d) d true = some (T', .ok) ∧
      Refines cmp T' (mapStep cmp m (.insert d true)) := by
  obtain ⟨t, hwf, hm⟩ := h
  have hf : findBy (cmp d) t.toList = none := (hm.find d).trans hd
  obtain ⟨T', hT', t', hwf', hl⟩ := avlInsert_ok (d := d) hwf (hm.splits hc d) hf
  refine ⟨T', hT', t', hwf', ?_⟩
  have hlist : t'.toList = listStep cmp t.toList (.insert d true) := by
    rw [listStep, if_pos ⟨rfl, hf⟩]
    exact hl
  rw [hlist]
  exact hm.step hc _

/-- Every run ends, in cells that draw a tree with consistent links whose factors are the
height differences, keys in strictly increasing order and `num` nodes; a query answers what
the map of the run says. -/
theorem avl_run_correct (cmp : α → α → Int) (hc : CmpOn cmp Set.univ) (ops : List (MapOp α)) :
    ∃ T t, run cmp ops = some T ∧
      Rep T.mem null T.root [] t ∧ Avl t ∧ Sorted cmp t.toList ∧ T.num = t.toList.length ∧
      ∀ k, T.avlQuery (cmp k) = some (mapRun cmp ops k) := by
  have h₀ : Refines cmp (avlCreat α) fun _ => none := ⟨.nil, avlCreat_wf, stores_nil cmp⟩
  obtain ⟨T, hrun, t, hwf, hm⟩ :=
    simulate (R := Refines cmp) (fun _ _ op h _ => h.step hc op) ops _ _ h₀ (guarded_true ops _)
  refine ⟨T, t, hrun, hwf.at_.rep, hwf.bal, hm.sorted, hwf.num, fun k => ?_⟩
  rw [avlQuery_spec hwf (hm.splits hc k), hm.find]; rfl

/-- Four keys, one of them inserted twice and one deleted. -/
theorem avl_run_correct_int : ∃ T t,
    run (fun a b : Int => a - b) [.insert 3 true, .insert 1 true, .insert 2 true, .insert 1 true,
      .delete 3] = some T ∧
      Rep T.mem null T.root [] t ∧ Avl t ∧ Sorted (fun a b : Int => a - b) t.toList ∧
      T.num = t.toList.length ∧
      ∀ k, T.avlQuery (fun b => k - b) = some (mapRun (fun a b : Int => a - b)
        [.insert 3 true, .insert 1 true, .insert 2 true, .insert 1 true, .delete 3] k) :=
  avl_run_correct (fun a b : Int => a - b)
    ⟨fun a _ b _ => by omega, fun a _ b _ c _ h₁ h₂ => by omega⟩ _

/-! ## Comparisons that are never negative

AVL trees under comparisons that are never negative: a tree of at most two nodes is a spine, and
there the operations do what they should.
-/

variable {α : Type} {T : AvlTree α} {t : PTree Int α} {ck : α → Int} {d e : α}

theorem height_zero (h : t.height = 0) : t = .nil := by
  cases t with
  | nil => rfl
  | node => simp [PTree.height] at h

/-- An AVL tree that is a spine has two nodes at most. -/
theorem Avl.spine_cases (h : Avl t) (hs : Spine t) : t = .nil ∨ (∃ a k e, t = .node a k e .nil .nil) ∨
    ∃ a k e b j d, t = .node a k e .nil (.node b j d .nil .nil) := by
  cases t with
  | nil => exact .inl rfl
  | node a k e l r =>
    obtain ⟨rfl, hr⟩ := hs
    cases r with
    | nil => exact .inr (.inl ⟨a, k, e, rfl⟩)
    | node b j d l r =>
      obtain ⟨rfl, -⟩ := hr
      obtain ⟨hk, hlr, -⟩ := h
      have hr : r = .nil := by
        refine height_zero ?_
        simp only [PTree.height, high, even] at hk hlr
        omega
      rw [hr]
      exact .inr (.inr ⟨a, k, e, b, j, d, rfl⟩)

theorem spine_length (h : Wf T t) (hs : Spine t) : t.toList.length ≤ 2 := by
  rcases h.bal.spine_cases hs with rfl | ⟨a, k, e, rfl⟩ | ⟨a, k, e, b, j, d, rfl⟩ <;> simp

theorem avlQuery_spine (h : Wf T t) (hs : Spine t) (ho : OneSided ck t.toList) :
    T.avlQuery ck = some (findBy ck t.toList) := by
  rw [avlQuery_eq h, hs.meetBy ho]

/-- A second node goes to the right of the first. -/
theorem avlInsert_spine (h : Wf T t) (hlen : t.toList.length ≤ 1) (hpos : ∀ e ∈ t.toList, 0 < ck e) :
    ∃ T', T.avlInsert ck d true = some (T', .ok) ∧ ∃ t', Wf T' t' ∧ t'.toList = t.toList ++ [d] ∧ Spine t' := by
  rcases h.bal.spine_cases (spine_of_length hlen) with rfl | ⟨a, k, e, rfl⟩ | ⟨a, k, e, b, j, d, rfl⟩
  · obtain ⟨T', hT', hwf⟩ := avlInsert_nil h ck d
    exact ⟨T', hT', _, hwf, rfl, rfl, trivial⟩
  · have he : 0 < ck e := hpos e (by simp)
    obtain rfl : k = even := by simpa [Avl, PTree.height, even] using h.bal.1
    have hat : At T [⟨.right, a, even, e, .nil⟩] .nil := Hung.focus (s := .right).1 h.at_
    have hup : At (T.attach a .right d) [] (.nodeAt .right a even e (.node T.next even d .nil .nil) .nil) :=
      Hung.focus.2 (At.attach hat d)
    obtain ⟨hz, hcmp, -, hright, -⟩ := h.at_.read_node ck
    have hroot : T.root = a := h.at_.root_eq
    have hbf : (T.attach a .right d).bf a = even := hup.bf_eq
    refine ⟨{ (T.attach a .right d).setBf a (high .right) with num := T.num + 1 }, ?_, _,
      ⟨hup.setTag (high .right), ?_, ?_⟩, rfl, rfl, rfl, trivial⟩
    · have htaller : avlInsertTaller .right (T.attach a .right d) a =
          ((T.attach a .right d).setBf a (high .right), .ok, true) := by
        rw [avlInsertTaller, hbf, if_neg (by decide), if_pos rfl]
      have hside : avlInsertSide .right (avlInsertNode ck d true T.num) T a d true =
          some ((T.attach a .right d).setBf a (high .right), .ok, true) := by
        rw [avlInsertSide, if_pos (show T.child .right a = null from hright)]
        exact congrArg some htaller
      rw [avlInsert, hroot, if_neg hz, avlInsertNode]
      simp only [hcmp, if_neg he.ne', if_neg he.le.not_gt, hside]
      rfl
    · exact ⟨by simp [PTree.height, high], .inr (.inr rfl), trivial, by simp [PTree.height, even], .inr (.inl rfl),
        trivial, trivial⟩
    · show T.num + 1 = _
      rw [h.num]
      rfl
  · simp at hlen

/-- A deletion at the root does not look further. -/
theorem avlDelete_root {a : Ptr} {k : Int} {l r : PTree Int α} (h : Wf T (.node a k e l r)) (h0 : ck e = 0) :
    T.avlDelete ck = T.avlDelete fun x => -ck x := by
  have hroot (ck : α → Int) (h0 : ck e = 0) : avlDeleteNode ck (T.num + 1) T T.root false =
      (T.avlDeleteFound T.root false).map fun p => (p.1, p.2, (T.mem T.root).data) := by
    obtain ⟨-, hcmp, -⟩ := h.at_.read_node ck
    have hr : T.root = a := h.at_.root_eq
    rw [avlDeleteNode, hr]
    simp only [hcmp, h0, lt_self_iff_false, if_false]
  rw [avlDelete, avlDelete, hroot ck h0, hroot _ (by omega)]

theorem avlDelete_spine (h : Wf T t) (hs : Spine t) (ho : OneSided ck t.toList) (hu : AtMostOne ck t.toList)
    (hx : findBy ck t.toList = some d) :
    ∃ T', T.avlDelete ck = some (T', some d) ∧ ∃ t', Wf T' t' ∧ t'.toList = eraseBy ck t.toList ∧ Spine t' := by
  have hlen : t.toList.length ≤ 2 := spine_length h hs
  rcases ho.splits hu hlen with hspl | ⟨e, A, hl, h0, hspl⟩
  · obtain ⟨T', hT', t', hwf, ht⟩ := avlDelete_some h hspl hx
    exact ⟨T', hT', t', hwf, ht, spine_eraseBy hlen hx ht⟩
  · obtain ⟨T', hT', t', hwf, ht⟩ := avlDelete_some h hspl ((congrFun (findBy_neg ck) _).trans hx)
    rw [eraseBy_neg] at ht
    obtain ⟨a, k, r, rfl⟩ := hs.root hl
    exact ⟨T', (avlDelete_root h h0).trans hT', t', hwf, ht, spine_eraseBy hlen hx ht⟩

theorem avlWrite_spine (h : Wf T t) (hs : Spine t) (ho : OneSided ck t.toList) (hu : AtMostOne ck t.toList)
    (g : α → α) : ∃ T', T.avlWrite ck g = some T' ∧ ∃ t', Wf T' t' ∧ t'.toList = writeBy ck g t.toList ∧ Spine t' := by
  obtain ⟨T', hT', hwf⟩ := avlWrite_alter h ck g
  exact ⟨T', hT', _, hwf, toList_alterBy g hu (hs.meetBy ho), hs.alterBy⟩

end BeehiveIm.Core.AvlTree
