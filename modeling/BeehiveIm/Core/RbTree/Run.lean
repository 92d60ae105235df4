/-
Runs of `rbt_insert` and `rbt_delete` from `rbt_creat`, against the map of the keys
inserted and not deleted since.
-/
import BeehiveIm.Core.RbTree.Delete
import BeehiveIm.Core.RbTree.Trav
import BeehiveIm.Lib.OrdMap
import BeehiveIm.Lib.Run
import BeehiveIm.Lib.Spine

namespace BeehiveIm.Core.RbTree

open BeehiveIm.Lib

variable {α : Type} {cmp : α → α → Int}

def step (cmp : α → α → Int) (T : RbTree α) : MapOp α → Option (RbTree α)
  | .insert d mem => (T.rbtInsert (cmp d) d mem).map (·.1)
  | .delete k => (T.rbtDelete (cmp k)).map (·.1)

def run (cmp : α → α → Int) (ops : List (MapOp α)) : Option (RbTree α) := ops.foldlM (step cmp) (rbtCreat α)

/-- `rbt_creat` makes the empty tree. -/
theorem rbtCreat_wf : Wf (rbtCreat α) .nil where
  at_ := by
    refine ⟨⟨⟨rfl, trivial, by simp [Path.addrs]⟩, fun p hp => ?_⟩, rfl⟩
    obtain rfl : p = 1 := by simpa [Path.addrs, rbtCreat] using hp
    exact Nat.lt_succ_self 1
  bal := ⟨0, .nil⟩
  num := rfl

/-- A call does to the tree what `listStep` does to its in-order list. -/
theorem Wf.step {T : RbTree α} {t : PTree Color α} (h : Wf T t) (op : MapOp α)
    (hs : ∀ k, Splits (cmp k) t.toList) :
    ∃ T' t', step cmp T op = some T' ∧ Wf T' t' ∧ t'.toList = listStep cmp t.toList op := by
  cases op with
  | insert d mem =>
    simp only [RbTree.step, listStep]
    cases hf : findBy (cmp d) t.toList with
    | some x =>
      rw [rbtInsert_exist h (hs d) hf]
      exact ⟨T, t, rfl, h, by simp⟩
    | none =>
      cases mem with
      | false =>
        rw [rbtInsert_err h (hs d) hf]
        exact ⟨T, t, rfl, h, by simp⟩
      | true =>
        obtain ⟨T', hT', t', hwf, hl⟩ := rbtInsert_ok (d := d) h (hs d) hf
        rw [hT']
        exact ⟨T', t', rfl, hwf, by simpa using hl⟩
  | delete d =>
    simp only [RbTree.step, listStep]
    cases hf : findBy (cmp d) t.toList with
    | none =>
      rw [rbtDelete_none h hf, eraseBy_eq_self (findBy_eq_none.1 hf)]
      exact ⟨T, t, rfl, h, rfl⟩
    | some x =>
      obtain ⟨T', hT', t', hwf, hl⟩ := rbtDelete_some h (hs d) hf
      rw [hT']
      exact ⟨T', t', rfl, hwf, hl⟩

/-- The tree refines the map. -/
def Refines (cmp : α → α → Int) (T : RbTree α) (m : α → Option α) : Prop :=
  ∃ t, Wf T t ∧ Stores cmp t.toList m

theorem Refines.step (hc : CmpOn cmp Set.univ) {T : RbTree α} {m : α → Option α} (h : Refines cmp T m)
    (op : MapOp α) : ∃ T', step cmp T op = some T' ∧ Refines cmp T' (mapStep cmp m op) := by
  obtain ⟨t, hwf, hm⟩ := h
  obtain ⟨T', t', hT', hwf', hl⟩ := hwf.step op (hm.splits hc)
  exact ⟨T', hT', t', hwf', by rw [hl]; exact hm.step hc op⟩

/-- Every run ends, in cells that draw a red-black tree with a black root and consistent links, keys
in strictly increasing order and `num` nodes; a query answers what the map of the run says. -/
theorem rbt_run_correct (cmp : α → α → Int) (hc : CmpOn cmp Set.univ) (ops : List (MapOp α)) :
    ∃ T t, run cmp ops = some T ∧
      Rep T.mem T.sentinel T.root [] t ∧ (∃ n, Balanced t .black n) ∧ Sorted cmp t.toList ∧
      T.num = t.toList.length ∧ ∀ k, T.rbtQuery (cmp k) = some (mapRun cmp ops k) := by
  have h₀ : Refines cmp (rbtCreat α) fun _ => none := ⟨.nil, rbtCreat_wf, stores_nil cmp⟩
  obtain ⟨T, hrun, t, hwf, hm⟩ :=
    simulate (R := Refines cmp) (fun _ _ op h _ => h.step hc op) ops _ _ h₀ (guarded_true ops _)
  refine ⟨T, t, hrun, hwf.at_.rep, hwf.bal, hm.sorted, hwf.num, fun k => ?_⟩
  rw [rbtQuery_spec hwf (hm.splits hc k), hm.find]; rfl

/-- Four keys, one of them inserted twice and one deleted. -/
theorem rbt_run_correct_int : ∃ T t,
    run (fun a b : Int => a - b) [.insert 3 true, .insert 1 true, .insert 2 true, .insert 1 true,
      .delete 3] = some T ∧
      Rep T.mem T.sentinel T.root [] t ∧ (∃ n, Balanced t .black n) ∧
      Sorted (fun a b : Int => a - b) t.toList ∧ T.num = t.toList.length ∧
      ∀ k, T.rbtQuery (fun b => k - b) = some (mapRun (fun a b : Int => a - b)
        [.insert 3 true, .insert 1 true, .insert 2 true, .insert 1 true, .delete 3] k) :=
  rbt_run_correct (fun a b : Int => a - b)
    ⟨fun a _ b _ => by omega, fun a _ b _ c _ h₁ h₂ => by omega⟩ _

/-! ## Comparisons that are never negative

Red-black trees under comparisons that are never negative: a tree of at most two nodes is a spine,
and there the operations do what they should.
-/

variable {α : Type} {T : RbTree α} {t : PTree Color α} {ck : α → Int} {d e : α}

theorem Balanced.eq_nil (h : Balanced t .black 0) : t = .nil := by cases h; rfl

/-- A red-black tree that is a spine has two nodes at most. -/
theorem Wf.spine_cases (h : Wf T t) (hs : Spine t) : t = .nil ∨ (∃ a e, t = .node a .black e .nil .nil) ∨
    ∃ a e b d, t = .node a .black e .nil (.node b .red d .nil .nil) := by
  obtain ⟨n, hb⟩ := h.bal
  cases hb with
  | nil => exact .inl rfl
  | @black a e l r kl kr n hl hr =>
    obtain ⟨rfl, -⟩ := hs
    cases hl
    cases hr with
    | nil => exact .inr (.inl ⟨a, e, rfl⟩)
    | @red b d l r _ hl hr =>
      rw [hl.eq_nil, hr.eq_nil]
      exact .inr (.inr ⟨a, e, b, d, rfl⟩)

theorem spine_length (h : Wf T t) (hs : Spine t) : t.toList.length ≤ 2 := by
  rcases h.spine_cases hs with rfl | ⟨a, e, rfl⟩ | ⟨a, e, b, d, rfl⟩ <;> simp

theorem rbtQuery_spine (h : Wf T t) (hs : Spine t) (ho : OneSided ck t.toList) :
    T.rbtQuery ck = some (findBy ck t.toList) := by
  rw [rbtQuery_eq h, hs.meetBy ho]

/-- A second node goes to the right of the first. -/
theorem rbtInsert_spine (h : Wf T t) (hlen : t.toList.length ≤ 1) (hpos : ∀ e ∈ t.toList, 0 < ck e) :
    ∃ T', T.rbtInsert ck d true = some (T', .ok) ∧ ∃ t', Wf T' t' ∧ t'.toList = t.toList ++ [d] ∧ Spine t' := by
  rcases h.spine_cases (spine_of_length hlen) with rfl | ⟨a, e, rfl⟩ | ⟨a, e, b, d, rfl⟩
  · obtain ⟨T', hT', hwf⟩ := rbtInsert_nil h ck d
    exact ⟨T', hT', _, hwf, rfl, rfl, trivial⟩
  · have he : 0 < ck e := hpos e (by simp)
    have hat : At T [⟨.right, a, .black, e, .nil⟩] .nil := At.focus (s := .right).1 h.at_
    have hnew := At.attach hat d
    have hup : At (T.attach a .right d) [] (.node a .black e .nil (.node T.next .red d .nil .nil)) :=
      At.focus (s := .right).2 hnew
    refine ⟨T.attach a .right d, ?_, _, ⟨hup, ⟨1, .black .nil (.red .nil .nil)⟩, ?_⟩, by simp, rfl, rfl, trivial⟩
    · rw [rbtInsert_eq h (by simp)]
      simp only [Lib.descend, if_neg he.ne', if_neg he.le.not_gt]
      have hparent : (T.attach a .right d).parent T.next = a := At.parent_eq (s := .right) hnew
      rw [rbtInsertChild_eq, rbtInsertFixup_of_parent_black]
      · rfl
      · rw [hparent]
        exact isBlack_eq_true.2 hnew.frame_tag
    · show T.num + 1 = _
      rw [h.num]
      rfl
  · simp at hlen

/-- A deletion at the root does not look further. -/
theorem rbtDelete_root {a : Ptr} {k : Color} {r : PTree Color α} (h : Wf T (.node a k e .nil r)) (h0 : ck e = 0) :
    T.rbtDelete ck = T.rbtDelete fun x => -ck x := by
  have hroot (ck : α → Int) (h0 : ck e = 0) : Lib.descend ck (.node a k e .nil r) [] = ([], .node a k e .nil r) := by
    rw [Lib.descend, if_pos h0]
  rw [rbtDelete_eq h, rbtDelete_eq h, hroot ck h0, hroot _ (by omega)]

theorem rbtDelete_spine (h : Wf T t) (hs : Spine t) (ho : OneSided ck t.toList) (hu : AtMostOne ck t.toList)
    (hx : findBy ck t.toList = some d) :
    ∃ T', T.rbtDelete ck = some (T', some d) ∧ ∃ t', Wf T' t' ∧ t'.toList = eraseBy ck t.toList ∧ Spine t' := by
  have hlen : t.toList.length ≤ 2 := spine_length h hs
  rcases ho.splits hu hlen with hspl | ⟨e, A, hl, h0, hspl⟩
  · obtain ⟨T', hT', t', hwf, ht⟩ := rbtDelete_some h hspl hx
    exact ⟨T', hT', t', hwf, ht, spine_eraseBy hlen hx ht⟩
  · obtain ⟨T', hT', t', hwf, ht⟩ := rbtDelete_some h hspl ((congrFun (findBy_neg ck) _).trans hx)
    rw [eraseBy_neg] at ht
    obtain ⟨a, k, r, rfl⟩ := hs.root hl
    exact ⟨T', (rbtDelete_root h h0).trans hT', t', hwf, ht, spine_eraseBy hlen hx ht⟩

theorem rbtWrite_spine (h : Wf T t) (hs : Spine t) (ho : OneSided ck t.toList) (hu : AtMostOne ck t.toList)
    (g : α → α) : ∃ T', T.rbtWrite ck g = some T' ∧ ∃ t', Wf T' t' ∧ t'.toList = writeBy ck g t.toList ∧ Spine t' := by
  obtain ⟨T', hT', hwf⟩ := rbtWrite_alter h ck g
  exact ⟨T', hT', _, hwf, toList_alterBy g hu (hs.meetBy ho), hs.alterBy⟩

end BeehiveIm.Core.RbTree
