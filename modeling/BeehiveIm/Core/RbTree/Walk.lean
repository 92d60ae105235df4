/-
The walks over a red-black tree with the stack they have: `rbt_trav`, `rbt_find` and `rbt_destroy`
in every tree a run of insertions and deletions leaves.

A walk pushes a node when it goes to a child of it, so what is on the stack is shorter than the tree
is high; and a red-black tree whose nodes a 64-bit number counts is at most 128 nodes high.
-/
import BeehiveIm.Core.RbTree.Run

namespace BeehiveIm.Core.RbTree

open BeehiveIm.Lib

variable {α : Type} {T : RbTree α} {c : Path Color α} {t : PTree Color α} {f : Frame Color α}

/-! ## The height -/

/-- The nodes on a way down besides the black ones. -/
theorem Balanced.height_le {k : Color} {n : Nat} {t : PTree Color α} (h : Balanced t k n) :
    t.height ≤ 2 * n + if k = .red then 1 else 0 := by
  induction h with
  | nil => simp [PTree.height]
  | red _ _ hl hr =>
    simp only [reduceCtorEq, if_false] at hl hr
    simp only [PTree.height, if_true]
    omega
  | black _ _ hl hr =>
    simp only [PTree.height, reduceCtorEq, if_false]
    split at hl <;> split at hr <;> omega

theorem Balanced.two_pow_le {k : Color} {n : Nat} : ∀ {t : PTree Color α}, Balanced t k n →
    2 ^ n ≤ t.toList.length + 1
  | _, .nil => by simp
  | _, .red hl hr => by
    have hl := hl.two_pow_le
    simp only [PTree.toList_node, List.length_append, List.length_cons]
    omega
  | _, .black hl hr => by
    have hl := hl.two_pow_le
    have hr := hr.two_pow_le
    simp only [PTree.toList_node, List.length_append, List.length_cons, Nat.pow_succ]
    omega

/-- A tree whose nodes `num` counts fits the stack. -/
theorem Wf.height_le (h : Wf T t) (hnum : T.num < 2 ^ 64) : t.height ≤ rbtMaxDepth := by
  obtain ⟨n, hb⟩ := h.bal
  have hheight := hb.height_le
  simp only [reduceCtorEq, if_false] at hheight
  have hpow : 2 ^ n ≤ 2 ^ 64 := by
    have := hb.two_pow_le
    have := h.num
    omega
  have hn : n ≤ 64 := (Nat.pow_le_pow_iff_right (by omega)).1 hpow
  show _ ≤ 512
  omega

/-! ## The release -/

/-- What the loop of `rbt_destroy` does from a subtree: each of its nodes after its children,
then what is above it. -/
def Frees (T : RbTree α) (max fuel : Nat) : Prop := ∀ (c : Path Color α) (t : PTree Color α) (out : List α),
  At T c t → (Path.fill c t).height ≤ max → t ≠ .nil → t.toList.length + todo c < fuel →
    rbtDestroyLoop max fuel T (T.ptr t) (c.map (·.addr)) out = some (out ++ t.postOrder ++ Path.postAfter c)

section Frees

variable {max fuel : Nat}

/-- The right child of a frame left by its left child. -/
theorem Frees.sib (hv : Frees T max fuel) (out : List α) (h : At T (f :: c) t)
    (hm : (Path.fill (f :: c) t).height ≤ max) (hs : f.side = .left) (hnil : f.sib ≠ .nil)
    (hf : f.sib.toList.length + todo c < fuel) :
    rbtDestroyLoop max fuel T (T.child .right f.addr) (f.addr :: c.map (·.addr)) out =
      some (out ++ Path.postAfter (f :: c)) := by
  obtain ⟨s, a, k, d, y⟩ := f
  obtain rfl : s = .left := hs
  have hy : At T (⟨.right, a, k, d, t⟩ :: c) y := At.focus_other.1 (At.focus.2 h)
  rw [show T.child .right a = T.ptr y from h.frame_child.2]
  refine (hv _ _ out hy hm hnil (by simpa [todo] using hf)).trans ?_
  simp [Path.postAfter]

/-- The right child of the parent is the sentinel, if there is nothing on the right. -/
theorem frame_right_nil (h : At T (f :: c) t) (hs : f.side = .left) :
    T.sentinel = T.child .right f.addr ↔ f.sib = .nil := by
  have hsib := h.frame_child.2
  rw [hs] at hsib
  rw [show T.child .right f.addr = T.ptr f.sib from hsib]
  exact (At.focus_other.1 (At.focus.2 h)).ptr_eq_sentinel

/-- The loop upwards frees the nodes that are done and goes on at the right of the next. -/
theorem Frees.up (hv : Frees T max fuel) : ∀ {c : Path Color α} {a : Ptr} {k : Color} {d : α} {l r : PTree Color α}
    (out : List α), At T c (.node a k d l r) → (Path.fill c (.node a k d l r)).height ≤ max → todo c < fuel →
    (match T.rbtDestroyUp a (c.map (·.addr)) out with
      | (out, none) => some out
      | (out, some (parent, stack)) => rbtDestroyLoop max fuel T (T.child .right parent) stack out) =
      some (out ++ d :: Path.postAfter c)
  | [], a, k, d, l, r, out, h, _, _ => by
    obtain ⟨-, -, -, -, hd⟩ := h.read_node fun _ => 0
    simp [rbtDestroyUp, hd, Path.postAfter]
  | f :: c, a, k, d, l, r, out, h, hm, hf => by
    obtain ⟨-, -, -, -, hd⟩ := h.read_node fun _ => 0
    obtain ⟨hc, hsib⟩ := h.frame_child
    have hup : At T c (f.fill (.node a k d l r)) := At.focus.2 h
    obtain ⟨x, y, hfill⟩ : ∃ x y, f.fill (.node a k d l r) = .node f.addr f.tag f.data x y := by
      cases hs : f.side <;> simp [Frame.fill, hs]
    rw [Path.fill_cons, hfill] at hm
    rw [hfill] at hup
    rw [List.map_cons, rbtDestroyUp]
    split_ifs with hcond
    · -- the parent is done as well
      refine (hv.up _ hup hm (by simp only [todo] at hf; omega)).trans ?_
      have hpost : Path.postAfter (f :: c) = f.data :: Path.postAfter c := by
        cases hs : f.side with
        | right => simp [Path.postAfter, hs]
        | left =>
          rw [hs] at hsib
          have hne : a ≠ T.child .right f.addr := fun h0 => h.root_ne_sib (.inl (by simp)) (h0.trans hsib)
          have hnil : f.sib = .nil := (frame_right_nil h hs).1 (hcond.resolve_left hne)
          simp [Path.postAfter, hs, hnil, PTree.postOrder]
      simp [hpost, hd]
    · rw [not_or] at hcond
      cases hs : f.side with
      | right =>
        rw [hs] at hc
        exact absurd hc.symm hcond.1
      | left =>
        have hnil : f.sib ≠ .nil := mt (frame_right_nil h hs).2 hcond.2
        refine (hv.sib _ h (by rw [Path.fill_cons, hfill]; exact hm) hs hnil ?_).trans ?_
        · simpa [todo, hs] using hf
        · simp [hd]

theorem rbtDestroyLoop_frees : ∀ fuel, Frees T max fuel
  | 0 => fun _ _ _ _ _ _ hf => by omega
  | fuel + 1 => by
    have hv : Frees T max fuel := rbtDestroyLoop_frees fuel
    intro c t out h hm ht hf
    obtain _ | ⟨a, k, d, l, r⟩ := t
    · exact absurd rfl ht
    obtain ⟨hz, -, hl, hr, hd⟩ := h.read_node fun _ => 0
    have hal : At T (⟨.left, a, k, d, r⟩ :: c) l := (At.focus (s := .left)).1 h
    have har : At T (⟨.right, a, k, d, l⟩ :: c) r := (At.focus_other (s := .left)).1 h
    have hroom (hlr : 0 < l.height ∨ 0 < r.height) : (c.map (·.addr)).length < max := by
      have := Path.length_add_height c (.node a k d l r)
      simp only [PTree.height] at this
      rw [List.length_map]
      omega
    simp only [PTree.toList_node, List.length_append, List.length_cons] at hf
    have hlz : T.sentinel = T.child .left a ↔ l = .nil := by rw [hl]; exact hal.ptr_eq_sentinel
    have hrz : T.sentinel = T.child .right a ↔ r = .nil := by rw [hr]; exact har.ptr_eq_sentinel
    show rbtDestroyLoop max (fuel + 1) T a _ out = _
    unfold rbtDestroyLoop
    rw [if_neg hz]
    by_cases hlnil : l = .nil
    · subst hlnil
      rw [if_neg (not_not.2 (hlz.2 rfl))]
      by_cases hrnil : r = .nil
      · subst hrnil
        rw [if_neg (not_not.2 (hrz.2 rfl))]
        have hpost : out ++ (PTree.node a k d .nil .nil).postOrder ++ Path.postAfter c =
            out ++ d :: Path.postAfter c := by simp [PTree.postOrder]
        rw [hpost]
        cases c with
        | nil => simp [Path.postAfter, hd]
        | cons f c =>
          simp only [List.map_cons]
          split_ifs with hcond
          · -- a leaf with a brother, which comes next
            obtain ⟨hc, hsib⟩ := h.frame_child
            have hs : f.side = .left := by
              cases hs : f.side with
              | left => rfl
              | right =>
                rw [hs] at hsib
                exact absurd (hcond.1.symm.trans hsib) (h.root_ne_sib (.inl (by simp)))
            have hnil : f.sib ≠ .nil := mt (frame_right_nil h hs).2 hcond.2
            simp only [todo, hs, if_true, PTree.toList_nil, List.length_nil] at hf
            refine (hv.sib _ h hm hs hnil (by omega)).trans ?_
            simp [hd]
          · exact hv.up out h hm (by simp only [PTree.toList_nil, List.length_nil] at hf; omega)
      · rw [if_pos (mt hrz.1 hrnil), stackPush_some (hroom (.inr (PTree.height_pos hrnil))), hr]
        refine (hv _ _ out har hm hrnil (by simp [todo] at hf ⊢; omega)).trans ?_
        simp [Path.postAfter, PTree.postOrder]
    · rw [if_pos (mt hlz.1 hlnil), stackPush_some (hroom (.inl (PTree.height_pos hlnil))), hl]
      refine (hv _ _ out hal hm hlnil (by simp [todo]; omega)).trans ?_
      simp [Path.postAfter, PTree.postOrder]

end Frees

/-! ## The walks with their stack -/

theorem rbtFind_eq (h : Wf T t) (hnum : T.num < 2 ^ 64) (find : α → Bool) :
    T.rbtFind find = some (findIn find [] t.toList) :=
  rbtFindLoop_whole h find (h.height_le hnum)

theorem rbtTravStack_eq (h : Wf T t) (hnum : T.num < 2 ^ 64) : T.rbtTravStack = some t.toList := by
  rw [rbtTravStack, rbtFind_eq h hnum, findIn_never]
  rfl

/-- `rbt_destroy` hands every element to the callback, each after those below it. -/
theorem rbtDestroy_eq (h : Wf T t) (hnum : T.num < 2 ^ 64) : T.rbtDestroy = some t.postOrder := by
  rw [rbtDestroy, h.at_.root_eq]
  by_cases ht : t = .nil
  · subst ht
    simp [rbtDestroyLoop, PTree.postOrder]
  · have hfuel : t.toList.length + todo ([] : Path Color α) < T.num + 1 := by
      have := h.num
      simp only [todo]
      omega
    simpa [Path.postAfter] using rbtDestroyLoop_frees (T.num + 1) [] t [] h.at_ (h.height_le hnum) ht hfuel

/-- In the tree of every run, as long as `num` counts its nodes, no walk finds its stack full: the
traversal visits the elements in strictly increasing order of their keys, the search those up to the
first that matches, and the release takes every one of them once. -/
theorem rbt_walk_correct (cmp : α → α → Int) (hc : CmpOn cmp Set.univ) (ops : List (MapOp α)) :
    ∃ T t, run cmp ops = some T ∧ Rep T.mem T.sentinel T.root [] t ∧ Sorted cmp t.toList ∧
      T.num = t.toList.length ∧
      (T.num < 2 ^ 64 →
        T.rbtTravStack = some t.toList ∧
        (∀ find, T.rbtFind find =
          some (t.toList.takeWhile (fun d => !find d) ++ (t.toList.find? find).toList, t.toList.find? find)) ∧
        ∃ freed, T.rbtDestroy = some freed ∧ freed.Perm t.toList) := by
  have h₀ : Refines cmp (rbtCreat α) fun _ => none := ⟨.nil, rbtCreat_wf, stores_nil cmp⟩
  obtain ⟨T, hrun, t, hwf, hm⟩ :=
    simulate (R := Refines cmp) (fun _ _ op h _ => h.step hc op) ops _ _ h₀ (guarded_true ops _)
  refine ⟨T, t, hrun, hwf.at_.rep, hm.sorted, hwf.num, fun hnum => ⟨rbtTravStack_eq hwf hnum, fun find => ?_, ?_⟩⟩
  · rw [rbtFind_eq hwf hnum, findIn_eq]
    simp
  · exact ⟨t.postOrder, rbtDestroy_eq hwf hnum, t.postOrder_perm⟩

/-- Five keys, of which one is deleted. -/
theorem rbt_walk_correct_int : ∃ T t,
    run (fun a b : Int => a - b) [.insert 3 true, .insert 1 true, .insert 2 true, .insert 5 true, .insert 4 true,
      .delete 3] = some T ∧ Rep T.mem T.sentinel T.root [] t ∧ Sorted (fun a b : Int => a - b) t.toList ∧
      T.num = t.toList.length ∧
      T.rbtTravStack = some t.toList ∧
      (∀ find, T.rbtFind find =
        some (t.toList.takeWhile (fun d => !find d) ++ (t.toList.find? find).toList, t.toList.find? find)) ∧
      ∃ freed, T.rbtDestroy = some freed ∧ freed.Perm t.toList := by
  obtain ⟨T, t, hrun, hrep, hs, hnum, hwalk⟩ := rbt_walk_correct (fun a b : Int => a - b)
    ⟨fun a _ b _ => by omega, fun a _ b _ c _ h₁ h₂ => by omega⟩ [.insert 3 true, .insert 1 true, .insert 2 true,
      .insert 5 true, .insert 4 true, .delete 3]
  have hfour : (run (fun a b : Int => a - b) [.insert 3 true, .insert 1 true, .insert 2 true, .insert 5 true,
      .insert 4 true, .delete 3]).map (·.num) = some 4 := by decide +kernel
  rw [hrun] at hfour
  have hnum4 : T.num = 4 := by simpa using hfour
  exact ⟨T, t, hrun, hrep, hs, hnum, hwalk (by omega)⟩

end BeehiveIm.Core.RbTree
