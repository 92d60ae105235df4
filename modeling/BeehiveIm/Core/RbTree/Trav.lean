/-
Reads and writes in place: `rbt_trav` visits a red-black tree in order. Its loop upwards takes an
ancestor without a right child for one that is done; in a red-black tree such a node has at most a
red leaf on its left, which the loop handles before.
-/
import BeehiveIm.Core.RbTree.Delete

namespace BeehiveIm.Core.RbTree

open BeehiveIm.Lib

variable {α : Type} {T : RbTree α} {c : Path Color α} {t : PTree Color α} {f : Frame Color α}

/-! ## The way up -/

/-- The first frame that is left by its left child, and the path above it. -/
def nextFrame : Path Color α → Option (Frame Color α × Path Color α)
  | [] => none
  | f :: c => if f.side = .left then some (f, c) else nextFrame c

theorem after_nextFrame : ∀ c : Path Color α, Path.after c =
    (nextFrame c).elim [] fun (f, c) => f.data :: f.sib.toList ++ Path.after c
  | [] => rfl
  | ⟨.left, _, _, _, _⟩ :: _ => by simp [Path.after, nextFrame]
  | ⟨.right, _, _, _, _⟩ :: c => by simpa [Path.after, nextFrame] using after_nextFrame c

/-- The nodes right of the path. -/
def todo : Path Color α → Nat
  | [] => 0
  | f :: c => (if f.side = .left then f.sib.toList.length else 0) + todo c

theorem todo_nextFrame : ∀ c : Path Color α, todo c =
    (nextFrame c).elim 0 fun (f, c) => f.sib.toList.length + todo c
  | [] => rfl
  | ⟨.left, _, _, _, _⟩ :: _ => by simp [todo, nextFrame]
  | ⟨.right, _, _, _, _⟩ :: c => by simpa [todo, nextFrame] using todo_nextFrame c

/-- A node with black height 0 has no grandchildren; nor a child, if it has a brother's height. -/
theorem Balanced.length_le {k : Color} (h : Balanced t k 0) : t.toList.length ≤ 1 := by
  cases h with
  | nil => simp
  | red hl hr => cases hl; cases hr; simp

theorem Hole.sib_ne_nil {k : Color} {m : Nat} (h : Hole (f :: c) k m) (ht : Balanced t k m)
    (hlen : 1 < t.toList.length) : f.sib ≠ .nil := by
  have hm : m ≠ 0 := by
    rintro rfl
    have := ht.length_le
    omega
  cases h with
  | red hs _ => rintro rfl; cases hs; exact hm rfl
  | black hs _ => rintro rfl; cases hs; exact hm rfl

/-- The loop upwards stops at the parent of the next frame, whose right child is not the
sentinel. -/
theorem rbtTravUp_eq {n : Nat} : ∀ {c : Path Color α} {t : PTree Color α}, At T c t →
    Balanced (Path.fill c t) .black n → t ≠ .nil →
    (1 < t.toList.length ∨ ∀ f ∈ c.head?, f.side = .right) →
    (nextFrame c = none ∧ T.rbtTravUp (T.ptr t) (c.map (·.addr)) = none) ∨
    ∃ f c' t', nextFrame c = some (f, c') ∧ f.side = .left ∧ f.sib ≠ .nil ∧
      T.rbtTravUp (T.ptr t) (c.map (·.addr)) = some (f.addr, f.addr :: c'.map (·.addr)) ∧
      At T (f :: c') t' ∧ Path.fill (f :: c') t' = Path.fill c t
  | [], _, _, _, _, _ => .inl ⟨rfl, rfl⟩
  | f :: c, t, h, hb, ht, hn => by
    obtain ⟨hc, hsib⟩ := h.frame_child
    have hpos : 0 < t.toList.length := by
      cases t with
      | nil => exact absurd rfl ht
      | node _ _ _ _ _ => simp
    cases hs : f.side with
    | right =>
      rw [hs] at hc
      have hup : At T c (f.fill t) := At.focus.2 h
      have hlen : 1 < (f.fill t).toList.length := by
        simp only [Frame.fill, hs, PTree.nodeAt_right, PTree.toList_node, List.length_append, List.length_cons]
        omega
      have hptr : T.ptr (f.fill t) = f.addr := PTree.root_nodeAt ..
      have hstep : T.rbtTravUp (T.ptr t) ((f :: c).map (·.addr)) =
          T.rbtTravUp (T.ptr (f.fill t)) (c.map (·.addr)) := by
        rw [hptr, List.map_cons, rbtTravUp, if_pos (.inl hc.symm)]
      have hne : f.fill t ≠ .nil := by rintro h0; rw [h0] at hlen; simp at hlen
      rw [hstep, show nextFrame (f :: c) = nextFrame c by simp [nextFrame, hs]]
      exact rbtTravUp_eq hup hb hne (.inl hlen)
    | left =>
      rw [hs] at hc hsib
      obtain ⟨k, m, hbt, hole⟩ := hb.hole
      have hlen : 1 < t.toList.length := by
        rcases hn with hn | hn
        · exact hn
        · have := hn f rfl; rw [hs] at this; cases this
      have hnil := hole.sib_ne_nil hbt hlen
      have h1 : T.ptr t ≠ T.child .right f.addr := fun h0 => h.root_ne_sib (.inl ht) (h0.trans hsib)
      have h2 : T.sentinel ≠ T.child .right f.addr := fun h0 =>
        hnil ((At.ptr_eq_sentinel (At.focus_other.1 (At.focus.2 h))).1 (h0.trans hsib))
      refine .inr ⟨f, c, t, by simp [nextFrame, hs], hs, hnil, ?_, h, rfl⟩
      rw [List.map_cons, rbtTravUp, if_neg (by simp [h1, h2])]

/-! ## The traversal -/

/-- What a search over the list leaves: the elements up to the first that matches, and that one. -/
def findIn (find : α → Bool) : List α → List α → List α × Option α
  | out, [] => (out, none)
  | out, d :: l => if find d then (out ++ [d], some d) else findIn find (out ++ [d]) l

theorem findIn_eq (find : α → Bool) : ∀ l out : List α, findIn find out l =
    (out ++ l.takeWhile (fun d => !find d) ++ (l.find? find).toList, l.find? find)
  | [], out => by simp [findIn]
  | d :: l, out => by cases hd : find d <;> simp [findIn, hd, findIn_eq find l]

theorem findIn_never : ∀ l out : List α, findIn (fun _ => false) out l = (out ++ l, none)
  | [], out => by simp [findIn]
  | d :: l, out => by simp [findIn, findIn_never l]

/-- The callback of the search at a node, then the rest of the list. -/
theorem findAt_eq {find : α → Bool} {out l : List α} {p : Ptr} {d : α}
    {rest : List α → Option (List α × Option α)} (hd : (T.mem p).data = some d)
    (h : rest (out ++ [d]) = some (findIn find (out ++ [d]) l)) :
    T.findAt find out p rest = some (findIn find out (d :: l)) := by
  simp only [findAt, hd, h, findIn]
  split <;> rfl

theorem stackPush_some {max : Nat} {stack : List Ptr} (h : stack.length < max) (node : Ptr) :
    stackPush max stack node = some (node :: stack) := by simp [stackPush, h]

/-- What the loop does from a subtree: it visits it, then all that is right of it. -/
def Visits (T : RbTree α) (find : α → Bool) (max fuel n : Nat) : Prop :=
  ∀ (c : Path Color α) (t : PTree Color α) (out : List α),
    At T c t → Balanced (Path.fill c t) .black n → (Path.fill c t).height ≤ max → t ≠ .nil →
    t.toList.length + todo c < fuel →
      rbtFindLoop find max fuel T (T.ptr t) (c.map (·.addr)) out = some (findIn find out (t.toList ++ Path.after c))

section Visits

variable {find : α → Bool} {max fuel n : Nat}

/-- The right child of a frame left by its left child. -/
theorem Visits.sib (hv : Visits T find max fuel n) (out : List α) (h : At T (f :: c) t)
    (hb : Balanced (Path.fill (f :: c) t) .black n) (hm : (Path.fill (f :: c) t).height ≤ max)
    (hs : f.side = .left) (hnil : f.sib ≠ .nil) (hf : f.sib.toList.length + todo c < fuel) :
    rbtFindLoop find max fuel T (T.child .right f.addr) (f.addr :: c.map (·.addr)) out =
      some (findIn find out (f.sib.toList ++ Path.after c)) := by
  obtain ⟨s, a, k, d, y⟩ := f
  obtain rfl : s = .left := hs
  have hy : At T (⟨.right, a, k, d, t⟩ :: c) y := At.focus_other.1 (At.focus.2 h)
  rw [show T.child .right a = T.ptr y from h.frame_child.2]
  exact hv _ _ out hy hb hm hnil (by simpa [todo] using hf)

theorem Visits.next (hv : Visits T find max fuel n) (out : List α) (h : At T c t)
    (hb : Balanced (Path.fill c t) .black n) (hm : (Path.fill c t).height ≤ max) (ht : t ≠ .nil)
    (hn : 1 < t.toList.length ∨ ∀ f ∈ c.head?, f.side = .right) (hf : todo c < fuel) :
    T.findNext find (rbtFindLoop find max fuel T) out (T.rbtTravUp (T.ptr t) (c.map (·.addr))) =
      some (findIn find out (Path.after c)) := by
  rw [after_nextFrame]
  rw [todo_nextFrame] at hf
  rcases rbtTravUp_eq h hb ht hn with ⟨hnext, hup⟩ | ⟨f, c', t', hnext, hs, hnil, hup, h', hfill⟩
  · simp [hup, hnext, findNext, findIn]
  · rw [hnext] at hf
    have hdata : (T.mem f.addr).data = some f.data := by simp [h'.rep.cell_parent]
    rw [hup, hnext]
    refine findAt_eq hdata (hv.sib _ h' ?_ ?_ hs hnil hf)
    · rw [hfill]; exact hb
    · rw [hfill]; exact hm

theorem rbtFindLoop_visits : ∀ fuel, Visits T find max fuel n
  | 0 => fun _ _ _ _ _ _ _ hf => by omega
  | fuel + 1 => by
    have hv : Visits T find max fuel n := rbtFindLoop_visits fuel
    intro c t out h hb hm ht hf
    obtain _ | ⟨a, k, d, l, r⟩ := t
    · exact absurd rfl ht
    obtain ⟨hz, -, hl, hr, hd⟩ := h.read_node fun _ => 0
    have hal : At T (⟨.left, a, k, d, r⟩ :: c) l := (At.focus (s := .left)).1 h
    have har : At T (⟨.right, a, k, d, l⟩ :: c) r := (At.focus_other (s := .left)).1 h
    -- a node with a child is not the last on its way down, so there is room for it
    have hroom (hlr : 0 < l.height ∨ 0 < r.height) : (c.map (·.addr)).length < max := by
      have := Path.length_add_height c (.node a k d l r)
      simp only [PTree.height] at this
      rw [List.length_map]
      omega
    simp only [PTree.toList_node, List.length_append, List.length_cons] at hf
    have hlz : T.sentinel = T.child .left a ↔ l = .nil := by rw [hl]; exact hal.ptr_eq_sentinel
    have hrz : T.sentinel = T.child .right a ↔ r = .nil := by rw [hr]; exact har.ptr_eq_sentinel
    show rbtFindLoop find max (fuel + 1) T a _ out = _
    rw [rbtFindLoop, if_neg hz]
    by_cases hlnil : l = .nil
    · subst hlnil
      rw [if_neg (not_not.2 (hlz.2 rfl))]
      refine findAt_eq hd ?_
      by_cases hrnil : r = .nil
      · subst hrnil
        rw [if_neg (not_not.2 (hrz.2 rfl))]
        cases c with
        | nil => simp [Path.after, findIn]
        | cons f c =>
          obtain ⟨hc, hsib⟩ := h.frame_child
          have hdata : (T.mem f.addr).data = some f.data := by simp [h.rep.cell_parent]
          have hup : At T c (f.fill (.node a k d .nil .nil)) := At.focus.2 h
          have hptr : T.ptr (f.fill (.node a k d .nil .nil)) = f.addr := PTree.root_nodeAt ..
          simp only [List.map_cons]
          cases hs : f.side with
          | left =>
            rw [hs] at hc hsib
            simp only [todo, hs, if_true, PTree.toList_nil, List.length_nil] at hf
            have hsn : T.sentinel = T.child .right f.addr ↔ f.sib = .nil := by
              rw [show T.child .right f.addr = T.ptr f.sib from hsib]
              exact (At.focus_other.1 hup).ptr_eq_sentinel
            rw [if_pos (show T.child .left f.addr = a from hc),
              show Path.after (f :: c) = f.data :: (f.sib.toList ++ Path.after c) by simp [Path.after, hs]]
            refine findAt_eq hdata ?_
            by_cases hnil : f.sib = .nil
            · have hlen : 1 < (f.fill (.node a k d .nil .nil)).toList.length := by simp [Frame.fill, hs]
              have hne : f.fill (.node a k d .nil .nil) ≠ .nil := by rintro h0; rw [h0] at hlen; simp at hlen
              have := hv.next (out ++ [d] ++ [f.data]) hup hb hm hne (.inl hlen) (by omega)
              rw [hptr] at this
              rw [if_neg (not_not.2 (hsn.2 hnil)), hnil]
              exact this
            · rw [if_pos (mt hsn.1 hnil)]
              exact hv.sib _ h hb hm hs hnil (by omega)
          | right =>
            rw [hs] at hsib
            have hne : T.child .left f.addr ≠ a := fun h0 => h.root_ne_sib (.inl (by simp)) (h0.symm.trans hsib)
            rw [if_neg hne]
            exact hv.next (out ++ [d]) h hb hm (by simp) (.inr (by simp [hs])) (by simp at hf; omega)
      · rw [if_pos (mt hrz.1 hrnil), stackPush_some (hroom (.inr (PTree.height_pos hrnil))), hr]
        exact (hv _ _ (out ++ [d]) har hb hm hrnil (by simp [todo] at hf ⊢; omega)).trans (by simp [Path.after])
    · rw [if_pos (mt hlz.1 hlnil), stackPush_some (hroom (.inl (PTree.height_pos hlnil))), hl]
      exact (hv _ _ out hal hb hm hlnil (by simp [todo]; omega)).trans (by simp [Path.after])

end Visits

/-- The loop over a whole tree, with a stack as deep as the tree. -/
theorem rbtFindLoop_whole (h : Wf T t) (find : α → Bool) {max : Nat} (hm : t.height ≤ max) :
    rbtFindLoop find max (T.num + 1) T T.root [] [] = some (findIn find [] t.toList) := by
  rw [h.at_.root_eq]
  by_cases ht : t = .nil
  · subst ht
    simp [rbtFindLoop, findIn]
  · obtain ⟨n, hb⟩ := h.bal
    have hfuel : t.toList.length + todo ([] : Path Color α) < T.num + 1 := by
      have := h.num
      simp only [todo]
      omega
    simpa [Path.after] using rbtFindLoop_visits (T.num + 1) [] t [] h.at_ hb hm ht hfuel

/-- A callback that matches nothing is that of a traversal. -/
theorem findAt_false (out : List α) (p : Ptr) (rest : List α → Option (List α × Option α)) :
    T.findAt (fun _ => false) out p rest = rest (out ++ (T.mem p).data.toList) := by
  unfold findAt
  cases (T.mem p).data <;> simp

/-- A search that goes on below a node has found room for it on the stack. -/
theorem pushed_of_match {β : Type} {max : Nat} {stack : List Ptr} {p : Ptr} {f : List Ptr → Option β} {r : β}
    (h : (match stackPush max stack p with
      | none => none
      | some stack => f stack) = some r) : f (p :: stack) = some r := by
  by_cases hm : stack.length < max
  · rw [stackPush_some hm] at h
    exact h
  · simp [stackPush, hm] at h

/-- Where the search goes on upwards, so does the traversal. -/
theorem travNext_of_findNext {r : List α × Option α} {find : Ptr → List Ptr → List α → Option (List α × Option α)}
    {trav : Ptr → List Ptr → List α → Option (List α)} {out : List α} {up : Option (Ptr × List Ptr)}
    (ih : ∀ {node stack out}, find node stack out = some r → trav node stack out = some r.1) :
    T.findNext (fun _ => false) find out up = some r →
      (match up with
        | none => some out
        | some (parent, stack) =>
          trav (T.child .right parent) stack (out ++ (T.mem parent).data.toList)) = some r.1 := by
  intro h
  cases up with
  | none => cases h; rfl
  | some up =>
    simp only [findNext, findAt_false] at h
    exact ih h

/-- The traversal does what the search does that never matches, without a bound on its stack. -/
theorem rbtTravLoop_of_find {max : Nat} {r : List α × Option α} (fuel : Nat) : ∀ {node : Ptr} {stack : List Ptr}
    {out : List α}, rbtFindLoop (fun _ => false) max fuel T node stack out = some r →
      rbtTravLoop fuel T node stack out = some r.1 := by
  induction fuel with
  | zero => exact fun h => by simp [rbtFindLoop] at h
  | succ fuel ih =>
    intro node stack out h
    simp only [rbtFindLoop, findAt_false] at h
    rw [rbtTravLoop]
    split_ifs at h ⊢ with hz hl hr
    · cases h; rfl
    · exact ih (pushed_of_match h)
    · exact ih (pushed_of_match h)
    · cases stack with
      | nil => cases h; rfl
      | cons parent rest =>
        simp only at h ⊢
        split_ifs at h ⊢ with hp hpr
        · exact ih h
        · exact travNext_of_findNext ih h
        · exact travNext_of_findNext ih h

/-- `rbt_trav` visits every element once, in order. -/
theorem rbtTrav_eq (h : Wf T t) : T.rbtTrav = some t.toList := by
  have := rbtTravLoop_of_find _ (rbtFindLoop_whole h (fun _ => false) le_rfl)
  rw [findIn_never] at this
  exact this

/-! ## Writes in place -/

/-- A write keeps the tree but for the element the search meets. -/
theorem rbtWrite_alter (h : Wf T t) (ck : α → Int) (g : α → α) :
    ∃ T', T.rbtWrite ck g = some T' ∧ Wf T' (alterBy ck g t) := by
  have hheight := t.height_le_length
  have hnum := h.num
  have hfuel : t.height < T.num + 1 := by omega
  have hat := h.at_.descend ck
  have hfill := descend_fill ck t []
  have hmeet := meetBy_descend ck t []
  rw [rbtWrite, h.at_.root_eq, rbtQueryLoop_eq _ h.at_ hfuel]
  rcases he : descend ck t [] with ⟨c, _ | ⟨a, k, d, l, r⟩⟩ <;> rw [he] at hat hfill hmeet
  · exact ⟨T, rfl, by rw [alterBy_none hmeet]; exact h⟩
  have hfill' : Path.fill c (.node a k (g d) l r) = alterBy ck g t := fill_alterBy t [] he
  simp only [Path.fill_nil] at hfill
  obtain ⟨n, hb⟩ := h.bal
  obtain ⟨k', m, hk, hc⟩ := Balanced.hole (show Balanced (Path.fill c (.node a k d l r)) .black _ by
    rw [hfill]; exact hb)
  have hk' : Balanced (.node a k (g d) l r) k' m := by
    cases hk with
    | red h₁ h₂ => exact .red h₁ h₂
    | black h₁ h₂ => exact .black h₁ h₂
  have hcell : (T.mem a).data = some d := (hat.read_node ck).2.2.2.2
  have hat' : At (T.setData a (some (g d))) c (.node a k (g d) l r) := At.setData (s := .left) hat (g d)
  refine ⟨_, rfl, ?_, ?_, ?_⟩
  · rw [← hfill']
    simpa [hcell] using hat'.whole
  · rw [← hfill']
    exact hc.fill hk'
  · rw [← hfill', Path.toList_fill]
    have hl := congrArg (fun t => t.toList.length) hfill
    simp only [Path.toList_fill] at hl
    simpa using hnum.trans hl.symm

end BeehiveIm.Core.RbTree
