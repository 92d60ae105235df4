/-
Removals from a B-tree keep its shape, whatever they do to the order of its keys.
-/
import BeehiveIm.Core.Btree.Shape

namespace BeehiveIm.Core.Btree

open BeehiveIm.Lib

variable {δ : Type} {T T' : Btree δ} {m : Nat} {live : Nat → Prop} {level : Nat → Nat} {height : Nat}
  {node left right p mid fuel : Nat} {e last : Int × δ}

/-! ## A key that is borrowed -/

/-- A node gets a child, if it has any, and a key more, and its neighbour has one less. -/
theorem Shape.borrow {a : Nat} {moved : List Nat} (h : Shape m T live level height (some node)) (hn : live node)
    (ha : live a) (hne : a ≠ node) (hlevel : level a = level node)
    (hfields : T'.max = T.max ∧ T'.min = T.min ∧ T'.sepIdx = T.sepIdx ∧ T'.root = T.root ∧ T'.num = T.num)
    (hca : ((T'.mem a).child ++ moved).Perm (T.mem a).child)
    (hcn : (T'.mem node).child.Perm (moved ++ (T.mem node).child))
    (hmoved : moved.length = if level node = 0 then 0 else 1)
    (hothers : ∀ n, n ≠ a → n ≠ node → (T'.mem n).child = (T.mem n).child ∧
      (T'.mem n).kv.length = (T.mem n).kv.length)
    (hpm : ∀ c ∈ moved, (T'.mem c).parent = some node) (hpo : ∀ c, c ∉ moved → (T'.mem c).parent = (T.mem c).parent)
    (hka : (T'.mem a).kv.length + 1 = (T.mem a).kv.length) (hkn : (T'.mem node).kv.length = (T.mem node).kv.length + 1)
    (hsmall : (T.mem node).kv.length < T.min)
    (hlarge : T.max < (T.mem node).kv.length + (T.mem a).kv.length + 1) : Shape m T' live level height none := by
  have hthree := h.order.three
  have hmax := h.order.max
  have hmin := h.order.min
  have hsize := h.size a ha fun heq => hne (Option.some.inj heq)
  refine ⟨h.order.of_fields hfields.1 hfields.2.1 hfields.2.2.1,
    h.wired.move ha hn hne hlevel hfields.2.2.2.1 hca hcn (fun n _ hna hnn => (hothers n hna hnn).1) hpm
      fun c _ hc => hpo c hc, fun n hl => ?_, fun n hl _ => ?_, fun n hl => ?_, h.bound⟩
  · have hkids := h.kids n hl
    by_cases hna : n = a
    · subst hna
      have hlen := hca.length_eq
      rw [List.length_append, hmoved] at hlen
      rcases hkids with ⟨hzero, hnil⟩ | ⟨hlevel', hkids⟩
      · rw [hnil] at hca
        exact Or.inl ⟨hzero, (List.append_eq_nil_iff.mp hca.eq_nil).1⟩
      · rw [if_neg (hlevel ▸ hlevel')] at hlen
        exact Or.inr ⟨hlevel', by omega⟩
    by_cases hnn : n = node
    · subst hnn
      have hlen := hcn.length_eq
      rw [List.length_append, hmoved] at hlen
      rcases hkids with ⟨hzero, hnil⟩ | ⟨hlevel', hkids⟩
      · rw [if_pos hzero, hnil] at hlen
        exact Or.inl ⟨hzero, List.length_eq_zero_iff.mp hlen⟩
      · rw [if_neg hlevel'] at hlen
        exact Or.inr ⟨hlevel', by omega⟩
    · rw [(hothers n hna hnn).1, (hothers n hna hnn).2]
      exact hkids
  · rw [hfields.1]
    by_cases hna : n = a
    · subst hna
      omega
    by_cases hnn : n = node
    · subst hnn
      omega
    · rw [(hothers n hna hnn).2]
      exact h.size n hl fun heq => hnn (Option.some.inj heq)
  · rw [hfields.2.2.2.2]
    exact h.old n hl

/-- The nodes that have no common parent pointer are no children of each other. -/
theorem Shape.siblings (h : Shape m T live level height (some node)) (hl : live left) (hr : live right)
    (hpl : (T.mem left).parent = some p) (hpr : (T.mem right).parent = some p) :
    level left = level right ∧ left ≠ p ∧ right ≠ p ∧
      ∀ c ∈ (T.mem right).child, c ≠ left ∧ c ≠ right ∧ c ≠ p := by
  have hleft := (h.up hl hpl).2
  have hright := (h.up hr hpr).2
  refine ⟨by omega, ?_, ?_, fun c hc => ?_⟩
  · rintro rfl
    omega
  · rintro rfl
    omega
  · obtain ⟨-, hdown, -⟩ := h.down hr hc
    refine ⟨?_, ?_, ?_⟩ <;> rintro rfl <;> omega

/-- The last child of a node, if it has any -/
theorem Shape.last_child (h : Shape m T live level height (some node)) {a : Nat} (ha : live a) :
    (T.mem a).child.take (T.mem a).kv.length ++ (T.mem a).child[(T.mem a).kv.length]?.toList = (T.mem a).child ∧
      ((T.mem a).child[(T.mem a).kv.length]?.toList).length = if level a = 0 then 0 else 1 := by
  rcases h.kids a ha with ⟨hzero, hnil⟩ | ⟨hlevel, hkids⟩
  · rw [hnil, if_pos hzero]
    simp
  · have hlt : (T.mem a).kv.length < (T.mem a).child.length := by omega
    rw [List.getElem?_eq_getElem hlt, if_neg hlevel]
    refine ⟨?_, rfl⟩
    rw [Option.toList_some, ← List.take_succ_eq_append_getElem hlt, hkids.symm, List.take_length]

theorem Shape.first_child (h : Shape m T live level height (some node)) {a : Nat} (ha : live a) :
    (T.mem a).child[0]?.toList ++ (T.mem a).child.drop 1 = (T.mem a).child ∧
      ((T.mem a).child[0]?.toList).length = if level a = 0 then 0 else 1 := by
  rcases h.kids a ha with ⟨hzero, hnil⟩ | ⟨hlevel, hkids⟩
  · rw [hnil, if_pos hzero]
    exact ⟨rfl, rfl⟩
  · rw [if_neg hlevel]
    cases hchild : (T.mem a).child with
    | nil =>
      rw [hchild] at hkids
      exact absurd hkids.symm (Nat.succ_ne_zero _)
    | cons c child => exact ⟨rfl, rfl⟩

/-- The node is the last child. -/
theorem Shape.borrowLeft (mid : Nat) (h : Shape m T live level height (some node)) (hn : live node) (hl : live left)
    (hne : left ≠ node) (hpn : (T.mem node).parent = some p) (hpl : (T.mem left).parent = some p)
    (hmid : mid < (T.mem p).kv.length) (hsmall : (T.mem node).kv.length < T.min)
    (hlarge : T.max < (T.mem node).kv.length + (T.mem left).kv.length + 1) :
    ∃ T', T.borrowLeft node left p mid = some T' ∧ T'.num = T.num ∧ Shape m T' live level height none := by
  obtain ⟨hlevel, hnp, hlp, hkids⟩ := h.siblings hn hl hpn hpl
  obtain ⟨hlast, hone⟩ := h.last_child hl
  have hx : ∀ c ∈ (T.mem left).child[(T.mem left).kv.length]?.toList, c ≠ node ∧ c ≠ left ∧ c ≠ p := fun c hc => by
    refine hkids c ?_
    rw [← hlast]
    exact List.mem_append_right _ hc
  generalize hxs : (T.mem left).child[(T.mem left).kv.length]?.toList = xs at hlast hone hx
  have hnot : node ∉ xs ∧ left ∉ xs ∧ p ∉ xs :=
    ⟨fun h => (hx _ h).1 rfl, fun h => (hx _ h).2.1 rfl, fun h => (hx _ h).2.2 rfl⟩
  have hsize := h.size left hl fun heq => hne (Option.some.inj heq)
  have hkv : (T.mem left).kv ≠ [] := fun hnil => by
    rw [hnil] at hsize
    exact absurd hsize.1 (Nat.not_succ_le_zero 0)
  unfold Btree.borrowLeft
  simp only [List.getElem?_eq_getElem hmid, List.getLast?_eq_getLast_of_ne_nil hkv, hxs]
  refine ⟨_, rfl, ?_, ?_⟩
  · simp
  have hpn' : ¬p = node := fun heq => hnp heq.symm
  have hpl' : ¬p = left := fun heq => hlp heq.symm
  have hnl : ¬node = left := fun heq => hne heq.symm
  refine h.borrow hn hl hne hlevel.symm ⟨?_, ?_, ?_, ?_, ?_⟩ (List.Perm.of_eq ?_) (List.Perm.of_eq ?_)
    (hone.trans (by rw [hlevel])) (fun n hnl' hnn => ?_) (fun c hc => ?_) (fun c hc => ?_) ?_ ?_ hsmall hlarge
  any_goals simp
  · simpa [mem_set, mem_adopt, hne, hlp, hnot] using hlast
  · simp [mem_set, mem_adopt, hnl, hnp, hnot]
  · by_cases hcp : n = p <;> by_cases hcx : n ∈ xs <;> simp [mem_set, mem_adopt, hnl', hnn, hcp, hcx, hpn', hpl', hnot]
  · simp [mem_set, mem_adopt, hc, hx c hc]
  · by_cases hcp : c = p <;> by_cases hcn : c = node <;> by_cases hcl : c = left <;>
      simp_all [mem_set, mem_adopt]
  · simp [mem_set, mem_adopt, hne, hlp, hnot]
    omega
  · simp [mem_set, mem_adopt, hnl, hnp, hnot]

/-- The node has a neighbour to the right. -/
theorem Shape.borrowRight (mid : Nat) (h : Shape m T live level height (some node)) (hn : live node) (hr : live right)
    (hne : right ≠ node) (hpn : (T.mem node).parent = some p) (hpr : (T.mem right).parent = some p)
    (hmid : mid < (T.mem p).kv.length) (hsmall : (T.mem node).kv.length < T.min)
    (hlarge : T.max < (T.mem node).kv.length + (T.mem right).kv.length + 1) :
    ∃ T', T.borrowRight node right p mid = some T' ∧ T'.num = T.num ∧ Shape m T' live level height none := by
  obtain ⟨hlevel, hnp, hrp, hkids⟩ := h.siblings hn hr hpn hpr
  obtain ⟨hfirst, hone⟩ := h.first_child hr
  have hx : ∀ c ∈ (T.mem right).child[0]?.toList, c ≠ node ∧ c ≠ right ∧ c ≠ p := fun c hc => by
    refine hkids c ?_
    rw [← hfirst]
    exact List.mem_append_left _ hc
  generalize hxs : (T.mem right).child[0]?.toList = xs at hfirst hone hx
  have hnot : node ∉ xs ∧ right ∉ xs ∧ p ∉ xs :=
    ⟨fun h => (hx _ h).1 rfl, fun h => (hx _ h).2.1 rfl, fun h => (hx _ h).2.2 rfl⟩
  have hsize := h.size right hr fun heq => hne (Option.some.inj heq)
  obtain ⟨first, kv, hkv⟩ : ∃ first kv, (T.mem right).kv = first :: kv :=
    List.exists_cons_of_length_pos hsize.1
  unfold Btree.borrowRight
  simp only [List.getElem?_eq_getElem hmid, hkv, hxs]
  refine ⟨_, rfl, ?_, ?_⟩
  · simp
  have hpn' : ¬p = node := fun heq => hnp heq.symm
  have hpr' : ¬p = right := fun heq => hrp heq.symm
  have hnr : ¬node = right := fun heq => hne heq.symm
  refine h.borrow hn hr hne hlevel.symm ⟨?_, ?_, ?_, ?_, ?_⟩ (List.perm_append_comm.trans (List.Perm.of_eq ?_))
    (List.Perm.trans (List.Perm.of_eq ?_) List.perm_append_comm) (hone.trans (by rw [hlevel])) (fun n hnr' hnn => ?_)
    (fun c hc => ?_) (fun c hc => ?_) ?_ ?_ hsmall hlarge
  any_goals simp
  · simpa [mem_set, mem_adopt, hne, hrp, hnot] using hfirst
  · simp [mem_set, mem_adopt, hnr, hnp, hnot]
  · by_cases hcp : n = p <;> by_cases hcx : n ∈ xs <;> simp [mem_set, mem_adopt, hnr', hnn, hcp, hcx, hpn', hpr', hnot]
  · simp [mem_set, mem_adopt, hc, hx c hc]
  · by_cases hcp : c = p <;> by_cases hcn : c = node <;> by_cases hcl : c = right <;>
      simp_all [mem_set, mem_adopt]
  · simp [mem_set, mem_adopt, hne, hrp, hnot, hkv]
  · simp [mem_set, mem_adopt, hnr, hnp, hnot]

/-! ## Two nodes that are merged -/

/-- `_btree_merge` up to its last check: the right node goes, and the parent has a key less. -/
theorem Shape.merge_nodes {cur : Nat} (h : Shape m T live level height (some cur)) (hl : live left) (hr : live right)
    (hcur : cur = left ∨ cur = right) (hpl : (T.mem left).parent = some p) (hpr : (T.mem right).parent = some p)
    (hleft : (T.mem p).child[mid]? = some left) (hright : (T.mem p).child[mid + 1]? = some right)
    (hfit : (T.mem left).kv.length + (T.mem right).kv.length + 1 ≤ T.max) (merge : Btree δ → Nat → Option (Btree δ)) :
    ∃ T', btreeMergeNodes merge T left right mid =
        (if (T'.mem p).kv.length < T'.min then merge T' p else some T') ∧ T'.num = T.num ∧
      (T'.mem p).kv.length + 1 = (T.mem p).kv.length ∧
      Shape m T' (fun n => live n ∧ n ≠ right) level height (some p) := by
  obtain ⟨hlevel, hlp, hrp, hkids⟩ := h.siblings hl hr hpl hpr
  have hlive : live p := (h.up hl hpl).1
  have hne : left ≠ right := by
    rintro rfl
    have hnodup := h.wired.nodup p hlive
    have hlt := (List.getElem?_eq_some_iff.mp hleft).1
    have hlt' := (List.getElem?_eq_some_iff.mp hright).1
    have := (List.getElem?_inj hlt hnodup).mp (hleft.trans hright.symm)
    omega
  have hnot : left ∉ (T.mem right).child ∧ right ∉ (T.mem right).child ∧ p ∉ (T.mem right).child :=
    ⟨fun hc => (hkids _ hc).1 rfl, fun hc => (hkids _ hc).2.1 rfl, fun hc => (hkids _ hc).2.2 rfl⟩
  have hcp : p ≠ cur := by
    rintro rfl
    rcases hcur with rfl | rfl
    · exact hlp rfl
    · exact hrp rfl
  have hsizep := h.size p hlive fun heq => hcp (Option.some.inj heq)
  have hlt' := (List.getElem?_eq_some_iff.mp hright).1
  have hkidsp : level p ≠ 0 ∧ (T.mem p).child.length = (T.mem p).kv.length + 1 := by
    rcases h.kids p hlive with ⟨-, hnil⟩ | hkidsp
    · rw [hnil] at hlt'
      exact absurd hlt' (Nat.not_lt_zero _)
    · exact hkidsp
  have hmid : mid < (T.mem p).kv.length := by omega
  have hpl' : ¬p = left := fun heq => hlp heq.symm
  have hpr' : ¬p = right := fun heq => hrp heq.symm
  have hrl : ¬right = left := fun heq => hne heq.symm
  unfold btreeMergeNodes
  simp only [hpl, List.getElem?_eq_getElem hmid, mem_set, mem_adopt, if_neg hpl', if_neg hnot.2.2, if_true]
  generalize hT' : Btree.set _ p _ = T'
  have hmem : ∀ n, T'.mem n = if n = p then
      { T.mem p with kv := (T.mem p).kv.eraseIdx mid, child := (T.mem p).child.eraseIdx (mid + 1) }
      else if n ∈ (T.mem right).child then { T.mem n with parent := some left }
      else if n = left then
        ⟨(T.mem left).kv ++ (T.mem p).kv[mid] :: (T.mem right).kv, (T.mem left).child ++ (T.mem right).child, some p⟩
      else T.mem n := fun n => by
    rw [← hT', mem_set]
    by_cases hnp : n = p
    · rw [if_pos hnp, if_pos hnp]
    rw [if_neg hnp, if_neg hnp, mem_adopt, mem_set]
    by_cases hnr : n ∈ (T.mem right).child
    · have hnl : ¬n = left := by
        rintro rfl
        exact hnot.1 hnr
      rw [if_pos hnr, if_pos hnr, if_neg hnl]
    · rw [if_neg hnr, if_neg hnr]
  have hp' : T'.mem p =
      { T.mem p with kv := (T.mem p).kv.eraseIdx mid, child := (T.mem p).child.eraseIdx (mid + 1) } :=
    (hmem p).trans (if_pos rfl)
  have hl' : T'.mem left = ⟨(T.mem left).kv ++ (T.mem p).kv[mid] :: (T.mem right).kv,
      (T.mem left).child ++ (T.mem right).child, some p⟩ := by
    rw [hmem, if_neg hlp, if_neg hnot.1, if_pos rfl]
  have hothers : ∀ n, n ≠ p → n ≠ left → (T'.mem n).kv = (T.mem n).kv ∧ (T'.mem n).child = (T.mem n).child :=
    fun n hnp hnl => by
      rw [hmem, if_neg hnp, if_neg hnl]
      split <;> exact ⟨rfl, rfl⟩
  have hmoved : ∀ n ∈ (T.mem right).child, (T'.mem n).parent = some left := fun n hn => by
    rw [hmem, if_neg (hkids n hn).2.2, if_pos hn]
  have hstay : ∀ n, n ∉ (T.mem right).child → (T'.mem n).parent = (T.mem n).parent := fun n hn => by
    rw [hmem, if_neg hn]
    split
    · rename_i heq
      rw [heq]
    · split
      · rename_i heq
        rw [heq, hpl]
      · rfl
  have hlenp : (T'.mem p).kv.length + 1 = (T.mem p).kv.length := by
    rw [hp', List.length_eraseIdx_of_lt hmid]
    omega
  have hfields : T'.max = T.max ∧ T'.min = T.min ∧ T'.sepIdx = T.sepIdx ∧ T'.root = T.root ∧ T'.num = T.num := by
    rw [← hT']
    simp
  -- the left node gets all the children of the right one, which then goes
  let F : Kin Nat := ⟨T.root,
    fun n => if n = left then (T.mem left).child ++ (T.mem right).child else if n = right then [] else (T.mem n).child,
    fun n => if n ∈ (T.mem right).child then some left else (T.mem n).parent⟩
  have hmove : F.Wired live level := by
    refine h.wired.move hr hl hne.symm hlevel.symm rfl (List.Perm.of_eq ?_) (List.Perm.trans (List.Perm.of_eq ?_)
      List.perm_append_comm) (fun n _ hnr hnl => ?_) (fun c hc => if_pos hc) fun c _ hc => if_neg hc
    · show (if right = left then _ else if right = right then [] else _) ++ _ = _
      rw [if_neg hrl, if_pos rfl]
      rfl
    · exact if_pos rfl
    · exact (if_neg hnl).trans (if_neg hnr)
  have hgone : (right :: (T.mem p).child.eraseIdx (mid + 1)).Perm (T.mem p).child := by
    obtain ⟨hlt, hget⟩ := List.getElem?_eq_some_iff.mp hright
    rw [← hget]
    exact List.getElem_cons_eraseIdx_perm hlt
  have hwired : T'.links.Wired (fun n => live n ∧ n ≠ right) level := by
    refine hmove.detach hr ((if_neg hrl).trans (if_pos rfl)) ((if_neg hnot.2.1).trans hpr) hfields.2.2.2.1 ?_
      (fun n _ hnp hnr => ?_) fun c _ _ => ?_
    · show (right :: (T'.mem p).child).Perm (if p = left then _ else if p = right then _ else (T.mem p).child)
      rw [if_neg hpl', if_neg hpr', hp']
      exact hgone
    · show (T'.mem n).child = if n = left then _ else if n = right then [] else (T.mem n).child
      by_cases hnl : n = left
      · rw [if_pos hnl, hnl, hl']
      · rw [if_neg hnl, if_neg hnr]
        exact (hothers n hnp hnl).2
    · show (T'.mem c).parent = if c ∈ (T.mem right).child then some left else (T.mem c).parent
      by_cases hc : c ∈ (T.mem right).child
      · rw [if_pos hc, hmoved c hc]
      · rw [if_neg hc, hstay c hc]
  refine ⟨T', ?_, hfields.2.2.2.2, hlenp, h.order.of_fields hfields.1 hfields.2.1 hfields.2.2.1, hwired,
    fun n hn => ?_, fun n hn hnp => ?_, fun n hn => by rw [hfields.2.2.2.2]; exact h.old n hn.1,
    fun n hn => h.bound n hn.1⟩
  · rw [hp']
  · by_cases hnp : n = p
    · subst hnp
      rw [hp', List.length_eraseIdx_of_lt hlt', List.length_eraseIdx_of_lt hmid]
      exact Or.inr ⟨hkidsp.1, by omega⟩
    by_cases hnl : n = left
    · subst hnl
      rw [hl']
      rcases h.kids n hl with ⟨hzero, hnil⟩ | ⟨hlevel', hkidsl⟩ <;>
        rcases h.kids right hr with ⟨hzero', hnil'⟩ | ⟨hlevel'', hkidsr⟩
      · exact Or.inl ⟨hzero, by rw [hnil, hnil']; rfl⟩
      · omega
      · omega
      · refine Or.inr ⟨hlevel', ?_⟩
        simp only [List.length_append, List.length_cons]
        omega
    · rw [(hothers n hnp hnl).1, (hothers n hnp hnl).2]
      exact h.kids n hn.1
  · have hnp' : n ≠ p := fun heq => hnp (congrArg some heq)
    rw [hfields.1]
    by_cases hnl : n = left
    · rw [hnl, hl']
      simp only [List.length_append, List.length_cons]
      omega
    · rw [(hothers n hnp' hnl).1]
      refine h.size n hn.1 fun heq => ?_
      rcases hcur with rfl | rfl
      · exact hnl (Option.some.inj heq)
      · exact hn.2 (Option.some.inj heq)

/-! ## The loop -/

/-- The root when it has lost its last key -/
theorem Shape.lower (h : Shape m T live level height (some node)) (hheight : height ≤ T.num) (hn : live node)
    (hp : (T.mem node).parent = none) (hmem : ∀ n, live n → (T'.mem n).kv = (T.mem n).kv ∧ (T'.mem n).child = (T.mem n).child)
    (hfields : T'.max = T.max ∧ T'.min = T.min ∧ T'.sepIdx = T.sepIdx ∧ T'.num = T.num)
    (hroot : (T.mem node).child = T'.root.toList) (htop : ∀ c ∈ T'.root, (T'.mem c).parent = none)
    (hparent : ∀ c, live c → c ∉ T'.root → (T'.mem c).parent = (T.mem c).parent) : Sound m T' := by
  have hwired : T'.links.Wired (fun n => live n ∧ n ≠ node) level :=
    h.wired.lower (h.wired.top node hn hp) hroot (fun n hl _ => (hmem n hl).2) htop hparent
  refine ⟨_, level, height, ⟨h.order.of_fields hfields.1 hfields.2.1 hfields.2.2.1, hwired, fun n hl => ?_,
    fun n hl _ => ?_, fun n hl => by rw [hfields.2.2.2]; exact h.old n hl.1, fun n hl => h.bound n hl.1⟩,
    by rw [hfields.2.2.2]; exact hheight⟩
  · rw [(hmem n hl.1).1, (hmem n hl.1).2]
    exact h.kids n hl.1
  · rw [(hmem n hl.1).1, hfields.1]
    exact h.size n hl.1 fun heq => hl.2 (Option.some.inj heq)

theorem Shape.merge_root (h : Shape m T live level height (some node)) (hheight : height ≤ T.num) (hn : live node)
    (hp : (T.mem node).parent = none) (hsmall : (T.mem node).kv.length < T.min) :
    ∃ T', btreeMerge (fuel + 1) T node = some T' ∧ Sound m T' := by
  unfold btreeMerge
  simp only [hp]
  by_cases hzero : (T.mem node).kv.length = 0
  · rw [if_pos hzero]
    cases hc : (T.mem node).child with
    | nil =>
      refine ⟨_, rfl, h.lower hheight hn hp (fun n _ => ⟨rfl, rfl⟩) ⟨rfl, rfl, rfl, rfl⟩ hc (fun c hc => ?_) fun c _ _ => rfl⟩
      exact nomatch hc
    | cons c rest =>
      have hrest : rest = [] := by
        rcases h.kids node hn with ⟨-, hnil⟩ | ⟨-, hkids⟩
        · exact absurd (hc.symm.trans hnil) (List.cons_ne_nil _ _)
        · rw [hc, hzero, List.length_cons] at hkids
          exact List.length_eq_zero_iff.mp (by omega)
      subst hrest
      refine ⟨_, rfl, h.lower hheight hn hp (fun n _ => ?_) ⟨rfl, rfl, rfl, rfl⟩ hc (fun c' hc' => ?_) fun c' _ hc' => ?_⟩
      · show ((T.set c { T.mem c with parent := none }).mem n).kv = _ ∧
          ((T.set c { T.mem c with parent := none }).mem n).child = _
        rw [mem_set]
        by_cases hnc : n = c
        · rw [if_pos hnc, hnc]
          exact ⟨rfl, rfl⟩
        · rw [if_neg hnc]
          exact ⟨rfl, rfl⟩
      · cases hc'
        show ((T.set c { T.mem c with parent := none }).mem c).parent = none
        rw [mem_set, if_pos rfl]
      · have hne : ¬c' = c := by
          rintro rfl
          exact hc' rfl
        show ((T.set c { T.mem c with parent := none }).mem c').parent = _
        rw [mem_set, if_neg hne]
  · rw [if_neg hzero]
    have hmax := h.order.max
    have hmin := h.order.min
    exact ⟨T, rfl, live, level, height, h.settle (by omega) (by omega), hheight⟩

/-- `btree_merge` makes a node that has too few keys right again, and those above it. -/
theorem Shape.merge : ∀ (fuel : Nat) {T : Btree δ} {live : Nat → Prop} {level : Nat → Nat} {height node : Nat},
    Shape m T live level height (some node) → live node → (T.mem node).kv.length < T.min →
    height < fuel + level node → height ≤ T.num → ∃ T', btreeMerge fuel T node = some T' ∧ Sound m T'
  | 0, T, live, level, height, node, h, hn, _, hfuel, _ => by
    have := h.bound node hn
    omega
  | fuel + 1, T, live, level, height, node, h, hn, hsmall, hfuel, hheight => by
    cases hp : (T.mem node).parent with
    | none => exact h.merge_root hheight hn hp hsmall
    | some p =>
      obtain ⟨hlive, hlevel⟩ := h.up hn hp
      have hne : p ≠ node := by
        rintro rfl
        omega
      have hsize := h.size p hlive fun heq => hne (Option.some.inj heq)
      have hmem : node ∈ (T.mem p).child := (h.wired.up node hn p hp).2
      have hkids : (T.mem p).child.length = (T.mem p).kv.length + 1 := by
        rcases h.kids p hlive with ⟨hzero, -⟩ | hkids
        · omega
        · exact hkids.2
      have hlt := List.idxOf_lt_length_iff.mpr hmem
      have hat : (T.mem p).child[(T.mem p).child.idxOf node]? = some node := List.getElem?_idxOf hmem
      -- what follows a merge: the parent has a key less
      have hrest : ∀ {left right mid : Nat}, live left → live right → node = left ∨ node = right →
          (T.mem left).parent = some p → (T.mem right).parent = some p → (T.mem p).child[mid]? = some left →
          (T.mem p).child[mid + 1]? = some right → (T.mem left).kv.length + (T.mem right).kv.length + 1 ≤ T.max →
          ∃ T', btreeMergeNodes (btreeMerge fuel) T left right mid = some T' ∧ Sound m T' := by
        intro left right mid hl hr hcur hpl hpr hleft hright hfit
        obtain ⟨T₁, hrun, hnum, hlen, hshape⟩ := h.merge_nodes hl hr hcur hpl hpr hleft hright hfit (btreeMerge fuel)
        rw [hrun]
        have hpr' : p ≠ right := by
          rintro rfl
          exact (h.siblings hl hr hpl hpr).2.2.1 rfl
        have hmax := h.order.max
        have hmin := h.order.min
        have hmax' := hshape.order.max
        have hmin' := hshape.order.min
        split
        · exact hshape.merge fuel ⟨hlive, hpr'⟩ (by assumption) (by omega) (by omega)
        · exact ⟨T₁, rfl, _, level, height, hshape.settle (by omega) (by omega), by omega⟩
      unfold btreeMerge
      simp only [hp]
      rw [if_neg (show ¬(T.mem p).child.idxOf node > (T.mem p).kv.length by omega)]
      generalize (T.mem p).child.idxOf node = idx at hlt hat
      by_cases hlast : idx = (T.mem p).kv.length
      · rw [if_pos hlast]
        have hltl : idx - 1 < (T.mem p).child.length := by omega
        have hatl := List.getElem?_eq_getElem hltl
        obtain ⟨hl, -, hpl⟩ := h.down hlive (List.getElem_mem hltl)
        rw [hatl]
        generalize (T.mem p).child[idx - 1] = left at hatl hl hpl
        dsimp only
        have hidx : idx - 1 + 1 = idx := by omega
        have hnl : left ≠ node := by
          rintro rfl
          have := (List.getElem?_inj hlt (h.wired.nodup p hlive)).mp (hat.trans hatl.symm)
          omega
        split
        · exact hrest hl hn (Or.inr rfl) hpl hp hatl (by rw [hidx]; exact hat) (by omega)
        · obtain ⟨T', hrun, hnum, hshape⟩ := h.borrowLeft (idx - 1) hn hl hnl hp hpl (by omega) hsmall (by omega)
          exact ⟨T', hrun, live, level, height, hshape, by omega⟩
      · rw [if_neg hlast]
        have hltr : idx + 1 < (T.mem p).child.length := by omega
        have hatr := List.getElem?_eq_getElem hltr
        obtain ⟨hr, -, hpr⟩ := h.down hlive (List.getElem_mem hltr)
        rw [hatr]
        generalize (T.mem p).child[idx + 1] = right at hatr hr hpr
        dsimp only
        have hnr : right ≠ node := by
          rintro rfl
          have := (List.getElem?_inj hlt (h.wired.nodup p hlive)).mp (hat.trans hatr.symm)
          omega
        split
        · exact hrest hn hr (Or.inl rfl) hp hpr hat hatr (by omega)
        · obtain ⟨T', hrun, hnum, hshape⟩ := h.borrowRight idx hn hr hnr hp hpr (by omega) hsmall (by omega)
          exact ⟨T', hrun, live, level, height, hshape, by omega⟩

/-! ## Removals -/

theorem Shape.lastLeaf (h : Shape m T live level height none) : ∀ {fuel node : Nat}, live node → level node < fuel →
    ∃ leaf, T.lastLeaf fuel node = some leaf ∧ live leaf ∧ level leaf = 0
  | 0, _, _, hfuel => absurd hfuel (Nat.not_lt_zero _)
  | fuel + 1, node, hn, hfuel => by
    unfold Btree.lastLeaf
    cases hc : (T.mem node).child[(T.mem node).kv.length]? with
    | none =>
      refine ⟨node, rfl, hn, ?_⟩
      rcases h.kids node hn with hleaf | ⟨-, hlen⟩
      · exact hleaf.1
      · rw [List.getElem?_eq_none_iff] at hc
        omega
    | some c =>
      obtain ⟨hlive, hdown, -⟩ := h.down hn (List.mem_of_getElem? hc)
      exact h.lastLeaf hlive (by omega)

/-- The last key of a leaf takes the place of the one that is removed. -/
theorem Shape.removeLast {orig idx leaf : Nat} (h : Shape m T live level height none) (hheight : height ≤ T.num)
    (hn : live leaf) (hleaf : level leaf = 0) : ∃ T', T.removeLast orig idx leaf = some T' ∧ Sound m T' := by
  have hsize := h.size leaf hn (Option.some_ne_none leaf)
  have hkv : (T.mem leaf).kv ≠ [] := fun hnil => by
    rw [hnil] at hsize
    exact absurd hsize.1 (Nat.not_succ_le_zero 0)
  unfold Btree.removeLast
  rw [List.getLast?_eq_getLast_of_ne_nil hkv]
  dsimp only
  generalize hT₁ : T.set orig _ = T₁
  generalize hT₂ : T₁.set leaf _ = T₂
  have hmem₁ : ∀ n, (T₁.mem n).child = (T.mem n).child ∧ (T₁.mem n).parent = (T.mem n).parent ∧
      (T₁.mem n).kv.length = (T.mem n).kv.length := fun n => by
    rw [← hT₁, mem_set]
    split
    · rename_i heq
      rw [heq]
      exact ⟨rfl, rfl, List.length_set⟩
    · exact ⟨rfl, rfl, rfl⟩
  have hmem₂ : ∀ n, (T₂.mem n).child = (T₁.mem n).child ∧ (T₂.mem n).parent = (T₁.mem n).parent := fun n => by
    rw [← hT₂, mem_set]
    split
    · rename_i heq
      rw [heq]
      exact ⟨rfl, rfl⟩
    · exact ⟨rfl, rfl⟩
  have hothers : ∀ n, n ≠ leaf → (T₂.mem n).kv.length = (T.mem n).kv.length := fun n hne => by
    rw [← hT₂, mem_set, if_neg hne, (hmem₁ n).2.2]
  have hlen : (T₂.mem leaf).kv.length + 1 = (T.mem leaf).kv.length := by
    rw [← hT₂, mem_set, if_pos rfl, List.length_dropLast, (hmem₁ leaf).2.2]
    omega
  have hfields : T₂.max = T.max ∧ T₂.min = T.min ∧ T₂.sepIdx = T.sepIdx ∧ T₂.root = T.root ∧ T₂.num = T.num := by
    rw [← hT₂, ← hT₁]
    exact ⟨rfl, rfl, rfl, rfl, rfl⟩
  have hshape := h.rekey hfields.1 hfields.2.1 hfields.2.2.1 hfields.2.2.2.1 hfields.2.2.2.2
    (fun n => ⟨(hmem₂ n).1.trans (hmem₁ n).1, (hmem₂ n).2.trans (hmem₁ n).2.1⟩) hleaf hothers
  have hmax := hshape.order.max
  have hmin := hshape.order.min
  have hmax' := h.order.max
  have hthree := h.order.three
  have hbound := h.bound leaf hn
  split
  · exact hshape.merge (T₂.num + 1) hn (by assumption) (by omega) (by omega)
  · exact ⟨T₂, rfl, live, level, height, hshape.settle (by omega) (by omega), by omega⟩

/-- A removal leaves no array and does not get lost. -/
theorem Sound.remove (h : Sound m T) (key : Int) : ∃ T' data, T.btreeRemove key = some (T', data) ∧ Sound m T' := by
  obtain ⟨live, level, height, hshape, hheight⟩ := id h
  unfold btreeRemove
  cases hr : T.root with
  | none => exact ⟨T, none, rfl, h⟩
  | some root =>
    have hlive := (hshape.wired.root root hr).1
    have hbound := hshape.bound root hlive
    have hfuel : level root < T.num := by omega
    obtain ⟨node, idx, found, hdescend, hn, hfound, -⟩ := hshape.descend key hlive hfuel
    dsimp only
    rw [hdescend]
    cases found with
    | false => exact ⟨T, none, rfl, h⟩
    | true =>
      have hremove : ∃ T', T.btreeRemoveAt node idx = some T' ∧ Sound m T' := by
        unfold btreeRemoveAt
        cases hc : (T.mem node).child[idx]? with
        | none =>
          refine hshape.removeLast hheight hn ?_
          rcases hshape.kids node hn with hleaf | ⟨-, hlen⟩
          · exact hleaf.1
          · have := hfound rfl
            rw [List.getElem?_eq_none_iff] at hc
            omega
        | some child =>
          obtain ⟨hchild, hdown, -⟩ := hshape.down hn (List.mem_of_getElem? hc)
          have hlevel := hshape.bound child hchild
          obtain ⟨leaf, hlast, hleaf, hzero⟩ := hshape.lastLeaf hchild (show level child < T.num by omega)
          dsimp only
          rw [hlast]
          exact hshape.removeLast hheight hleaf hzero
      obtain ⟨T', hrun, hsound⟩ := hremove
      dsimp only
      rw [hrun]
      exact ⟨T', _, rfl, hsound⟩

end BeehiveIm.Core.Btree
