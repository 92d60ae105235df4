/-
The shape of a B-tree, whatever its keys: the pointers fit each other, the leaves are on one
level, and no node has more keys than its arrays are made for. Insertions keep it when they
get the memory they need.
-/
import BeehiveIm.Core.Btree
import BeehiveIm.Lib.Kin

namespace BeehiveIm.Core.Btree

open BeehiveIm.Lib

variable {δ : Type}

/-! ## Memory -/

section Memory

variable (T : Btree δ) (n k : Nat) (N : BtreeNode δ) (kids : List Nat)

theorem mem_set : (T.set n N).mem k = if k = n then N else T.mem k := Function.update_apply T.mem n N k

@[simp] theorem set_max : (T.set n N).max = T.max := rfl

@[simp] theorem set_min : (T.set n N).min = T.min := rfl

@[simp] theorem set_sepIdx : (T.set n N).sepIdx = T.sepIdx := rfl

@[simp] theorem set_root : (T.set n N).root = T.root := rfl

@[simp] theorem set_num : (T.set n N).num = T.num := rfl

theorem adopt_fields : (T.adopt kids n).max = T.max ∧ (T.adopt kids n).min = T.min ∧
    (T.adopt kids n).sepIdx = T.sepIdx ∧ (T.adopt kids n).root = T.root ∧ (T.adopt kids n).num = T.num := by
  induction kids generalizing T with
  | nil => exact ⟨rfl, rfl, rfl, rfl, rfl⟩
  | cons c kids ih => exact ih (T.set c { T.mem c with parent := some n })

@[simp] theorem adopt_max : (T.adopt kids n).max = T.max := (adopt_fields T n kids).1

@[simp] theorem adopt_min : (T.adopt kids n).min = T.min := (adopt_fields T n kids).2.1

@[simp] theorem adopt_sepIdx : (T.adopt kids n).sepIdx = T.sepIdx := (adopt_fields T n kids).2.2.1

@[simp] theorem adopt_root : (T.adopt kids n).root = T.root := (adopt_fields T n kids).2.2.2.1

@[simp] theorem adopt_num : (T.adopt kids n).num = T.num := (adopt_fields T n kids).2.2.2.2

/-- The nodes that are adopted point at their parent, and nothing else changes. -/
theorem mem_adopt : (T.adopt kids n).mem k = if k ∈ kids then { T.mem k with parent := some n } else T.mem k := by
  induction kids generalizing T with
  | nil => rfl
  | cons c kids ih =>
    have hadopt : T.adopt (c :: kids) n = (T.set c { T.mem c with parent := some n }).adopt kids n := rfl
    rw [hadopt, ih, mem_set]
    by_cases hkc : k = c
    · subst hkc
      rw [if_pos rfl, if_pos List.mem_cons_self]
      split <;> rfl
    · rw [if_neg hkc]
      simp only [List.mem_cons, hkc, false_or]

@[simp] theorem alloc_max : T.btreeNodeAlloc.max = T.max := rfl

@[simp] theorem alloc_min : T.btreeNodeAlloc.min = T.min := rfl

@[simp] theorem alloc_sepIdx : T.btreeNodeAlloc.sepIdx = T.sepIdx := rfl

@[simp] theorem alloc_root : T.btreeNodeAlloc.root = T.root := rfl

@[simp] theorem alloc_num : T.btreeNodeAlloc.num = T.num + 1 := rfl

theorem mem_alloc : T.btreeNodeAlloc.mem k = if k = T.num then ⟨[], [], none⟩ else T.mem k := mem_set T T.num k _

@[simp] theorem finishSplit_max (node node2 : Nat) : (T.finishSplit node node2).max = T.max := adopt_max _ _ _

@[simp] theorem finishSplit_min (node node2 : Nat) : (T.finishSplit node node2).min = T.min := adopt_min _ _ _

@[simp] theorem finishSplit_sepIdx (node node2 : Nat) : (T.finishSplit node node2).sepIdx = T.sepIdx := adopt_sepIdx _ _ _

@[simp] theorem finishSplit_root (node node2 : Nat) : (T.finishSplit node node2).root = T.root := adopt_root _ _ _

@[simp] theorem finishSplit_num (node node2 : Nat) : (T.finishSplit node node2).num = T.num := adopt_num _ _ _

theorem mem_finishSplit (node node2 : Nat) : (T.finishSplit node node2).mem k =
    if k ∈ (T.mem node).child.drop (T.sepIdx + 1) then
      { (if k = node then { T.mem node with child := (T.mem node).child.take (T.sepIdx + 1) } else T.mem k) with
        parent := some node2 }
    else if k = node then { T.mem node with child := (T.mem node).child.take (T.sepIdx + 1) } else T.mem k := by
  unfold finishSplit
  dsimp only
  rw [mem_adopt, mem_set]
  rfl

end Memory

/-! ## The shape -/

/-- What `btree_creat` makes of the order `m` -/
structure Of (m : Nat) (T : Btree δ) : Prop where
  three : 3 ≤ m
  max : T.max + 1 = m
  min : T.min + 1 = (m + 1) / 2
  sep : T.sepIdx = m / 2

/-- The pointers of the nodes -/
def links (T : Btree δ) : Kin Nat := ⟨T.root, fun n => (T.mem n).child, fun n => (T.mem n).parent⟩

/-- The nodes `live` are a tree of the order `m` with less than `height` levels. The number of keys
in `cur` is left open. -/
structure Shape (m : Nat) (T : Btree δ) (live : Nat → Prop) (level : Nat → Nat) (height : Nat) (cur : Option Nat) :
    Prop where
  order : Of m T
  wired : T.links.Wired live level
  kids : ∀ n, live n → (level n = 0 ∧ (T.mem n).child = []) ∨
    (level n ≠ 0 ∧ (T.mem n).child.length = (T.mem n).kv.length + 1)
  size : ∀ n, live n → some n ≠ cur → 1 ≤ (T.mem n).kv.length ∧ (T.mem n).kv.length ≤ T.max
  old : ∀ n, live n → n < T.num
  bound : ∀ n, live n → level n < height

variable {T T' : Btree δ} {m : Nat} {live : Nat → Prop} {level : Nat → Nat} {height : Nat} {cur : Option Nat}
  {node idx fuel avail p : Nat} {key : Int} {data : δ}

theorem Of.of_fields (h : Of m T) (hmax : T'.max = T.max) (hmin : T'.min = T.min) (hsep : T'.sepIdx = T.sepIdx) :
    Of m T' :=
  ⟨h.three, by rw [hmax, h.max], by rw [hmin, h.min], by rw [hsep, h.sep]⟩

theorem Shape.down (h : Shape m T live level height cur) (hn : live node) {c : Nat} (hc : c ∈ (T.mem node).child) :
    live c ∧ level c + 1 = level node ∧ (T.mem c).parent = some node :=
  h.wired.down node hn c hc

theorem Shape.up (h : Shape m T live level height cur) (hn : live node) (hp : (T.mem node).parent = some p) :
    live p ∧ level node + 1 = level p :=
  ⟨(h.wired.up node hn p hp).1, h.wired.level_parent hn hp⟩

/-- The number of keys in `cur` is in its bounds after all. -/
theorem Shape.settle (h : Shape m T live level height (some p)) (hp : 1 ≤ (T.mem p).kv.length)
    (hp' : (T.mem p).kv.length ≤ T.max) : Shape m T live level height none := by
  refine ⟨h.order, h.wired, h.kids, fun n hn _ => ?_, h.old, h.bound⟩
  by_cases hnp : n = p
  · rw [hnp]
    exact ⟨hp, hp'⟩
  · exact h.size n hn fun heq => hnp (Option.some.inj heq)

/-- The nodes of the tree are of the order `m`, and there are fewer levels than nodes have been
allocated. -/
def Sound (m : Nat) (T : Btree δ) : Prop :=
  ∃ live level height, Shape m T live level height none ∧ height ≤ T.num

/-! ## Search -/

theorem bsearchLoop_mem {keys : List Int} : ∀ {fuel : Nat} {low mid high : Int}, 0 ≤ low → high < keys.length →
    0 ≤ mid → mid < keys.length →
    0 ≤ bsearchLoop keys key fuel low mid high ∧ bsearchLoop keys key fuel low mid high < keys.length
  | 0, _, _, _, _, _, hmid, hmid' => ⟨hmid, hmid'⟩
  | fuel + 1, low, mid, high, hlow, hhigh, hmid, hmid' => by
    unfold bsearchLoop
    by_cases hle : low ≤ high
    · have hnext : 0 ≤ (low + high) / 2 ∧ (low + high) / 2 < keys.length := by omega
      rw [if_pos hle]
      dsimp only
      split
      · exact hnext
      split
      · exact bsearchLoop_mem hlow (by omega) hnext.1 hnext.2
      · exact bsearchLoop_mem (by omega) hhigh hnext.1 hnext.2
    · rw [if_neg hle]
      exact ⟨hmid, hmid'⟩

theorem bsearch_lt (key : Int) {keys : List Int} (h : 1 ≤ keys.length) : btreeKeyBsearch keys key < keys.length := by
  have hmem : 0 ≤ bsearchLoop keys key keys.length 0 0 (keys.length - 1) ∧
      bsearchLoop keys key keys.length 0 0 (keys.length - 1) < keys.length :=
    bsearchLoop_mem (Int.le_refl 0) (by omega) (Int.le_refl 0) (by omega)
  unfold btreeKeyBsearch
  omega

/-- The descent ends at the key, or at a leaf. -/
theorem Shape.descend (key : Int) (h : Shape m T live level height none) : ∀ {fuel node : Nat}, live node → level node < fuel →
    ∃ n i b, T.descend key fuel node = some (n, i, b) ∧ live n ∧
      (b = true → i < (T.mem n).kv.length) ∧ (b = false → level n = 0 ∧ i ≤ (T.mem n).kv.length)
  | 0, _, _, hfuel => absurd hfuel (Nat.not_lt_zero _)
  | fuel + 1, node, hn, hfuel => by
    have hsize := h.size node hn (Option.some_ne_none node)
    have hlt := bsearch_lt key (by rw [List.length_map]; exact hsize.1 :
      1 ≤ ((T.mem node).kv.map (·.1)).length)
    rw [List.length_map] at hlt
    unfold Btree.descend
    dsimp only
    rw [List.getElem?_eq_getElem hlt]
    dsimp only
    split
    · exact ⟨_, _, _, rfl, hn, fun _ => hlt, fun hb => Bool.noConfusion hb⟩
    have hidx : (if key > ((T.mem node).kv[btreeKeyBsearch ((T.mem node).kv.map (·.1)) key]).1
        then btreeKeyBsearch ((T.mem node).kv.map (·.1)) key + 1
        else btreeKeyBsearch ((T.mem node).kv.map (·.1)) key) ≤ (T.mem node).kv.length := by
      split <;> omega
    generalize (if key > _ then _ else _ : Nat) = i at hidx
    cases hc : (T.mem node).child[i]? with
    | none =>
      have hlevel : level node = 0 := by
        rcases h.kids node hn with hleaf | ⟨-, hlen⟩
        · exact hleaf.1
        · rw [List.getElem?_eq_none_iff] at hc
          omega
      exact ⟨node, i, false, rfl, hn, fun hb => Bool.noConfusion hb, fun _ => ⟨hlevel, hidx⟩⟩
    | some c =>
      obtain ⟨hlive, hdown, -⟩ := h.down hn (List.mem_of_getElem? hc)
      exact h.descend key hlive (by omega)

/-! ## A node that is split -/

/-- What the nodes `node`, `node2` and `p` hold when a split is done, and who the
parent of each node is -/
structure Splits (T T' : Btree δ) (node p : Nat) (sep : Int × δ) : Prop where
  fields : T'.max = T.max ∧ T'.min = T.min ∧ T'.sepIdx = T.sepIdx
  lower : (T'.mem node).kv = (T.mem node).kv.take T.sepIdx ∧
    (T'.mem node).child = (T.mem node).child.take (T.sepIdx + 1)
  upper : (T'.mem T.num).kv = (T.mem node).kv.drop (T.sepIdx + 1) ∧
    (T'.mem T.num).child = (T.mem node).child.drop (T.sepIdx + 1)
  others : ∀ n, n ≠ node → n ≠ T.num → n ≠ p → (T'.mem n).kv = (T.mem n).kv ∧ (T'.mem n).child = (T.mem n).child
  moved : ∀ n ∈ (T.mem node).child.drop (T.sepIdx + 1), (T'.mem n).parent = some T.num
  under : (T'.mem node).parent = some p ∧ (T'.mem T.num).parent = some p
  rest : ∀ n, n ∉ (T.mem node).child.drop (T.sepIdx + 1) → n ≠ node → n ≠ T.num → n ≠ p →
    (T'.mem n).parent = (T.mem n).parent

/-- A split under a parent -/
theorem splitNode_under (avail : Nat) {sep : Int × δ} (hp : (T.mem node).parent = some p)
    (hsep : (T.mem node).kv[T.sepIdx]? = some sep) (hfit : (T.mem p).kv.length ≤ T.max) (hnp : node ≠ p)
    (hnum : node ≠ T.num) (hpnum : p ≠ T.num)
    (hkids : ∀ c ∈ (T.mem node).child, c ≠ node ∧ c ≠ T.num ∧ c ≠ p) :
    ∃ T', T.splitNode (avail + 1) node = some (T', some (p, avail)) ∧ Splits T T' node p sep ∧ T'.num = T.num + 1 ∧
      T'.root = T.root ∧ (T'.mem p).parent = (T.mem p).parent ∧
      ∃ i, (T'.mem p).kv = (T.mem p).kv.take i ++ sep :: (T.mem p).kv.drop i ∧
        (T'.mem p).child = (T.mem p).child.take (i + 1) ++ T.num :: (T.mem p).child.drop (i + 1) := by
  have hdrop : ∀ c ∈ (T.mem node).child.drop (T.sepIdx + 1), c ≠ node ∧ c ≠ T.num ∧ c ≠ p := fun c hc =>
    hkids c (List.mem_of_mem_drop hc)
  have hpn : ¬p = node := fun heq => hnp heq.symm
  have hnump : ¬T.num = p := fun heq => hpnum heq.symm
  have hnumn : ¬T.num = node := fun heq => hnum heq.symm
  unfold splitNode
  simp only [hsep, hp, mem_set, mem_alloc, set_max, set_sepIdx, alloc_max, alloc_sepIdx, if_neg hpn, if_neg hpnum,
    if_neg hnump, if_neg hnumn, if_true, if_neg (Nat.not_lt.mpr hfit)]
  have hnot : node ∉ (T.mem node).child.drop (T.sepIdx + 1) ∧ T.num ∉ (T.mem node).child.drop (T.sepIdx + 1) ∧
      p ∉ (T.mem node).child.drop (T.sepIdx + 1) :=
    ⟨fun h => (hdrop _ h).1 rfl, fun h => (hdrop _ h).2.1 rfl, fun h => (hdrop _ h).2.2 rfl⟩
  refine ⟨_, rfl, ⟨?_, ?_, ?_, ?_, ?_, ?_, ?_⟩, ?_, ?_, ?_,
    sepPos (T.mem p).kv sep.1 (T.mem p).kv.length, ?_, ?_⟩
  · simp
  · simp [mem_finishSplit, mem_set, hnp, hnum, hnot]
  · simp [mem_finishSplit, mem_set, hnp, hnum, hnot, hnumn]
  · intro n hn hnum' hp'
    by_cases hd : n ∈ (T.mem node).child.drop (T.sepIdx + 1) <;>
      simp [mem_finishSplit, mem_set, mem_alloc, hnp, hnum, hn, hnum', hp', hd]
  · intro n hn
    simp [mem_finishSplit, mem_set, hnp, hnum, hn]
  · simp [mem_finishSplit, mem_set, hnp, hnum, hnot, hnumn]
  · intro n hd hn hnum' hp'
    simp [mem_finishSplit, mem_set, mem_alloc, hnp, hnum, hn, hnum', hp', hd]
  all_goals simp [mem_finishSplit, mem_set, hnp, hnum, hnot, hpn, hpnum]

/-- A split of the root, which needs two nodes -/
theorem splitNode_root (avail : Nat) {sep : Int × δ} (hp : (T.mem node).parent = none) (hsep : (T.mem node).kv[T.sepIdx]? = some sep)
    (hnum : node < T.num) (hkids : ∀ c ∈ (T.mem node).child, c ≠ node ∧ c < T.num) :
    ∃ T', T.splitNode (avail + 2) node = some (T', some (T.num + 1, avail)) ∧ Splits T T' node (T.num + 1) sep ∧
      T'.num = T.num + 2 ∧ T'.root = some (T.num + 1) ∧ T'.mem (T.num + 1) = ⟨[sep], [node, T.num], none⟩ := by
  have hdrop : ∀ c ∈ (T.mem node).child.drop (T.sepIdx + 1), c ≠ node ∧ c < T.num := fun c hc =>
    hkids c (List.mem_of_mem_drop hc)
  have hnumn : ¬T.num = node := by omega
  have hpn : ¬T.num + 1 = node := by omega
  have hne : ¬node = T.num ∧ ¬node = T.num + 1 := by omega
  unfold splitNode
  simp only [hsep, hp, mem_set, mem_alloc, set_num, set_sepIdx, alloc_num, alloc_sepIdx, if_neg hnumn, if_neg hne.1,
    if_neg hne.2, if_true]
  have hnot : node ∉ (T.mem node).child.drop (T.sepIdx + 1) ∧ T.num ∉ (T.mem node).child.drop (T.sepIdx + 1) ∧
      T.num + 1 ∉ (T.mem node).child.drop (T.sepIdx + 1) :=
    ⟨fun h => (hdrop _ h).1 rfl, fun h => absurd (hdrop _ h).2 (by omega), fun h => absurd (hdrop _ h).2 (by omega)⟩
  refine ⟨_, rfl, ⟨?_, ?_, ?_, ?_, ?_, ?_, ?_⟩, ?_, ?_, ?_⟩
  · simp
  · simp [mem_finishSplit, mem_set, hne, hnot]
  · simp [mem_finishSplit, mem_set, hne, hnot, hnumn]
  · intro n hn hnum' hp'
    by_cases hd : n ∈ (T.mem node).child.drop (T.sepIdx + 1) <;>
      simp [mem_finishSplit, mem_set, mem_alloc, hne, hn, hnum', hp', hd]
  · intro n hn
    simp [mem_finishSplit, mem_set, hne, hn]
  · simp [mem_finishSplit, mem_set, hne, hnot, hnumn]
  · intro n hd hn hnum' hp'
    simp [mem_finishSplit, mem_set, mem_alloc, hne, hn, hnum', hp', hd]
  all_goals simp [mem_finishSplit, mem_set, hne, hnot, hpn]

/-- The split of the root fails when there is memory for one node only. -/
theorem splitNode_root_fails {sep : Int × δ} (hp : (T.mem node).parent = none)
    (hsep : (T.mem node).kv[T.sepIdx]? = some sep) : ∃ T', T.splitNode 1 node = some (T', none) := by
  unfold splitNode
  simp only [hsep, hp]
  exact ⟨_, rfl⟩

/-- The pointers after a split, for the tree `F` that has the parent already -/
theorem Splits.wired {sep : Int × δ} (h : Splits T T' node p sep) {F : Kin Nat} (hF : F.Wired live level)
    (hn : live node) (hp : live p) (hnum : ¬live T.num) (hlevel : level node + 1 = level p) (hroot : T'.root = F.root)
    (hcp : (T'.mem p).child.Perm (T.num :: F.child p)) (hpp : (T'.mem p).parent = F.parent p)
    (hchild : ∀ n, live n → n ≠ p → F.child n = (T.mem n).child) (hpn : F.parent node = some p)
    (hparent : ∀ n, live n → n ≠ node → n ≠ p → F.parent n = (T.mem n).parent) :
    T'.links.Wired (fun n => n = T.num ∨ live n) (fun n => if n = T.num then level node else level n) := by
  have hne : ∀ n, live n → n ≠ T.num := fun n hn heq => hnum (heq ▸ hn)
  have hnp : node ≠ p := by
    rintro rfl
    omega
  -- the new node joins the children of the parent, and then gets those of the upper half
  let F₁ : Kin Nat := ⟨F.root, fun n => if n = p then (T'.mem p).child else if n = T.num then [] else F.child n,
    fun n => if n = T.num then some p else F.parent n⟩
  have hattach : F₁.Wired (fun n => n = T.num ∨ live n) (fun n => if n = T.num then level node else level n) := by
    refine hF.attach hp hnum rfl ?_ (fun n hn => if_neg (hne n hn)) ?_ ?_ (fun n hn hnp => ?_) (if_pos rfl)
      fun c hc => if_neg (hne c hc)
    · show (if T.num = T.num then level node else level T.num) + 1 = level p
      rw [if_pos rfl, hlevel]
    · show (if p = p then (T'.mem p).child else _).Perm _
      rw [if_pos rfl]
      exact hcp
    · show (if T.num = p then _ else if T.num = T.num then [] else F.child T.num) = []
      rw [if_neg (hne p hp).symm, if_pos rfl]
    · show (if n = p then _ else if n = T.num then [] else F.child n) = _
      rw [if_neg hnp, if_neg (hne n hn)]
  refine hattach.move (a := node) (b := T.num) (Or.inr hn) (Or.inl rfl) (hne node hn) ?_ hroot ?_ ?_ ?_ h.moved ?_
  · show (if node = T.num then _ else level node) = if T.num = T.num then level node else _
    rw [if_neg (hne node hn), if_pos rfl]
  · show ((T'.mem node).child ++ _).Perm (if node = p then _ else if node = T.num then [] else F.child node)
    rw [if_neg hnp, if_neg (hne node hn), hchild node hn hnp, h.lower.2, List.take_append_drop]
  · show (T'.mem T.num).child.Perm (_ ++ if T.num = p then _ else if T.num = T.num then [] else F.child T.num)
    rw [if_neg (hne p hp).symm, if_pos rfl, List.append_nil, h.upper.2]
  · rintro n hlive hnn hnum'
    show (T'.mem n).child = if n = p then _ else if n = T.num then [] else F.child n
    by_cases hnp' : n = p
    · subst hnp'
      rw [if_pos rfl]
    · rw [if_neg hnp', if_neg hnum', hchild n (hlive.resolve_left hnum') hnp']
      exact (h.others n hnn hnum' hnp').2
  · rintro c hlive hc
    show (T'.mem c).parent = if c = T.num then some p else F.parent c
    by_cases hcnum : c = T.num
    · rw [if_pos hcnum, hcnum]
      exact h.under.2
    rw [if_neg hcnum]
    by_cases hcn : c = node
    · rw [hcn, hpn]
      exact h.under.1
    by_cases hcp' : c = p
    · rw [hcp', hpp]
    · rw [hparent c (hlive.resolve_left hcnum) hcn hcp']
      exact h.rest c hc hcn hcnum hcp'

/-- The halves of a node with one key too many have neither too few nor too many. -/
theorem Splits.shape {sep : Int × δ} (h : Splits T T' node p sep) (horder : Of m T)
    (hwired : T'.links.Wired (fun n => n = T.num ∨ live n) (fun n => if n = T.num then level node else level n))
    (hn : live node) (hnum : ¬live T.num) (hnp : node ≠ p) (hlen : (T.mem node).kv.length = T.max + 1)
    (hkids : ∀ n, live n → n ≠ p → (level n = 0 ∧ (T.mem n).child = []) ∨
      (level n ≠ 0 ∧ (T.mem n).child.length = (T.mem n).kv.length + 1))
    (hkp : level p ≠ 0 ∧ (T'.mem p).child.length = (T'.mem p).kv.length + 1)
    (hsize : ∀ n, live n → n ≠ node → n ≠ p → 1 ≤ (T.mem n).kv.length ∧ (T.mem n).kv.length ≤ T.max)
    (hold : ∀ n, live n → n < T'.num) (hnum' : T.num < T'.num) (hbound : ∀ n, live n → level n < height) :
    Shape m T' (fun n => n = T.num ∨ live n) (fun n => if n = T.num then level node else level n) height (some p) := by
  have hthree := horder.three
  have hmax := horder.max
  have hsep := horder.sep
  have hne : ∀ n, live n → n ≠ T.num := fun n hn heq => hnum (heq ▸ hn)
  have hlow : (T'.mem node).kv.length = T.sepIdx := by
    rw [h.lower.1, List.length_take]
    omega
  have hup : (T'.mem T.num).kv.length + T.sepIdx = T.max := by
    rw [h.upper.1, List.length_drop]
    omega
  refine ⟨horder.of_fields h.fields.1 h.fields.2.1 h.fields.2.2, hwired, fun n hlive => ?_, fun n hlive hcur => ?_,
    fun n hlive => ?_, fun n hlive => ?_⟩
  · by_cases hnn : n = T.num
    · subst hnn
      rw [if_pos rfl, h.upper.2, List.length_drop]
      rcases hkids node hn hnp with ⟨hlevel, hnil⟩ | ⟨hlevel, hchild⟩
      · rw [hnil]
        exact Or.inl ⟨hlevel, List.drop_nil⟩
      · exact Or.inr ⟨hlevel, by omega⟩
    rw [if_neg hnn]
    by_cases hnnode : n = node
    · subst hnnode
      rw [h.lower.2, List.length_take]
      rcases hkids n hn hnp with ⟨hlevel, hnil⟩ | ⟨hlevel, hchild⟩
      · rw [hnil]
        exact Or.inl ⟨hlevel, List.take_nil⟩
      · exact Or.inr ⟨hlevel, by omega⟩
    by_cases hnp' : n = p
    · subst hnp'
      exact Or.inr hkp
    · obtain ⟨hkv, hchild⟩ := h.others n hnnode hnn hnp'
      rw [hkv, hchild]
      exact hkids n (hlive.resolve_left hnn) hnp'
  · have hnp' : n ≠ p := fun heq => hcur (congrArg some heq)
    rw [h.fields.1]
    by_cases hnn : n = T.num
    · subst hnn
      omega
    by_cases hnnode : n = node
    · subst hnnode
      omega
    · rw [(h.others n hnnode hnn hnp').1]
      exact hsize n (hlive.resolve_left hnn) hnnode hnp'
  · rcases hlive with rfl | hlive
    · exact hnum'
    · exact hold n hlive
  · by_cases hnn : n = T.num
    · rw [if_pos hnn]
      exact hbound node hn
    · rw [if_neg hnn]
      exact hbound n (hlive.resolve_left hnn)

/-! ## The loop -/

/-- How many nodes `btree_split` allocates for a node with one key too many: one for every node that
is full on the way up, and one for a new root. -/
def splits (T : Btree δ) : Nat → Nat → Nat
  | 0, _ => 0
  | fuel + 1, node =>
    match (T.mem node).parent with
    | none => 2
    | some parent => if (T.mem parent).kv.length < T.max then 1 else T.splits fuel parent + 1

theorem splits_congr (hT : T.links.Wired live level) (hmax : T'.max = T.max) : ∀ {fuel p : Nat}, live p →
    (∀ n, live n → level p ≤ level n → (T'.mem n).parent = (T.mem n).parent) →
    (∀ n, live n → level p < level n → (T'.mem n).kv = (T.mem n).kv) → T'.splits fuel p = T.splits fuel p
  | 0, _, _, _, _ => rfl
  | fuel + 1, p, hp, hparent, hkv => by
    unfold splits
    rw [hparent p hp (Nat.le_refl _), hmax]
    cases hq : (T.mem p).parent with
    | none => rfl
    | some q =>
      have hlevel := hT.level_parent hp hq
      have hlive := (hT.up p hp q hq).1
      dsimp only
      rw [hkv q hlive (by omega), splits_congr hT hmax hlive (fun n hn hle => hparent n hn (by omega))
        fun n hn hlt => hkv n hn (by omega)]

/-- A full node that is split, under its parent -/
theorem Shape.split_under (avail : Nat) (h : Shape m T live level height (some node)) (hn : live node)
    (hp : (T.mem node).parent = some p) (hlen : (T.mem node).kv.length = T.max + 1) :
    ∃ T', T.splitNode (avail + 1) node = some (T', some (p, avail)) ∧
      Shape m T' (fun n => n = T.num ∨ live n) (fun n => if n = T.num then level node else level n) height (some p) ∧
      T'.num = T.num + 1 ∧ T'.max = T.max ∧ (T'.mem p).kv.length = (T.mem p).kv.length + 1 ∧
      ∀ fuel, T'.splits fuel p = T.splits fuel p := by
  obtain ⟨hlive, hlevel⟩ := h.up hn hp
  have hthree := h.order.three
  have hmax := h.order.max
  have hsepIdx := h.order.sep
  have hnp : node ≠ p := by
    rintro rfl
    omega
  have hnum : ¬live T.num := fun hl => absurd (h.old _ hl) (Nat.lt_irrefl _)
  have hfit := h.size p hlive fun heq => hnp (Option.some.inj heq).symm
  have hlt : T.sepIdx < (T.mem node).kv.length := by omega
  obtain ⟨T', hrun, hsplits, hnum', hroot, hpp, i, hkv, hchild⟩ := splitNode_under avail hp
    (List.getElem?_eq_getElem hlt) hfit.2 hnp (Nat.ne_of_lt (h.old node hn)) (Nat.ne_of_lt (h.old p hlive)) fun c hc => by
      obtain ⟨hc', hdown, -⟩ := h.down hn hc
      refine ⟨?_, (Nat.ne_of_lt (h.old c hc')), ?_⟩ <;> rintro rfl <;> omega
  have hperm : (T'.mem p).child.Perm (T.num :: (T.mem p).child) := by
    rw [hchild]
    refine List.perm_middle.trans ?_
    rw [List.take_append_drop]
  have hlenp : (T'.mem p).kv.length = (T.mem p).kv.length + 1 := by
    rw [hkv, List.length_append, List.length_cons, List.length_take, List.length_drop]
    omega
  have hwired := hsplits.wired h.wired hn hlive hnum hlevel hroot hperm hpp (fun n _ _ => rfl) hp fun n _ _ _ => rfl
  refine ⟨T', hrun, hsplits.shape h.order hwired hn hnum hnp hlen (fun n hl _ => h.kids n hl) ⟨by omega, ?_⟩
    (fun n hl hnn _ => h.size n hl fun heq => hnn (Option.some.inj heq)) (fun n hl => ?_) (by omega) h.bound,
    hnum', hsplits.fields.1, hlenp, fun fuel => ?_⟩
  · rw [hperm.length_eq, hlenp, List.length_cons]
    rcases h.kids p hlive with ⟨hzero, -⟩ | ⟨-, hkids⟩
    · omega
    · rw [hkids]
  · have := h.old n hl
    omega
  · -- above the parent nothing changes
    have hmoved : ∀ n, live n → level p ≤ level n → n ∉ (T.mem node).child.drop (T.sepIdx + 1) := fun n _ hle hd => by
      obtain ⟨-, hdown, -⟩ := h.down hn (List.mem_of_mem_drop hd)
      omega
    have hnode : ∀ n, level p ≤ level n → n ≠ node := by
      rintro n hle rfl
      omega
    refine splits_congr h.wired hsplits.fields.1 hlive (fun n hl hle => ?_) fun n hl hlt => ?_
    · by_cases hnp' : n = p
      · rw [hnp', hpp]
      · exact hsplits.rest n (hmoved n hl hle) (hnode n hle) (Nat.ne_of_lt (h.old n hl)) hnp'
    · refine (hsplits.others n (hnode n (by omega)) (Nat.ne_of_lt (h.old n hl)) ?_).1
      rintro rfl
      omega

/-- The root when it is full: a new one has one key. -/
theorem Shape.split_root (avail : Nat) (h : Shape m T live level height (some node)) (hn : live node)
    (hp : (T.mem node).parent = none) (hlen : (T.mem node).kv.length = T.max + 1) :
    ∃ T' live' level', T.splitNode (avail + 2) node = some (T', some (T.num + 1, avail)) ∧
      Shape m T' live' level' (height + 1) none ∧ T'.num = T.num + 2 ∧ (T'.mem (T.num + 1)).kv.length = 1 := by
  have hthree := h.order.three
  have hmax := h.order.max
  have hsepIdx := h.order.sep
  have hnum : ∀ n, live n → n ≠ T.num ∧ n ≠ T.num + 1 := fun n hl => by
    have := h.old n hl
    omega
  have hlt : T.sepIdx < (T.mem node).kv.length := by omega
  obtain ⟨T', hrun, hsplits, hnum', hroot, hq⟩ := splitNode_root avail hp (List.getElem?_eq_getElem hlt)
    (h.old node hn) fun c hc => by
      obtain ⟨hc', hdown, -⟩ := h.down hn hc
      refine ⟨?_, h.old c hc'⟩
      rintro rfl
      omega
  have hr : T.root = some node := h.wired.top node hn hp
  -- the new root is put over the old one, and then the old one is split under it
  let F : Kin Nat := ⟨some (T.num + 1), fun n => if n = T.num + 1 then [node] else (T.mem n).child,
    fun n => if n = node then some (T.num + 1) else if n = T.num + 1 then none else (T.mem n).parent⟩
  have hraise : F.Wired (fun n => n = T.num + 1 ∨ live n)
      (fun n => if n = T.num + 1 then level node + 1 else level n) :=
    h.wired.raise hr (fun hl => (hnum _ hl).2 rfl) rfl (if_pos rfl) (fun n hl => if_neg (hnum n hl).2) (if_pos rfl)
      (fun n hl => if_neg (hnum n hl).2) (if_pos rfl) ((if_neg (hnum node hn).2.symm).trans (if_pos rfl))
      fun c hc hne => (if_neg hne).trans (if_neg (hnum c hc).2)
  have hlevel : (if node = T.num + 1 then level node + 1 else level node) + 1 =
      if T.num + 1 = T.num + 1 then level node + 1 else level (T.num + 1) := by
    rw [if_neg (hnum node hn).2, if_pos rfl]
  have hnot : ¬(T.num = T.num + 1 ∨ live T.num) := by
    rintro (heq | hl)
    · omega
    · exact (hnum _ hl).1 rfl
  have hchild : (T'.mem (T.num + 1)).child.Perm (T.num :: F.child (T.num + 1)) := by
    rw [hq, show F.child (T.num + 1) = [node] from if_pos rfl]
    exact List.Perm.swap _ _ _
  have hwired := hsplits.wired hraise (Or.inr hn) (Or.inl rfl) hnot hlevel hroot hchild
    (by rw [hq]; exact ((if_neg (hnum node hn).2.symm).trans (if_pos rfl)).symm)
    (fun n _ hne => if_neg hne) (if_pos rfl) fun n _ hnn hne => (if_neg hnn).trans (if_neg hne)
  have hlenq : (T'.mem (T.num + 1)).kv.length = 1 := by
    rw [hq]
    rfl
  have hshape : ∃ live' level', Shape m T' live' level' (height + 1) (some (T.num + 1)) := by
    refine ⟨_, _, hsplits.shape h.order hwired (Or.inr hn) hnot (hnum node hn).2 hlen (fun n hl hne => ?_) ?_
      (fun n hl hnn hne => ?_) (fun n hl => ?_) (by omega) fun n hl => ?_⟩
    · rw [if_neg hne]
      exact h.kids n (hl.resolve_left hne)
    · rw [if_pos rfl, hq]
      exact ⟨Nat.succ_ne_zero _, rfl⟩
    · exact h.size n (hl.resolve_left hne) fun heq => hnn (Option.some.inj heq)
    · rcases hl with rfl | hl
      · omega
      · have := h.old n hl
        omega
    · by_cases hne : n = T.num + 1
      · rw [if_pos hne]
        have := h.bound node hn
        omega
      · rw [if_neg hne]
        have := h.bound n (hl.resolve_left hne)
        omega
  have hfit : (T'.mem (T.num + 1)).kv.length ≤ T'.max := by
    rw [hlenq, hsplits.fields.1]
    omega
  obtain ⟨live', level', hshape⟩ := hshape
  exact ⟨T', live', level', hrun, hshape.settle (Nat.le_of_eq hlenq.symm) hfit, hnum', hlenq⟩

/-- The nodes that an insertion below `node` still allocates -/
def splitsAt (T : Btree δ) (fuel node : Nat) : Nat :=
  if (T.mem node).kv.length ≤ T.max then 0 else T.splits fuel node

/-- `btree_split` ends well if there is memory for all it splits, and otherwise it answers -1. -/
theorem Shape.split : ∀ (fuel avail : Nat) {T : Btree δ} {live : Nat → Prop} {level : Nat → Nat} {height node : Nat},
    Shape m T live level height (some node) → live node → 1 ≤ (T.mem node).kv.length →
    (T.mem node).kv.length ≤ T.max + 1 → height < fuel + level node → height ≤ T.num →
    ∃ T' code, btreeSplit fuel T avail node = some (T', code) ∧
      (T.splitsAt fuel node ≤ avail → code = 0 ∧ T'.num = T.num + T.splitsAt fuel node ∧ Sound m T') ∧
      (avail < T.splitsAt fuel node → code = -1)
  | 0, _, T, live, level, height, node, h, hn, _, _, hfuel, _ => by
    have := h.bound node hn
    omega
  | fuel + 1, avail, T, live, level, height, node, h, hn, hmin, hmax, hfuel, hheight => by
    have hbound := h.bound node hn
    unfold btreeSplit
    by_cases hfull : T.max < (T.mem node).kv.length
    · have hlen : (T.mem node).kv.length = T.max + 1 := by omega
      have hneeds : T.splitsAt (fuel + 1) node = T.splits (fuel + 1) node := if_neg (Nat.not_le.mpr hfull)
      rw [if_pos hfull, hneeds]
      cases hp : (T.mem node).parent with
      | none =>
        have htwo : T.splits (fuel + 1) node = 2 := by simp only [splits, hp]
        rw [htwo]
        match avail with
        | 0 => exact ⟨T, -1, rfl, fun h => absurd h (by omega), fun _ => rfl⟩
        | 1 =>
          have hthree := h.order.three
          have horder := h.order.max
          have hsep := h.order.sep
          have hlt : T.sepIdx < (T.mem node).kv.length := by omega
          obtain ⟨T', hrun⟩ := splitNode_root_fails hp (List.getElem?_eq_getElem hlt)
          rw [hrun]
          exact ⟨T', -1, rfl, fun h => absurd h (by omega), fun _ => rfl⟩
        | avail + 2 =>
          obtain ⟨T', live', level', hrun, hshape, hnum, hone⟩ := h.split_root avail hn hp hlen
          rw [hrun]
          obtain ⟨fuel, rfl⟩ : ∃ f, fuel = f + 1 := ⟨fuel - 1, by omega⟩
          have hfit : ¬T'.max < (T'.mem (T.num + 1)).kv.length := by
            have := hshape.order.max
            have := hshape.order.three
            omega
          refine ⟨T', 0, ?_, fun _ => ⟨rfl, hnum, live', level', _, hshape, by omega⟩, fun h => absurd h (by omega)⟩
          simp only [btreeSplit, if_neg hfit]
      | some p =>
        obtain ⟨hlive, hlevel⟩ := h.up hn hp
        have hnp : p ≠ node := by
          rintro rfl
          omega
        have hfit := h.size p hlive fun heq => hnp (Option.some.inj heq)
        have hup : T.splits (fuel + 1) node = if (T.mem p).kv.length < T.max then 1 else T.splits fuel p + 1 := by
          simp only [splits, hp]
        rw [hup]
        cases avail with
        | zero =>
          refine ⟨T, -1, rfl, fun h => absurd h ?_, fun _ => rfl⟩
          split <;> omega
        | succ avail =>
          obtain ⟨T', hrun, hshape, hnum, hmax', hlenp, hsame⟩ := h.split_under avail hn hp hlen
          rw [hrun]
          have hpnum : p ≠ T.num := Nat.ne_of_lt (h.old p hlive)
          have hlevelp : (if p = T.num then level node else level p) = level p := if_neg hpnum
          obtain ⟨T'', code, hrun', hok, hfails⟩ := hshape.split fuel avail (Or.inr hlive) (by omega)
            (by omega) (by rw [hlevelp]; omega) (by omega)
          have hstill : (if (T.mem p).kv.length < T.max then 1 else T.splits fuel p + 1) = T'.splitsAt fuel p + 1 := by
            unfold splitsAt
            rw [hlenp, hmax', hsame]
            split <;> split <;> omega
          rw [hstill]
          refine ⟨T'', code, hrun', fun hle => ?_, fun hlt => hfails (by omega)⟩
          obtain ⟨hcode, hnum', hsound⟩ := hok (by omega)
          exact ⟨hcode, by omega, hsound⟩
    · rw [if_neg hfull]
      have hneeds : T.splitsAt (fuel + 1) node = 0 := if_pos (Nat.not_lt.mp hfull)
      rw [hneeds]
      exact ⟨T, 0, rfl, fun _ => ⟨rfl, rfl, live, level, height, h.settle hmin (Nat.not_lt.mp hfull), hheight⟩,
        fun h => absurd h (Nat.not_lt_zero _)⟩

/-! ## Insertions -/

/-- The keys change, and their number in one leaf only. -/
theorem Shape.rekey {leaf : Nat} (h : Shape m T live level height none) (hmax : T'.max = T.max) (hmin : T'.min = T.min)
    (hsep : T'.sepIdx = T.sepIdx) (hroot : T'.root = T.root) (hnum : T'.num = T.num)
    (hsame : ∀ n, (T'.mem n).child = (T.mem n).child ∧ (T'.mem n).parent = (T.mem n).parent) (hleaf : level leaf = 0)
    (hlen : ∀ n, n ≠ leaf → (T'.mem n).kv.length = (T.mem n).kv.length) :
    Shape m T' live level height (some leaf) := by
  refine ⟨h.order.of_fields hmax hmin hsep, h.wired.congr hroot (fun n _ => (hsame n).1) fun n _ => (hsame n).2,
    fun n hn => ?_, fun n hn hne => ?_, fun n hn => by rw [hnum]; exact h.old n hn, h.bound⟩
  · rw [(hsame n).1]
    rcases h.kids n hn with hzero | ⟨hlevel, hkids⟩
    · exact Or.inl hzero
    · refine Or.inr ⟨hlevel, ?_⟩
      rw [hlen n fun heq => hlevel (heq ▸ hleaf), hkids]
  · rw [hmax, hlen n fun heq => hne (congrArg some heq)]
    exact h.size n hn (Option.some_ne_none n)

/-- The first key -/
theorem Shape.plant (h : Shape m T live level height none) (hheight : height ≤ T.num) (hr : T.root = none)
    {e : Int × δ} : Sound m { T.btreeNodeAlloc.set T.num ⟨[e], [], none⟩ with root := some T.num } := by
  have hne : ∀ n, live n → n ≠ T.num := fun n hn => Nat.ne_of_lt (h.old n hn)
  have hmem : ∀ n, ({ T.btreeNodeAlloc.set T.num ⟨[e], [], none⟩ with root := some T.num } : Btree δ).mem n =
      if n = T.num then ⟨[e], [], none⟩ else T.mem n := fun n => by
    show (T.btreeNodeAlloc.set T.num ⟨[e], [], none⟩).mem n = _
    rw [mem_set, mem_alloc]
    split <;> rfl
  generalize hT' : ({ T.btreeNodeAlloc.set T.num ⟨[e], [], none⟩ with root := some T.num } : Btree δ) = T' at hmem ⊢
  have hnew : T'.mem T.num = ⟨[e], [], none⟩ := (hmem _).trans (if_pos rfl)
  have hold : ∀ n, live n → T'.mem n = T.mem n := fun n hn => (hmem n).trans (if_neg (hne n hn))
  have hwired : T'.links.Wired (fun n => n = T.num ∨ live n) (fun n => if n = T.num then 0 else level n) := by
    refine h.wired.plant hr (fun hl => hne _ hl rfl) ?_ (fun n hn => if_neg (hne n hn)) ?_ (fun n hn => ?_) ?_ fun n hn => ?_
    · rw [← hT']
      rfl
    · show (T'.mem T.num).child = []
      rw [hnew]
    · show (T'.mem n).child = _
      rw [hold n hn]
      rfl
    · show (T'.mem T.num).parent = none
      rw [hnew]
    · show (T'.mem n).parent = _
      rw [hold n hn]
      rfl
  have hthree := h.order.three
  have hmax := h.order.max
  have hfields : T'.max = T.max ∧ T'.min = T.min ∧ T'.sepIdx = T.sepIdx ∧ T'.num = T.num + 1 := by
    rw [← hT']
    exact ⟨rfl, rfl, rfl, rfl⟩
  refine ⟨_, _, height + 1, ⟨h.order.of_fields hfields.1 hfields.2.1 hfields.2.2.1, hwired, fun n hn => ?_,
    fun n hn _ => ?_, fun n hn => ?_, fun n hn => ?_⟩, by omega⟩
  all_goals rcases hn with rfl | hn
  · exact Or.inl ⟨if_pos rfl, by rw [hnew]⟩
  · rw [if_neg (hne n hn), hold n hn]
    exact h.kids n hn
  · rw [hnew]
    exact ⟨Nat.le_refl _, by rw [hfields.1]; show 1 ≤ T.max; omega⟩
  · rw [hold n hn, hfields.1]
    exact h.size n hn (Option.some_ne_none n)
  · omega
  · have := h.old n hn
    omega
  · rw [if_pos rfl]
    exact Nat.succ_pos _
  · rw [if_neg (hne n hn)]
    exact Nat.lt_succ_of_lt (h.bound n hn)

/-- A key is put into a leaf. -/
theorem Shape.insertNode (h : Shape m T live level height none) (hheight : height ≤ T.num) (hn : live node)
    (hleaf : level node = 0) (hidx : idx ≤ (T.mem node).kv.length) (avail : Nat) (key : Int) (data : δ) :
    ∃ T' code, T.btreeInsertNode avail node key idx data = some (T', code) ∧
      ((if (T.mem node).kv.length < T.max then 0 else T.splits (T.num + 1) node) ≤ avail → code = 0 ∧
        T'.num = T.num + (if (T.mem node).kv.length < T.max then 0 else T.splits (T.num + 1) node) ∧ Sound m T') ∧
      (avail < (if (T.mem node).kv.length < T.max then 0 else T.splits (T.num + 1) node) → code = -1) := by
  have hsize := h.size node hn (Option.some_ne_none node)
  unfold btreeInsertNode
  dsimp only
  rw [if_neg (Nat.not_lt.mpr hsize.2)]
  generalize hT : T.set node { T.mem node with kv := (T.mem node).kv.take idx ++ (key, data) :: (T.mem node).kv.drop idx } = T₁
  have hmem : ∀ n, T₁.mem n = if n = node then
      { T.mem node with kv := (T.mem node).kv.take idx ++ (key, data) :: (T.mem node).kv.drop idx } else T.mem n := fun n => by
    rw [← hT, mem_set]
  have hfields : T₁.max = T.max ∧ T₁.min = T.min ∧ T₁.sepIdx = T.sepIdx ∧ T₁.root = T.root ∧ T₁.num = T.num := by
    rw [← hT]
    exact ⟨rfl, rfl, rfl, rfl, rfl⟩
  have hlen : (T₁.mem node).kv.length = (T.mem node).kv.length + 1 := by
    rw [hmem, if_pos rfl]
    simp only [List.length_append, List.length_cons, List.length_take, List.length_drop]
    omega
  have hsame : ∀ n, (T₁.mem n).child = (T.mem n).child ∧ (T₁.mem n).parent = (T.mem n).parent := fun n => by
    rw [hmem]
    split
    · rename_i heq
      rw [heq]
      exact ⟨rfl, rfl⟩
    · exact ⟨rfl, rfl⟩
  have hkv : ∀ n, n ≠ node → (T₁.mem n).kv = (T.mem n).kv := fun n hne => by
    rw [hmem, if_neg hne]
  have hshape := h.rekey hfields.1 hfields.2.1 hfields.2.2.1 hfields.2.2.2.1 hfields.2.2.2.2 hsame hleaf
    fun n hne => congrArg List.length (hkv n hne)
  have hsplits : T₁.splits (T.num + 1) node = T.splits (T.num + 1) node :=
    splits_congr h.wired hfields.1 hn (fun n _ _ => (hsame n).2) fun n _ hlt => hkv n fun heq => by
      rw [heq] at hlt
      exact absurd hlt (Nat.lt_irrefl _)
  obtain ⟨T', code, hrun, hok, hfails⟩ := hshape.split (T.num + 1) avail hn (by omega) (by omega)
    (by have := h.bound node hn; omega) (by omega)
  have hneeds : (if (T.mem node).kv.length < T.max then 0 else T.splits (T.num + 1) node) =
      T₁.splitsAt (T.num + 1) node := by
    unfold splitsAt
    rw [hlen, hfields.1, hsplits]
    split <;> split <;> omega
  rw [hneeds]
  rw [hfields.2.2.2.2] at hok ⊢
  refine ⟨T', code, ?_, hok, hfails⟩
  split
  · exact hrun
  · rename_i hfit
    rw [← hrun]
    simp only [btreeSplit, if_neg hfit]

/-- The nodes that an insertion of the key allocates -/
def needs (T : Btree δ) (key : Int) : Nat :=
  match T.root with
  | none => 1
  | some root =>
    match T.descend key T.num root with
    | some (node, _, false) => if (T.mem node).kv.length < T.max then 0 else T.splits (T.num + 1) node
    | _ => 0

/-- An insertion leaves no array and does not get lost. It is done if there is memory for all the
nodes it needs, and otherwise it answers -1. -/
theorem Sound.insert (h : Sound m T) (avail : Nat) (key : Int) (data : δ) :
    ∃ T' code, T.btreeInsert avail key data = some (T', code) ∧
      (T.needs key ≤ avail → code = 0 ∧ T'.num = T.num + T.needs key ∧ Sound m T') ∧
      (avail < T.needs key → code = -1) := by
  obtain ⟨live, level, height, hshape, hheight⟩ := h
  unfold btreeInsert
  cases hr : T.root with
  | none =>
    have hneeds : T.needs key = 1 := by simp only [needs, hr]
    rw [hneeds]
    cases avail with
    | zero => exact ⟨T, -1, rfl, fun h => absurd h (by omega), fun _ => rfl⟩
    | succ avail => exact ⟨_, 0, rfl, fun _ => ⟨rfl, rfl, hshape.plant hheight hr⟩, fun h => absurd h (by omega)⟩
  | some root =>
    have hlive := (hshape.wired.root root hr).1
    have hbound := hshape.bound root hlive
    have hfuel : level root < T.num := by omega
    obtain ⟨node, idx, found, hdescend, hn, -, hleaf⟩ := hshape.descend key hlive hfuel
    dsimp only
    rw [hdescend]
    cases found with
    | true =>
      have hneeds : T.needs key = 0 := by simp only [needs, hr, hdescend]
      rw [hneeds]
      exact ⟨T, 0, rfl, fun _ => ⟨rfl, rfl, live, level, height, hshape, hheight⟩, fun h => absurd h (Nat.not_lt_zero _)⟩
    | false =>
      have hneeds : T.needs key = if (T.mem node).kv.length < T.max then 0 else T.splits (T.num + 1) node := by
        simp only [needs, hr, hdescend]
      rw [hneeds]
      exact hshape.insertNode hheight hn (hleaf rfl).1 (hleaf rfl).2 avail key data

end BeehiveIm.Core.Btree
