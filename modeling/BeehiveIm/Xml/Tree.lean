/-
The invariant of an XML tree. An operation changes the list of one node, so that all there is
to show is what the new list looks like: the other nodes of the tree keep theirs, because a
listed node has one parent.
-/
import BeehiveIm.Xml.Lists

namespace BeehiveIm.Xml

namespace XmlTree

/-- The nodes that the root comes to, and the root. -/
inductive InTree (T : XmlTree) : Nat → Prop
  | root : InTree T T.root
  | kid {n k : Nat} {l : List Nat} : InTree T n → Chain T.mem (T.mem n).child l → k ∈ l → InTree T k

/-- What is kept of a node and its list: `q` is whether the flags of children and values are exact,
and `opened` the node whose attributes are being read, if there is one. -/
structure Kept (q : Prop) (opened : Option Nat) (T : XmlTree) (n : Nat) (l : List Nat) : Prop extends Lists T n l where
  kinds : ∀ k ∈ l, (T.mem k).type = .attr ∨ (T.mem k).type = .child
  order : l.Pairwise fun i j => (T.mem j).type = .attr → (T.mem i).type = .attr
  ids : ∀ k ∈ l, n < k ∧ k < T.num
  hasAttr : opened ≠ some n → ((T.mem n).hasAttr = true ↔ ∃ k ∈ l, (T.mem k).type = .attr)
  hasChild : (∃ k ∈ l, (T.mem k).type = .child) → (T.mem n).hasChild = true
  hasValue : (T.mem n).hasValue = true → (T.mem n).value.isSome = true
  onlyChild : q → (T.mem n).hasChild = true → ∃ k ∈ l, (T.mem k).type = .child
  isValue : q → (T.mem n).value.isSome = true → (T.mem n).hasValue = true

structure Inv (q : Prop) (opened : Option Nat) (T : XmlTree) : Prop where
  nodes : ∀ n, InTree T n → ∃ l, Kept q opened T n l
  root : (T.mem T.root).parent = none
  lt : T.root < T.num

variable {T T' : XmlTree} {q q' : Prop} {opened : Option Nat} {n k x : Nat} {l l' : List Nat}

theorem Kept.of_same (h : Kept q opened T n l) (hn : T'.mem n = { T.mem n with next := (T'.mem n).next })
    (hnum : T.num ≤ T'.num)
    (hl : ∀ k ∈ l, (T'.mem k).next = (T.mem k).next ∧ (T'.mem k).parent = (T.mem k).parent ∧
    (T'.mem k).type = (T.mem k).type) : Kept q opened T' n l := by
  have htype : ∀ t, (∃ k ∈ l, (T'.mem k).type = t) ↔ ∃ k ∈ l, (T.mem k).type = t := fun t =>
    exists_congr fun k => and_congr_right fun hk => by rw [(hl k hk).2.2]
  constructor
  · constructor
    · rw [hn]
      exact h.chain.congr fun k hk => (hl k hk).1
    · rw [hn]
      exact h.tail
    · exact fun k hk => (hl k hk).2.1.trans (h.parent k hk)
  · intro k hk
    rw [(hl k hk).2.2]
    exact h.kinds k hk
  · refine h.order.imp_of_mem fun {i j} hi hj hij => ?_
    rw [(hl i hi).2.2, (hl j hj).2.2]
    exact hij
  · exact fun k hk => ⟨(h.ids k hk).1, Nat.lt_of_lt_of_le (h.ids k hk).2 hnum⟩
  · rw [hn, htype]
    exact h.hasAttr
  · rw [hn, htype]
    exact h.hasChild
  · rw [hn]
    exact h.hasValue
  · rw [hn, htype]
    exact h.onlyChild
  · rw [hn]
    exact h.isValue

theorem Kept.mono (h : Kept q opened T n l) (hq : q' → q) : Kept q' opened T n l :=
  { h with onlyChild := fun hq' => h.onlyChild (hq hq'), isValue := fun hq' => h.isValue (hq hq') }

theorem Inv.mono (h : Inv q opened T) (hq : q' → q) : Inv q' opened T where
  nodes n hn := let ⟨l, hl⟩ := h.nodes n hn; ⟨l, hl.mono hq⟩
  root := h.root
  lt := h.lt

/-- A node of the list is in the tree. -/
theorem Kept.inTree (h : Kept q opened T n l) (hn : InTree T n) (hk : k ∈ l) : InTree T k := .kid hn h.chain hk

theorem Inv.inTree_lt (h : Inv q opened T) (hn : InTree T n) : n < T.num := by
  induction hn with
  | root => exact h.lt
  | @kid n k l hn hc hk =>
    obtain ⟨l', hl'⟩ := h.nodes n hn
    exact (hl'.ids k (hc.unique hl'.chain ▸ hk)).2

/-- Every node but the root is in the list of its parent. -/
theorem Inv.listed (h : Inv q opened T) (hn : InTree T n) {parent : Nat} (hp : (T.mem n).parent = some parent) :
    InTree T parent ∧ ∃ l, Kept q opened T parent l ∧ n ∈ l := by
  cases hn with
  | root =>
    rw [h.root] at hp
    cases hp
  | @kid p n l hpt hc hk =>
    obtain ⟨l', hl'⟩ := h.nodes p hpt
    have hk' : n ∈ l' := hc.unique hl'.chain ▸ hk
    obtain rfl : p = parent := Option.some.inj ((hl'.parent n hk').symm.trans hp)
    exact ⟨hpt, l', hl', hk'⟩

/-! ## A change to one list -/

/-- From `T` to `T'`, the list of `x` has become `l'`; the nodes that are new have no lists, and
nothing else has changed but the order of the nodes of the list. -/
structure Relink (q' : Prop) (opened : Option Nat) (T T' : XmlTree) (x : Nat) (l l' : List Nat) : Prop where
  root : T'.root = T.root
  num : T.num ≤ T'.num
  frame : ∀ m < T.num, m ≠ x → m ∉ l → T'.mem m = T.mem m
  kids : ∀ k ∈ l, T'.mem k = { T.mem k with next := (T'.mem k).next }
  self : (T'.mem x).next = (T.mem x).next ∧ (T'.mem x).parent = (T.mem x).parent ∧ (T'.mem x).type = (T.mem x).type
  new : ∀ k ∈ l', k ∈ l ∨ T.num ≤ k ∧ Kept q' opened T' k []

/-- The other nodes keep their lists. -/
theorem Inv.other (h : Inv q opened T) (hq : q' → q) (hl : Kept q opened T x l) (hr : Relink q' opened T T' x l l')
    {lp : List Nat}
    {p : Nat} (hp : InTree T p) (hpx : p ≠ x) (hlp : Kept q opened T p lp) : Kept q' opened T' p lp := by
  refine (hlp.mono hq).of_same ?_ hr.num fun k hk => ?_
  · by_cases hpl : p ∈ l
    · exact hr.kids p hpl
    · rw [hr.frame p (h.inTree_lt hp) hpx hpl]
  · have hkl : k ∉ l := fun hkl => hpx (Option.some.inj ((hlp.parent k hk).symm.trans (hl.parent k hkl)))
    by_cases hkx : k = x
    · exact hkx ▸ hr.self
    · rw [hr.frame k (hlp.ids k hk).2 hkx hkl]
      exact ⟨rfl, rfl, rfl⟩

/-- If the list has lost nothing, neither has the tree. -/
theorem Inv.inTree_relink (h : Inv q opened T) (hq : q' → q) (hl : Kept q opened T x l)
    (hr : Relink q' opened T T' x l l')
    (hl' : Kept q' opened T' x l') (hsub : ∀ k ∈ l, k ∈ l') (hn : InTree T n) : InTree T' n := by
  induction hn with
  | root => exact hr.root ▸ .root
  | @kid p k lp hp hc hk ih =>
    by_cases hpx : p = x
    · subst hpx
      exact hl'.inTree ih (hsub k (hc.unique hl.chain ▸ hk))
    · obtain ⟨lp', hlp'⟩ := h.nodes p hp
      exact (h.other hq hl hr hp hpx hlp').inTree ih (hc.unique hlp'.chain ▸ hk)

theorem Inv.relink (h : Inv q opened T) (hq : q' → q) (hx : InTree T x) (hl : Kept q opened T x l)
    (hr : Relink q' opened T T' x l l') (hl' : Kept q' opened T' x l') : Inv q' opened T' := by
  have hold : ∀ n, InTree T' n → InTree T n ∨ T.num ≤ n ∧ Kept q' opened T' n [] := by
    intro n hn
    induction hn with
    | root => exact .inl (hr.root ▸ .root)
    | @kid p k lp hp hc hk ih =>
      rcases ih with hp | ⟨-, hnil⟩
      · by_cases hpx : p = x
        · subst hpx
          rcases hr.new k (hc.unique hl'.chain ▸ hk) with hkl | hnew
          · exact .inl (hl.inTree hp hkl)
          · exact .inr hnew
        · obtain ⟨lp', hlp'⟩ := h.nodes p hp
          exact .inl (hlp'.inTree hp (hc.unique (h.other hq hl hr hp hpx hlp').chain ▸ hk))
      · rw [hc.unique hnil.chain] at hk
        cases hk
  refine ⟨fun n hn => ?_, ?_, ?_⟩
  · rcases hold n hn with hn | ⟨-, hnil⟩
    · by_cases hnx : n = x
      · exact ⟨l', hnx ▸ hl'⟩
      · obtain ⟨ln, hln⟩ := h.nodes n hn
        exact ⟨ln, h.other hq hl hr hn hnx hln⟩
    · exact ⟨[], hnil⟩
  · rw [hr.root]
    by_cases hrx : T.root = x
    · rw [hrx, hr.self.2.1, ← hrx, h.root]
    · have hrl : T.root ∉ l := fun hrl => by
        have := hl.parent _ hrl
        rw [h.root] at this
        cases this
      rw [hr.frame _ h.lt hrx hrl, h.root]
  · rw [hr.root]
    exact Nat.lt_of_lt_of_le h.lt hr.num

/-- Nothing has changed in the tree. -/
theorem Inv.of_agree (h : Inv q opened T) (hroot : T'.root = T.root) (hnum : T.num ≤ T'.num)
    (hagree : ∀ n, InTree T n → T'.mem n = T.mem n) : Inv q opened T' ∧ ∀ n, InTree T' n → InTree T n := by
  have hkept : ∀ {n l}, InTree T n → Kept q opened T n l → Kept q opened T' n l := fun {n l} hn hl =>
    hl.of_same (by rw [hagree n hn]) hnum fun k hk => by rw [hagree k (hl.inTree hn hk)]; exact ⟨rfl, rfl, rfl⟩
  have hold : ∀ n, InTree T' n → InTree T n := by
    intro n hn
    induction hn with
    | root => exact hroot ▸ .root
    | @kid p k lp hp hc hk ih =>
      obtain ⟨l, hl⟩ := h.nodes p ih
      exact hl.inTree ih (hc.unique (hkept ih hl).chain ▸ hk)
  refine ⟨⟨fun n hn => ?_, ?_, hroot ▸ Nat.lt_of_lt_of_le h.lt hnum⟩, hold⟩
  · obtain ⟨l, hl⟩ := h.nodes n (hold n hn)
    exact ⟨l, hkept (hold n hn) hl⟩
  · rw [hroot, hagree _ .root, h.root]

/-! ## New nodes -/

/-- A node that has been created and is not in a list yet. -/
structure Fresh (q : Prop) (T : XmlTree) (n : Nat) (type : NodeType) : Prop where
  next : (T.mem n).next = none
  child : (T.mem n).child = none
  tail : (T.mem n).tail = none
  type_eq : (T.mem n).type = type
  hasChild : (T.mem n).hasChild = false
  hasAttr : (T.mem n).hasAttr = false
  hasValue : (T.mem n).hasValue = true → (T.mem n).value.isSome = true
  isValue : q → (T.mem n).value.isSome = true → (T.mem n).hasValue = true

/-- `T₁` is `T` with more nodes. -/
structure More (T T₁ : XmlTree) : Prop where
  root : T₁.root = T.root
  num : T.num ≤ T₁.num
  mem : ∀ m < T.num, T₁.mem m = T.mem m

theorem Inv.more (h : Inv q opened T) (hm : More T T') : Inv q opened T' :=
  (h.of_agree hm.root hm.num fun n hn => hm.mem n (h.inTree_lt hn)).1

theorem Fresh.kept {type : NodeType} (h : Fresh q T n type) : Kept q opened T n [] where
  chain := h.child
  tail := h.tail
  parent k hk := by cases hk
  kinds k hk := by cases hk
  order := List.Pairwise.nil
  ids k hk := by cases hk
  hasAttr _ := by simp [h.hasAttr]
  hasChild hk := by
    obtain ⟨k, hk, -⟩ := hk
    cases hk
  hasValue := h.hasValue
  onlyChild _ hc := by
    rw [h.hasChild] at hc
    cases hc
  isValue := h.isValue

/-- A new node has come into the list of `x`, an attribute behind attributes or a child at the
end. -/
theorem Inv.gain (h : Inv q opened T) (hq : q' → q) (hx : InTree T x) {a b : List Nat} (hl : Kept q opened T x (a ++ b))
    {T₁ : XmlTree}
    {new : Nat} {type : NodeType} (hf : Fresh q' T₁ new type) (hroot : T'.root = T.root) (hge : T.num ≤ new)
    (hlt : new < T'.num)
    (hframe : ∀ m < T.num, m ≠ x → m ∉ a ++ b → T'.mem m = T.mem m) {child tail next : Option Nat}
    {hasChild hasAttr : Bool}
    (hself : T'.mem x = { T.mem x with child := child, tail := tail, hasChild := hasChild, hasAttr := hasAttr })
    (hnew : T'.mem new = { T₁.mem new with next := next, parent := some x })
    (hold : ∀ k ∈ a ++ b, ∃ next, T'.mem k = { T.mem k with next := next }) (hlists : Lists T' x (a ++ new :: b))
    (hkind : type = .attr ∧ (∀ k ∈ a, (T.mem k).type = .attr) ∨ type = .child ∧ b = [])
    (hattr : opened ≠ some x → (hasAttr = true ↔ (∃ k ∈ a ++ b, (T.mem k).type = .attr) ∨ type = .attr))
    (hchild : (∃ k ∈ a ++ b, (T.mem k).type = .child) ∨ type = .child → hasChild = true)
    (honly : q' → hasChild = true → (∃ k ∈ a ++ b, (T.mem k).type = .child) ∨ type = .child) :
    Relink q' opened T T' x (a ++ b) (a ++ new :: b) ∧ Kept q' opened T' x (a ++ new :: b) := by
  have hmem : ∀ k, k ∈ a ++ new :: b ↔ k ∈ a ++ b ∨ k = new := fun k => by
    simp only [List.mem_append, List.mem_cons]
    rw [or_assoc, or_comm (a := k = new)]
  have hntype : (T'.mem new).type = type := by
    rw [hnew]
    exact hf.type_eq
  have hotype : ∀ k ∈ a ++ b, (T'.mem k).type = (T.mem k).type := fun k hk => by
    obtain ⟨nx, hk'⟩ := hold k hk
    rw [hk']
  have htype : ∀ t, (∃ k ∈ a ++ new :: b, (T'.mem k).type = t) ↔ (∃ k ∈ a ++ b, (T.mem k).type = t) ∨ type = t := by
    intro t
    simp only [hmem, or_and_right, exists_or, exists_eq_left, hntype]
    exact or_congr_left (exists_congr fun k => and_congr_right fun hk => by rw [hotype k hk])
  have hnil : Kept q' opened T' new [] := by
    have hkept : Kept q' opened T₁ new [] := hf.kept
    constructor
    · constructor
      · rw [hnew]
        exact hf.child
      · rw [hnew]
        exact hf.tail
      · exact fun k hk => by cases hk
    · exact fun k hk => by cases hk
    · exact List.Pairwise.nil
    · exact fun k hk => by cases hk
    · rw [hnew]
      simpa using hkept.hasAttr
    · simp
    · rw [hnew]
      exact hf.hasValue
    · rw [hnew]
      simp [hf.hasChild]
    · rw [hnew]
      exact hf.isValue
  constructor
  · refine ⟨hroot, by omega, hframe, fun k hk => ?_, ?_, fun k hk => ?_⟩
    · obtain ⟨nx, hk'⟩ := hold k hk
      rw [hk']
    · rw [hself]
      exact ⟨rfl, rfl, rfl⟩
    · rcases (hmem k).1 hk with hk | rfl
      · exact .inl hk
      · exact .inr ⟨hge, hnil⟩
  · refine { hlists with
      kinds := ?_, order := ?_, ids := ?_, hasAttr := ?_, hasChild := ?_, hasValue := ?_, onlyChild := ?_, isValue :=
        ?_ }
    · intro k hk
      rcases (hmem k).1 hk with hk | rfl
      · rw [hotype k hk]
        exact hl.kinds k hk
      · rw [hntype]
        exact hkind.imp And.left And.left
    · have horder : (a ++ b).Pairwise fun i j => (T'.mem j).type = .attr → (T'.mem i).type = .attr :=
        hl.order.imp_of_mem fun {i j} hi hj hij => by
          rw [hotype i hi, hotype j hj]
          exact hij
      obtain ⟨ha, hb, hab⟩ := List.pairwise_append.1 horder
      refine List.pairwise_append.2 ⟨ha, List.pairwise_cons.2 ⟨fun j hj hattr => ?_, hb⟩, fun i hi j hj => ?_⟩
      · rcases hkind with ⟨rfl, -⟩ | ⟨-, rfl⟩
        · exact hntype
        · cases hj
      · rcases List.mem_cons.1 hj with rfl | hj
        · rw [hntype, hotype i (List.mem_append_left _ hi)]
          rcases hkind with ⟨-, hall⟩ | ⟨rfl, -⟩
          · exact fun _ => hall i hi
          · exact fun h => by cases h
        · exact hab i hi j hj
    · intro k hk
      rcases (hmem k).1 hk with hk | rfl
      · have := hl.ids k hk
        omega
      · have := h.inTree_lt hx
        omega
    · intro ho
      rw [htype, hself]
      exact hattr ho
    · rw [htype, hself]
      exact hchild
    · rw [hself]
      exact hl.hasValue
    · rw [htype, hself]
      exact honly
    · rw [hself]
      exact fun hq' => hl.isValue (hq hq')

/-- A node is linked to the end of a list, and the flags of its parent are set. -/
def linkFlags (T : XmlTree) (x new : Nat) (hasChild hasAttr : Bool) : XmlTree :=
  (T.linkTail x new).set x { (T.linkTail x new).mem x with hasChild := hasChild, hasAttr := hasAttr }

theorem Inv.linkFlags (h : Inv q opened T) (hq : q' → q) (hx : InTree T x) (hl : Kept q opened T x l) {T₁ : XmlTree}
    (hm : More T T₁)
    {new : Nat} (hge : T.num ≤ new) (hlt : new < T₁.num) {type : NodeType} (hf : Fresh q' T₁ new type)
    (hasChild hasAttr : Bool)
    (hkind : type = .attr ∨ type = .child) (horder : type = .attr → ∀ k ∈ l, (T.mem k).type = .attr)
    (hattr : opened ≠ some x → (hasAttr = true ↔ (∃ k ∈ l, (T.mem k).type = .attr) ∨ type = .attr))
    (hchild : (∃ k ∈ l, (T.mem k).type = .child) ∨ type = .child → hasChild = true)
    (honly : q' → hasChild = true → (∃ k ∈ l, (T.mem k).type = .child) ∨ type = .child) :
    Relink q' opened T (T₁.linkFlags x new hasChild hasAttr) x l (l ++ [new]) ∧
      Kept q' opened (T₁.linkFlags x new hasChild hasAttr) x (l ++ [new]) := by
  have hxlt := h.inTree_lt hx
  have hne : new ≠ x := by omega
  have hkid : ∀ k ∈ l, k ≠ x ∧ k ≠ new ∧ T₁.mem k = T.mem k := fun k hk => by
    have := hl.ids k hk
    exact ⟨by omega, by omega, hm.mem k this.2⟩
  have hxl : x ∉ l := fun hk => (hkid x hk).1 rfl
  have hl₁ : Lists T₁ x l := hl.toLists.congr (hm.mem x hxlt) fun k hk => (hkid k hk).2.2
  have htail : ∀ t, (T₁.mem x).tail = some t → t ∈ l := fun t ht => hl₁.tail_mem ht
  have hlink := linkTail_mem T₁ hne fun t ht => ⟨(hkid t (htail t ht)).1, (hkid t (htail t ht)).2.1⟩
  have hmem : ∀ m, m ≠ x → (T₁.linkFlags x new hasChild hasAttr).mem m = (T₁.linkTail x new).mem m := fun m hmx =>
    Function.update_of_ne hmx _ _
  have hself : (T₁.linkFlags x new hasChild hasAttr).mem x = { T.mem x with
      child := if (T₁.mem x).tail = none then some new else (T₁.mem x).child, tail := some new
      hasChild := hasChild, hasAttr := hasAttr } := by
    rw [XmlTree.linkFlags, set_mem, Function.update_self, hlink, if_pos rfl, hm.mem x hxlt]
  have hnew : (T₁.linkFlags x new hasChild hasAttr).mem new = { T₁.mem new with next := none, parent := some x } := by
    rw [hmem new hne, hlink, if_neg hne, if_pos rfl, ← hf.next]
  have hold : ∀ k ∈ l ++ [], ∃ next, (T₁.linkFlags x new hasChild hasAttr).mem k = { T.mem k with next := next } := by
    intro k hk
    obtain ⟨hkx, hkn, hk₁⟩ := hkid k (by simpa using hk)
    rw [hmem k hkx, hlink, if_neg hkx, if_neg hkn, hk₁]
    split
    · exact ⟨_, rfl⟩
    · exact ⟨_, rfl⟩
  have hframe : ∀ m < T.num, m ≠ x → m ∉ l ++ [] → (T₁.linkFlags x new hasChild hasAttr).mem m = T.mem m := by
    intro m hmlt hmx hml
    rw [hmem m hmx, hlink, if_neg hmx, if_neg (by omega), if_neg fun ht => hml (by simpa using htail m ht),
      hm.mem m hmlt]
  have hlinked : Lists (T₁.linkFlags x new hasChild hasAttr) x (l ++ [new]) :=
    (hl₁.linkTail hxl hne (fun hk => (hkid new hk).2.1 rfl) hf.next).set (by simpa [hne.symm] using hxl) rfl rfl
  have hgain := h.gain hq hx (by rwa [List.append_nil]) hf
    (by simp only [XmlTree.linkFlags, set_root, linkTail_root, hm.root] :
    (T₁.linkFlags x new hasChild hasAttr).root = T.root) hge
    (by simpa only [XmlTree.linkFlags, set_num, linkTail_num] using hlt) hframe hself hnew hold hlinked
    (hkind.imp (fun htype => ⟨htype, horder htype⟩) fun htype => ⟨htype, rfl⟩) (by rwa [List.append_nil])
    (by rwa [List.append_nil]) (by rwa [List.append_nil])
  rwa [List.append_nil] at hgain

/-! ## Values -/

/-- A value has been set, or there is none, or without memory nothing has changed. -/
theorem setValue_spec (node : Node) (value : Option (List Char)) (mem : Bool) :
    ∃ v b, (node.setValue value mem).1 = { node with value := v, hasValue := b } ∧
      (v = none ∧ b = false ∨ v.isSome = true ∧ b = true ∨ v = node.value ∧ b = node.hasValue) := by
  cases hv : node.value with
  | none =>
    have hnode : node = { node with value := none } := by rw [← hv]
    by_cases hempty : value = none ∨ value = some []
    · by_cases ht : node.type = .attr
      · cases mem with
        | false =>
          exact ⟨none, node.hasValue, by rcases hempty with rfl | rfl <;> simpa [Node.setValue, hv, ht] using hnode,
            .inr (.inr ⟨rfl, rfl⟩)⟩
        | true =>
          exact ⟨some [], true, by rcases hempty with rfl | rfl <;> simp [Node.setValue, hv, ht],
            .inr (.inl ⟨rfl, rfl⟩)⟩
      · exact ⟨none, false, by rcases hempty with rfl | rfl <;> simp [Node.setValue, hv, ht], .inl ⟨rfl, rfl⟩⟩
    · rcases value with _ | _ | ⟨c, l⟩
      · exact absurd (.inl rfl) hempty
      · exact absurd (.inr rfl) hempty
      · cases mem <;> simp [Node.setValue, hv]
  | some old =>
    rcases value with _ | _ | ⟨c, l⟩
    · by_cases ht : node.type = .attr <;> cases mem <;> simp [Node.setValue, hv, ht]
    · by_cases ht : node.type = .attr <;> cases mem <;> simp [Node.setValue, hv, ht]
    · cases mem <;> simp [Node.setValue, hv]

/-- A node changes in what its list does not depend on. -/
theorem Kept.change (hl : Kept q opened T x l) (hq : q' → q) {name : List Char}
    {value : Option (List Char)} {hasAttr hasValue : Bool}
    (hT' : T' = T.set x { T.mem x with name := name, value := value, hasAttr := hasAttr, hasValue := hasValue })
    (hattr : opened ≠ some x → (hasAttr = true ↔ ∃ k ∈ l, (T.mem k).type = .attr))
    (hval : hasValue = true → value.isSome = true) (hval' : q' → value.isSome = true → hasValue = true) :
    Relink q' opened T T' x l l ∧ Kept q' opened T' x l := by
  have hxl : x ∉ l := fun hk => Nat.lt_irrefl x (hl.ids x hk).1
  have hself : T'.mem x = { T.mem x with name := name, value := value, hasAttr := hasAttr, hasValue := hasValue } := by
    rw [hT', set_mem, Function.update_self]
  have hmem : ∀ m, m ≠ x → T'.mem m = T.mem m := fun m hm => by rw [hT', set_mem, Function.update_of_ne hm]
  have hold : ∀ k ∈ l, T'.mem k = T.mem k := fun k hk => hmem k fun heq => hxl (heq ▸ hk)
  have htype : ∀ t, (∃ k ∈ l, (T'.mem k).type = t) ↔ ∃ k ∈ l, (T.mem k).type = t := fun t =>
    exists_congr fun k => and_congr_right fun hk => by rw [hold k hk]
  constructor
  · refine ⟨by rw [hT', set_root], Nat.le_of_eq (by rw [hT', set_num]), fun m _ hm _ => hmem m hm, fun k hk => ?_, ?_,
      fun k hk => .inl hk⟩
    · rw [hold k hk]
    · rw [hself]
      exact ⟨rfl, rfl, rfl⟩
  · have hlists : Lists T' x l := hT' ▸ hl.toLists.set hxl rfl rfl
    refine { hlists with
      kinds := ?_, order := ?_, ids := ?_, hasAttr := ?_, hasChild := ?_, hasValue := ?_, onlyChild := ?_, isValue :=
        ?_ }
    · intro k hk
      rw [hold k hk]
      exact hl.kinds k hk
    · refine hl.order.imp_of_mem fun {i j} hi hj hij => ?_
      rw [hold i hi, hold j hj]
      exact hij
    · rw [hT', set_num]
      exact hl.ids
    · rw [hself, htype]
      exact hattr
    · rw [hself, htype]
      exact hl.hasChild
    · rw [hself]
      exact hval
    · rw [hself, htype]
      exact fun hq' => hl.onlyChild (hq hq')
    · rw [hself]
      exact hval'

/-- A node gets another value. -/
theorem Inv.xmlSetValue (h : Inv q none T) (hx : InTree T x) (value : Option (List Char)) (mem : Bool) :
    Inv q none (T.xmlSetValue x value mem).1 := by
  obtain ⟨l, hl⟩ := h.nodes x hx
  obtain ⟨v, b, hnode, hvb⟩ := setValue_spec (T.mem x) value mem
  have hset : (T.xmlSetValue x value mem).1 = T.set x { T.mem x with
      name := (T.mem x).name, value := v, hasAttr := (T.mem x).hasAttr, hasValue := b } := by
    rw [XmlTree.xmlSetValue, hnode]
  obtain ⟨hr, hk⟩ := hl.change id hset hl.hasAttr
    (by
      rcases hvb with ⟨rfl, rfl⟩ | ⟨hv, rfl⟩ | ⟨rfl, rfl⟩
      · simp
      · simp [hv]
      · exact hl.hasValue)
    (by
      rcases hvb with ⟨rfl, rfl⟩ | ⟨hv, rfl⟩ | ⟨rfl, rfl⟩
      · simp
      · simp [hv]
      · exact hl.isValue)
  exact h.relink id hx hl hr hk

/-! ## Creation -/

theorem more_creat (T : XmlTree) (type : NodeType) (node : Node) : More T ((T.xmlNodeCreat type).set T.num node) := by
  refine ⟨rfl, Nat.le_succ _, fun m hm => ?_⟩
  simp only [set_mem, xmlNodeCreat, Function.update_of_ne (Nat.ne_of_lt hm)]

theorem xmlNodeCreatExt_spec (q : Prop) (T : XmlTree) (type : NodeType) (name : List Char) (value : Option (List Char))
    (a : Alloc) : More T (T.xmlNodeCreatExt type name value a).1 ∧
      ∀ new, (T.xmlNodeCreatExt type name value a).2 = some new →
        new = T.num ∧ new < (T.xmlNodeCreatExt type name value a).1.num ∧
        Fresh q (T.xmlNodeCreatExt type name value a).1 new type := by
  have hfreed : ∀ T₁ n, More T T₁ → More T (T₁.xmlNodeFreeOne n) := fun T₁ n h => ⟨h.root, h.num, h.mem⟩
  have hcreat : More T (T.xmlNodeCreat type) := by
    refine ⟨rfl, Nat.le_succ _, fun m hm => ?_⟩
    simp only [xmlNodeCreat, set_mem, Function.update_of_ne (Nat.ne_of_lt hm)]
  unfold xmlNodeCreatExt
  split
  · exact ⟨⟨rfl, Nat.le_refl _, fun _ _ => rfl⟩, fun _ h => by cases h⟩
  split
  · exact ⟨hfreed _ _ hcreat, fun _ h => by cases h⟩
  dsimp only
  split
  · refine ⟨more_creat T type _, fun new hnew => ?_⟩
    obtain rfl := Option.some.inj hnew
    obtain ⟨v, b, hnode, hvb⟩ := setValue_spec { xmlNodeInit type with name := name } value a.value
    refine ⟨rfl, Nat.lt_succ_self _, ?_⟩
    constructor <;> simp only [set_mem, Function.update_self, hnode]
    · rfl
    · rfl
    · rfl
    · rfl
    · rfl
    · rfl
    · rcases hvb with ⟨rfl, rfl⟩ | ⟨hv, rfl⟩ | ⟨rfl, rfl⟩
      · simp
      · simp [hv]
      · simp [xmlNodeInit]
    · rcases hvb with ⟨rfl, rfl⟩ | ⟨hv, rfl⟩ | ⟨rfl, rfl⟩
      · simp
      · simp [hv]
      · simp [xmlNodeInit]
  · exact ⟨hfreed _ _ (more_creat T type _), fun _ h => by cases h⟩

/-! ## Adding -/

theorem Inv.xmlAddChild (h : Inv q none T) (hx : InTree T x) (name : List Char) (value : Option (List Char))
    (a : Alloc) : Inv q none (T.xmlAddChild x name value a).1 := by
  obtain ⟨l, hl⟩ := h.nodes x hx
  have hspec := xmlNodeCreatExt_spec q T .child name value a
  unfold XmlTree.xmlAddChild
  split
  · exact h
  generalize T.xmlNodeCreatExt .child name value a = r at hspec
  obtain ⟨T₁, new⟩ := r
  obtain ⟨hm, hnew⟩ := hspec
  cases new with
  | none => exact h.more hm
  | some new =>
    obtain ⟨rfl, hlt, hf⟩ := hnew new rfl
    have hflags : ((T₁.linkTail x T.num).mem x).hasAttr = (T.mem x).hasAttr := by
      rw [(linkTail_flags T₁ x T.num).1, hm.mem x (h.inTree_lt hx)]
    have hattr : none ≠ some x → (((T₁.linkTail x T.num).mem x).hasAttr = true ↔
        (∃ k ∈ l, (T.mem k).type = .attr) ∨ NodeType.child = .attr) := fun ho => by
      rw [hflags, hl.hasAttr ho]
      simp
    obtain ⟨hr, hk⟩ := h.linkFlags id hx hl hm (Nat.le_refl _) hlt hf true ((T₁.linkTail x T.num).mem x).hasAttr
      (.inr rfl) (fun h => by cases h) hattr (fun _ => rfl) (fun _ _ => .inr rfl)
    exact h.relink id hx hl hr hk

/-- The search for the last attribute, in a list of attributes `k :: a` and others `b`. -/
theorem lastAttr_eq {a b : List Nat} (hc : Chain T.mem (some k) (k :: a ++ b)) (ha : ∀ i ∈ a, (T.mem i).type = .attr)
    (hb : ∀ i ∈ b.head?, (T.mem i).type ≠ .attr) {fuel : Nat} (hfuel : a.length < fuel) :
    T.lastAttr fuel k = (k :: a).getLast (List.cons_ne_nil k a) := by
  induction a generalizing k fuel with
  | nil =>
    obtain ⟨fuel, rfl⟩ := Nat.exists_eq_add_of_lt hfuel
    rw [lastAttr]
    have hnext : (T.mem k).next = b.head? := hc.2.head.symm
    cases hb' : b.head? with
    | none =>
      rw [hnext, hb']
      rfl
    | some i =>
      rw [hnext, hb']
      have := hb i hb'
      simp [isAttr, this]
  | cons i a ih =>
    obtain ⟨fuel, rfl⟩ : ∃ f, fuel = f + 1 := ⟨fuel - 1, by omega⟩
    have hnext : (T.mem k).next = some i := hc.2.1
    have hattr : T.isAttr i = true := by simp [isAttr, ha i (.head _)]
    rw [lastAttr, hnext]
    simp only [hattr, if_true]
    rw [List.getLast_cons (List.cons_ne_nil i a)]
    exact ih (hnext ▸ hc.2) (fun j hj => ha j (.tail _ hj)) (by simpa using hfuel)

end XmlTree

end BeehiveIm.Xml
