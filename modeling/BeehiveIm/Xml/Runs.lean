/-
The trees that a program can have: a parsed one or an empty one, and then any operations on its
nodes. The lists stay right in every run, and the flags are exact as long as no text has an
attribute and no list loses its only child.
-/
import BeehiveIm.Xml.Edit

namespace BeehiveIm.Xml

/-! ## Parsing -/

namespace XmlTree

variable {T T' : XmlTree} {q q' : Prop} {n x : Nat} {l : List Nat}

theorem Kept.opened (h : Kept q none T n l) (o : Option Nat) : Kept q o T n l :=
  { h with hasAttr := fun _ => h.hasAttr (by simp) }

theorem Inv.opened (h : Inv q none T) (o : Option Nat) : Inv q o T where
  nodes n hn := let ⟨l, hl⟩ := h.nodes n hn; ⟨l, hl.opened o⟩
  root := h.root
  lt := h.lt

/-- The attributes of a node have been read, and its flag is set. -/
theorem Inv.close (h : Inv q (some x) T) (hl : Kept q (some x) T x l)
    (hattr : (T.mem x).hasAttr = true ↔ ∃ k ∈ l, (T.mem k).type = .attr) : Inv q none T where
  nodes n hn := by
    by_cases hnx : n = x
    · subst hnx
      exact ⟨l, { hl with hasAttr := fun _ => hattr }⟩
    · obtain ⟨ln, hln⟩ := h.nodes n hn
      exact ⟨ln, { hln with hasAttr := fun _ => hln.hasAttr fun heq => hnx (Option.some.inj heq).symm }⟩
  root := h.root
  lt := h.lt

theorem linkTail_eq_flags (T : XmlTree) (x new : Nat) :
    T.linkTail x new = T.linkFlags x new ((T.linkTail x new).mem x).hasChild ((T.linkTail x new).mem x).hasAttr := by
  simp only [linkFlags, set, Function.update_eq_self]

theorem fresh_creat (q : Prop) (T : XmlTree) (type : NodeType) : Fresh q (T.xmlNodeCreat type) T.num type := by
  constructor <;> simp [xmlNodeCreat, xmlNodeInit]

theorem more_node (T : XmlTree) (type : NodeType) : More T (T.xmlNodeCreat type) := by
  refine ⟨rfl, Nat.le_succ _, fun m hm => ?_⟩
  simp only [xmlNodeCreat, set_mem, Function.update_of_ne (Nat.ne_of_lt hm)]

/-- No node leaves the tree, and the new ones are in it. -/
structure Grows (T T' : XmlTree) : Prop where
  old : ∀ n, InTree T n → InTree T' n
  new : ∀ n, T.num ≤ n → n < T'.num → InTree T' n

theorem Grows.trans {T₁ : XmlTree} (h : Grows T T₁) (h' : Grows T₁ T') : Grows T T' where
  old n hn := h'.old n (h.old n hn)
  new n hge hlt := by
    by_cases hn : n < T₁.num
    · exact h'.old n (h.new n hge hn)
    · exact h'.new n (Nat.not_lt.1 hn) hlt

theorem Grows.of_old (hnum : T'.num = T.num) (h : ∀ n, InTree T n → InTree T' n) : Grows T T' :=
  ⟨h, fun _ hge hlt => absurd (hnum ▸ hlt) (Nat.not_lt.2 hge)⟩

theorem Grows.refl (T : XmlTree) : Grows T T := .of_old rfl fun _ h => h

end XmlTree

namespace Parse

open XmlTree

/-- What the parser keeps: the nodes that are open are in the tree. -/
structure Good (q : Prop) (P : Parse) : Prop where
  inv : Inv q none P.xml
  stack : ∀ n ∈ P.stack, InTree P.xml n

variable {P P' : Parse} {q q' : Prop}

theorem Good.mono (h : Good q P) (hq : q' → q) : Good q' P := ⟨h.inv.mono hq, h.stack⟩

theorem Good.top_inTree (h : Good q P) : InTree P.xml (P.stack.headD P.xml.root) := by
  cases hs : P.stack with
  | nil => exact .root
  | cons top stack => exact h.stack top (hs ▸ .head _)

/-- The tree of `xml_mark_get_name` with the new node, which has no name yet. -/
def linked (P : Parse) : XmlTree :=
  (P.xml.xmlNodeCreat .child).linkFlags (P.stack.headD P.xml.root) P.xml.num true
    (((P.xml.xmlNodeCreat .child).linkTail (P.stack.headD P.xml.root) P.xml.num).mem (P.stack.headD P.xml.root)).hasAttr

theorem linked_num (P : Parse) : P.linked.num = P.xml.num + 1 := by
  simp only [linked, XmlTree.linkFlags, set_num, linkTail_num, xmlNodeCreat_num]

/-- A new node is a child of the one that is open, and has no list yet. -/
theorem Good.linked (h : Good q P) :
    Inv q none P.linked ∧ Grows P.xml P.linked ∧ Kept q none P.linked P.xml.num [] := by
  have htop := h.top_inTree
  rw [Parse.linked]
  generalize P.stack.headD P.xml.root = top at htop ⊢
  obtain ⟨l, hl⟩ := h.inv.nodes top htop
  have hm := more_node P.xml .child
  have hflag : (((P.xml.xmlNodeCreat .child).linkTail top P.xml.num).mem top).hasAttr = (P.xml.mem top).hasAttr := by
    rw [(linkTail_flags _ _ _).1, hm.mem top (h.inv.inTree_lt htop)]
  have hattr : none ≠ some top → ((((P.xml.xmlNodeCreat .child).linkTail top P.xml.num).mem top).hasAttr = true ↔
      (∃ k ∈ l, (P.xml.mem k).type = .attr) ∨ NodeType.child = .attr) := fun ho => by
    rw [hflag, hl.hasAttr ho]
    simp
  obtain ⟨hr, hk⟩ := h.inv.linkFlags id htop hl hm (Nat.le_refl _) (Nat.lt_succ_self _)
    (fresh_creat q P.xml .child) true _
    (.inr rfl) (fun h => by cases h) hattr (fun _ => rfl) (fun _ _ => .inr rfl)
  have hsub : ∀ n, InTree P.xml n → InTree _ n := fun n hn =>
    h.inv.inTree_relink id hl hr hk (fun k hk => List.mem_append_left _ hk) hn
  refine ⟨h.inv.relink id htop hl hr hk, ⟨hsub, fun n hge hlt => ?_⟩, ?_⟩
  · have heq : n = P.xml.num := by
      simp only [XmlTree.linkFlags, set_num, linkTail_num, xmlNodeCreat_num] at hlt
      omega
    exact heq ▸ hk.inTree (hsub top htop) (List.mem_append_right l (.head _))
  · rcases hr.new P.xml.num (by simp) with hmem | ⟨-, hnil⟩
    · exact absurd (hl.ids _ hmem).2 (Nat.lt_irrefl _)
    · exact hnil

/-- What `xml_mark_get_name` makes of the tree. -/
theorem xmlMarkGetName_eq (hget : P.xmlMarkGetName = some P') :
    P'.xml = P.linked.set P.xml.num { P.linked.mem P.xml.num with name := P.ptr.takeWhile xmlIsMarkChar } ∧
      P'.stack = P.xml.num :: P.stack ∧ P'.ptr = P.ptr.dropWhile xmlIsMarkChar ∧ P.stack.length < XML_MAX_DEPTH := by
  unfold Parse.xmlMarkGetName at hget
  dsimp only at hget
  split at hget
  · rename_i border ptr heq
    split at hget
    · rename_i hborder
      obtain rfl := Option.some.inj hget
      exact ⟨rfl, rfl, heq.symm, hborder.2⟩
    · cases hget
  · cases hget

/-- The new node gets its name. -/
theorem Good.named (h : Good q P) {T : XmlTree} {name : List Char}
    (hT : T = P.linked.set P.xml.num { P.linked.mem P.xml.num with name := name }) :
    Inv q none T ∧ Grows P.xml T ∧ Kept q none T P.xml.num [] := by
  obtain ⟨hinv, hgrow, hnil⟩ := h.linked
  have hnode : InTree P.linked P.xml.num := hgrow.new _ (Nat.le_refl _) (by rw [linked_num]; omega)
  obtain ⟨hr', hk'⟩ := hnil.change id hT hnil.hasAttr hnil.hasValue hnil.isValue
  exact ⟨hinv.relink id hnode hnil hr' hk', hgrow.trans (.of_old (by rw [hT, set_num]) fun n hn =>
    hinv.inTree_relink id hnil hr' hk' (fun k hk => hk) hn), hk'⟩

theorem Good.xmlMarkGetName (h : Good q P) (hget : P.xmlMarkGetName = some P') :
    Good q P' ∧ Grows P.xml P'.xml ∧ Kept q none P'.xml P.xml.num [] := by
  obtain ⟨hxml, hstack, -, -⟩ := xmlMarkGetName_eq hget
  obtain ⟨hinv, hgrow, hnil⟩ := h.named hxml
  refine ⟨⟨hinv, fun n hn => ?_⟩, hgrow, hnil⟩
  rw [hstack] at hn
  rcases List.mem_cons.1 hn with rfl | hn
  · exact hgrow.new _ (Nat.le_refl _) (by rw [hxml, set_num, linked_num]; omega)
  · exact hgrow.old n (h.stack n hn)

/-- The list of a node whose attributes are being read: attributes alone. -/
structure Reading (T : XmlTree) (top : Nat) (l : List Nat) : Prop where
  inv : Inv False (some top) T
  inTree : InTree T top
  kept : Kept False (some top) T top l
  attrs : ∀ k ∈ l, (T.mem k).type = .attr

/-- A new attribute at the end of the list. -/
theorem Reading.add {T : XmlTree} {top : Nat} {l : List Nat} (h : Reading T top l) (name value : List Char) :
    Reading (((T.xmlNodeCreat .attr).set T.num { (T.xmlNodeCreat .attr).mem T.num with
      name := name, value := some value }).linkTail top T.num) top (l ++ [T.num]) ∧
    Grows T (((T.xmlNodeCreat .attr).set T.num { (T.xmlNodeCreat .attr).mem T.num with
      name := name, value := some value }).linkTail top T.num) := by
  -- it has a value, and no flag for it
  have hm : More T ((T.xmlNodeCreat .attr).set T.num
      { (T.xmlNodeCreat .attr).mem T.num with name := name, value := some value }) := more_creat T .attr _
  have hf : Fresh False ((T.xmlNodeCreat .attr).set T.num
      { (T.xmlNodeCreat .attr).mem T.num with name := name, value := some value }) T.num .attr := by
    constructor <;> simp [xmlNodeCreat, xmlNodeInit]
  have hnum : ((T.xmlNodeCreat .attr).set T.num
      { (T.xmlNodeCreat .attr).mem T.num with name := name, value := some value }).num = T.num + 1 := rfl
  generalize (T.xmlNodeCreat .attr).set T.num
    { (T.xmlNodeCreat .attr).mem T.num with name := name, value := some value } = T₁
    at hm hf hnum ⊢
  have hattr : some top ≠ some top → (((T₁.linkTail top T.num).mem top).hasAttr = true ↔
      (∃ k ∈ l, (T.mem k).type = .attr) ∨ NodeType.attr = .attr) := fun ho => absurd rfl ho
  obtain ⟨hr, hk⟩ := h.inv.linkFlags id h.inTree h.kept hm (Nat.le_refl _) (hnum ▸ Nat.lt_succ_self _) hf
    ((T₁.linkTail top T.num).mem top).hasChild _
    (.inl rfl) (fun _ => h.attrs) hattr
    (fun hc => by
      obtain ⟨k, hk, hchild⟩ := hc.resolve_right (by simp)
      rw [h.attrs k hk] at hchild
      cases hchild)
    (fun hq => hq.elim)
  rw [← linkTail_eq_flags] at hr hk
  have hsub : ∀ n, InTree T n → InTree (T₁.linkTail top T.num) n := fun n hn =>
    h.inv.inTree_relink id h.kept hr hk (fun k hk => List.mem_append_left _ hk) hn
  refine ⟨⟨h.inv.relink id h.inTree h.kept hr hk, hsub top h.inTree, hk, fun k hkl => ?_⟩, hsub, fun n hge hlt => ?_⟩
  · rcases List.mem_append.1 hkl with hkl | hkl
    · rw [hr.kids k hkl]
      exact h.attrs k hkl
    · have htoplt := h.inv.inTree_lt h.inTree
      have hlink := linkTail_mem T₁ (Nat.ne_of_gt htoplt) (fun t ht => by
        rw [hm.mem top htoplt] at ht
        have := h.kept.ids t (h.kept.tail_mem ht)
        exact ⟨by omega, by omega⟩) T.num
      rw [if_neg (Nat.ne_of_gt htoplt), if_pos rfl] at hlink
      rw [List.mem_singleton.1 hkl, hlink]
      exact hf.type_eq
  · have heq : n = T.num := by
      rw [linkTail_num, hnum] at hlt
      omega
    exact heq ▸ hk.inTree (hsub top h.inTree) (List.mem_append_right l (.head _))

theorem attrLoop_reading {T T' : XmlTree} {top fuel : Nat} {l : List Nat} {ptr ptr' : List Char} (h : Reading T top l)
    (hloop : attrLoop top fuel T ptr = some (T', ptr')) :
    (∃ l', l' ≠ [] ∧ Reading T' top l') ∧ Grows T T' := by
  induction fuel generalizing T l ptr with
  | zero => cases hloop
  | succ fuel ih =>
    rw [attrLoop] at hloop
    split at hloop
    · cases hloop
    rename_i name value rest htext
    dsimp only at hloop
    obtain ⟨hread, hgrow⟩ := h.add name value
    split at hloop
    · obtain ⟨hl', hgrow'⟩ := ih hread hloop
      exact ⟨hl', hgrow.trans hgrow'⟩
    · obtain ⟨rfl, -⟩ := Prod.mk.inj (Option.some.inj hloop)
      exact ⟨⟨_, by simp, hread⟩, hgrow⟩

theorem Good.xmlMarkGetAttr (h : Good q P) {top : Nat} {stack : List Nat} (hs : P.stack = top :: stack)
    (hnil : Kept q none P.xml top []) (hget : P.xmlMarkGetAttr = some P') : Good False P' ∧ Grows P.xml P'.xml := by
  unfold Parse.xmlMarkGetAttr at hget
  rw [hs] at hget
  dsimp only at hget
  split at hget
  · cases hget
  rename_i T ptr hloop
  obtain rfl := Option.some.inj hget
  have hread : Reading P.xml top [] :=
    ⟨(h.inv.mono False.elim).opened _, h.stack top (hs ▸ .head _), (hnil.mono False.elim).opened _,
    fun k hk => by cases hk⟩
  obtain ⟨⟨l, hne, hread'⟩, hgrow⟩ := attrLoop_reading hread hloop
  obtain ⟨hr, hk⟩ := hread'.kept.change id (rfl : T.set top { T.mem top with hasAttr := true } = _)
    (fun ho => absurd rfl ho)
    hread'.kept.hasValue hread'.kept.isValue
  have hflag : ((T.set top { T.mem top with hasAttr := true }).mem top).hasAttr = true ↔
      ∃ k ∈ l, ((T.set top { T.mem top with hasAttr := true }).mem k).type = .attr := by
    obtain ⟨k, l, rfl⟩ := List.exists_cons_of_ne_nil hne
    rw [set_mem, Function.update_self]
    refine iff_of_true rfl ⟨k, .head _, ?_⟩
    have := hr.kids k (.head _)
    rw [set_mem] at this
    rw [this]
    exact hread'.attrs k (.head _)
  have hinv := (hread'.inv.relink id hread'.inTree hread'.kept hr hk).close hk hflag
  have hgrow' := hgrow.trans (.of_old (by rw [set_num]) fun n hn =>
    hread'.inv.inTree_relink id hread'.kept hr hk (fun k hk => hk) hn)
  exact ⟨⟨hinv, fun n hn => hgrow'.old n (h.stack n (hs ▸ hn))⟩, hgrow'⟩

theorem Good.xmlMarkGetValue (h : Good q P) (hget : P.xmlMarkGetValue = some P') : Good q P' ∧ Grows P.xml P'.xml := by
  unfold Parse.xmlMarkGetValue at hget
  split at hget
  · cases hget
  rename_i curr stack hs
  split at hget
  · cases hget
  rename_i value ptr htext
  obtain rfl := Option.some.inj hget
  have hcurr : InTree P.xml curr := h.stack curr (hs ▸ .head _)
  obtain ⟨l, hl⟩ := h.inv.nodes curr hcurr
  obtain ⟨hr, hk⟩ := hl.change id (rfl :
    P.xml.set curr { P.xml.mem curr with value := some value, hasValue := true } = _) hl.hasAttr
    (fun _ => rfl) (fun _ _ => rfl)
  have hsub : ∀ n, InTree P.xml n → InTree _ n := fun n hn => h.inv.inTree_relink id hl hr hk (fun k hk => hk) hn
  exact ⟨⟨h.inv.relink id hcurr hl hr hk, fun n hn => hsub n (h.stack n hn)⟩, .of_old rfl hsub⟩

theorem Good.markRest (h : Good q P) (hrest : P.markRest = some P') : Good q P' ∧ Grows P.xml P'.xml := by
  unfold Parse.markRest at hrest
  split at hrest
  · obtain rfl := Option.some.inj hrest
    exact ⟨⟨h.inv, fun n hn => h.stack n (List.mem_of_mem_tail hn)⟩, .refl _⟩
  split at hrest
  · rename_i ptr heq
    dsimp only at hrest
    split at hrest
    · obtain rfl := Option.some.inj hrest
      exact ⟨⟨h.inv, h.stack⟩, .refl _⟩
    · exact Good.xmlMarkGetValue (P := { P with ptr := skip ptr }) ⟨h.inv, h.stack⟩ hrest
  · cases hrest

/-- Whether the mark at which the parser is has an attribute. -/
def atAttr (ptr : List Char) : Bool :=
  match ptr with
  | '<' :: '?' :: _ | '<' :: '!' :: _ | '<' :: '/' :: _ => false
  | '<' :: ptr => (skip (ptr.dropWhile xmlIsMarkChar)).head?.any xmlIsMarkChar
  | _ => false

theorem Good.xmlParseMark (h : Good q P) (hmark : P.xmlParseMark = some P') :
    Good (q ∧ (skip ((P.ptr.drop 1).dropWhile xmlIsMarkChar)).head?.any xmlIsMarkChar = false) P' ∧
      Grows P.xml P'.xml := by
  unfold Parse.xmlParseMark at hmark
  split at hmark
  · cases hmark
  rename_i P₁ hname
  obtain ⟨h₁, hgrow, hnil⟩ := Good.xmlMarkGetName (P := { P with ptr := P.ptr.drop 1 }) ⟨h.inv, h.stack⟩ hname
  obtain ⟨-, hs, hptr, -⟩ := xmlMarkGetName_eq hname
  dsimp only at hmark
  split at hmark
  · rename_i hattr
    obtain ⟨P₂, hget, hrest⟩ := Option.bind_eq_some_iff.1 hmark
    obtain ⟨h₂, hgrow₂⟩ :=
      Good.xmlMarkGetAttr (P := { P₁ with ptr := skip P₁.ptr }) ⟨h₁.inv, h₁.stack⟩ hs hnil hget
    obtain ⟨h₃, hgrow₃⟩ := h₂.markRest hrest
    refine ⟨h₃.mono fun hq => ?_, (hgrow.trans hgrow₂).trans hgrow₃⟩
    rw [← hptr] at hq
    rw [xmlMarkHasAttr, hq.2] at hattr
    cases hattr
  · obtain ⟨h₂, hgrow₂⟩ := Good.markRest (P := { P₁ with ptr := skip P₁.ptr }) ⟨h₁.inv, h₁.stack⟩ hmark
    exact ⟨h₂.mono And.left, hgrow.trans hgrow₂⟩

theorem Good.turn (h : Good q P) (hturn : P.turn = some P') :
    Good (q ∧ atAttr P.ptr = false) P' ∧ Grows P.xml P'.xml := by
  unfold Parse.turn at hturn
  split at hturn
  · obtain ⟨ptr, -, rfl⟩ := Option.map_eq_some_iff.1 hturn
    exact ⟨⟨h.inv.mono And.left, h.stack⟩, .refl _⟩
  · obtain ⟨ptr, -, rfl⟩ := Option.map_eq_some_iff.1 hturn
    exact ⟨⟨h.inv.mono And.left, h.stack⟩, .refl _⟩
  · unfold Parse.xmlParseEnd at hturn
    dsimp only at hturn
    split at hturn
    · split at hturn
      · rename_i top stack hs
        split at hturn
        · obtain rfl := Option.some.inj hturn
          exact ⟨⟨h.inv.mono And.left, fun n hn => h.stack n (hs ▸ .tail _ hn)⟩, .refl _⟩
        · cases hturn
      · cases hturn
    · cases hturn
  · rename_i ptr h1 h2 h3 heq
    obtain ⟨hgood, hgrow⟩ := h.xmlParseMark hturn
    refine ⟨hgood.mono fun hq => ⟨hq.1, ?_⟩, hgrow⟩
    have hat := hq.2
    rw [heq] at hat ⊢
    rwa [atAttr.eq_4 ptr h1 h2 h3] at hat
  · cases hturn

/-- No mark that the loop of `xml_parse` comes to has an attribute. -/
def plainLoop (total len : Nat) : Nat → Parse → Bool
  | 0, _ => true
  | fuel + 1, P =>
    if P.ptr = [] ∨ len ≤ total - P.ptr.length then true
    else
      let P := { P with ptr := skip P.ptr }
      !atAttr P.ptr && match P.turn with
        | none => true
        | some P => plainLoop total len fuel P

theorem Good.loop (h : Good q P) {total len fuel : Nat} {T : XmlTree} (hloop : Parse.loop total len fuel P = some T) :
    Inv (q ∧ plainLoop total len fuel P = true) none T := by
  induction fuel generalizing P q with
  | zero => cases hloop
  | succ fuel ih =>
    have hend : ∀ q' : Prop, (if P.stack = [] then some P.xml else none) = some T → Inv (q ∧ q') none T :=
      fun q' heq => by
      split at heq
      · exact Option.some.inj heq ▸ h.inv.mono And.left
      · cases heq
    rw [Parse.loop] at hloop
    rw [plainLoop]
    split at hloop
    · exact hend _ hloop
    rename_i hmore
    rw [if_neg hmore]
    dsimp only at hloop ⊢
    split at hloop
    · exact hend _ hloop
    cases hturn : Parse.turn { P with ptr := skip P.ptr } with
    | none =>
      rw [hturn] at hloop
      cases hloop
    | some P' =>
      rw [hturn] at hloop
      have h' := (Good.turn (P := { P with ptr := skip P.ptr }) ⟨h.inv, h.stack⟩ hturn).1
      refine (ih h' hloop).mono fun hq => ?_
      simp only [Bool.and_eq_true, Bool.not_eq_true'] at hq
      exact ⟨⟨hq.1, hq.2.1⟩, hq.2.2⟩

end Parse

/-- No mark of a text that `xml_screat` comes to has an attribute. -/
def Plain (str : List Char) (len : Nat) : Prop :=
  len = 0 ∨ Parse.plainLoop str.length len (str.length + 1) ⟨XmlTree.xmlInit, [], str⟩ = true

namespace XmlTree

theorem inv_new (q : Prop) (node : Node) (hchild : node.child = none) (htail : node.tail = none)
    (hparent : node.parent = none)
    (hflags : node.hasChild = false ∧ node.hasAttr = false ∧ node.hasValue = false ∧ node.value = none) :
    Inv q none ⟨fun _ => node, 0, 1, []⟩ := by
  have hkept : Kept q none ⟨fun _ => node, 0, 1, []⟩ 0 [] := by
    obtain ⟨hc, ha, hv, hval⟩ := hflags
    refine { chain := hchild, tail := htail, parent := by simp, kinds := by simp, order := .nil, ids := by simp, hasAttr := ?_,
             hasChild := by simp, hasValue := ?_, onlyChild := ?_, isValue := ?_ }
    · simp [ha]
    · simp [hv]
    · simp [hc]
    · simp [hval]
  refine ⟨fun n hn => ⟨[], ?_⟩, hparent, Nat.one_pos⟩
  have hroot : n = 0 := by
    induction hn with
    | root => rfl
    | @kid p k l hp hc hk ih =>
      subst ih
      rw [hc.unique hkept.chain] at hk
      cases hk
  exact hroot ▸ hkept

theorem inv_xmlEmpty (q : Prop) : Inv q none xmlEmpty := inv_new q _ rfl rfl rfl ⟨rfl, rfl, rfl, rfl⟩

theorem inv_xmlScreat {str : List Char} {len : Nat} {T : XmlTree} (h : xmlScreat str len = some T) :
    Inv (Plain str len) none T := by
  unfold xmlScreat at h
  split at h
  · exact Option.some.inj h ▸ inv_xmlEmpty _
  · rename_i hlen
    have hgood : Parse.Good True ⟨xmlInit, [], str⟩ :=
      ⟨inv_new _ _ rfl rfl rfl ⟨rfl, rfl, rfl, rfl⟩, fun n hn => by cases hn⟩
    exact (hgood.loop h).mono fun hp => ⟨trivial, hp.resolve_left hlen⟩

end XmlTree

/-! ## Runs -/

open XmlTree

/-- An operation on a tree, with what memory there is for it. -/
inductive Op where
  | addAttr (node : Nat) (name : List Char) (value : Option (List Char)) (a : Alloc)
  | addChild (node : Nat) (name : List Char) (value : Option (List Char)) (a : Alloc)
  | setValue (node : Nat) (value : Option (List Char)) (mem : Bool)
  | deleteChild (node child : Nat)
  | nodeFree (node : Nat)

/-- A list has no element but one, and that is a child. -/
def OnlyChild (T : XmlTree) (node child : Nat) : Prop :=
  (T.mem node).child = some child ∧ (T.mem child).next = none ∧ (T.mem child).type = .child

instance (T : XmlTree) (node child : Nat) : Decidable (OnlyChild T node child) :=
  inferInstanceAs (Decidable ((T.mem node).child = some child ∧ (T.mem child).next = none ∧
  (T.mem child).type = .child))

namespace Op

def apply (T : XmlTree) : Op → XmlTree
  | addAttr node name value a => (T.xmlAddAttr node name value a).1
  | addChild node name value a => (T.xmlAddChild node name value a).1
  | setValue node value mem => (T.xmlSetValue node value mem).1
  | deleteChild node child => (T.xmlDeleteChild node child).1
  | nodeFree node => (T.xmlNodeFree node).1

/-- The operation is on nodes of the tree; once the root is freed there are none. -/
def On (T : XmlTree) : Op → Prop
  | addAttr node _ _ _ | addChild node _ _ _ | setValue node _ _ => T.InTree node
  | deleteChild node child => T.InTree node ∧ T.InTree child
  | nodeFree node => T.InTree node ∧ node ≠ T.root

/-- No list loses an only child. -/
def Keeps (T : XmlTree) : Op → Prop
  | addAttr .. | addChild .. | setValue .. => True
  | deleteChild node child => (T.mem child).parent = some node → ¬ OnlyChild T node child
  | nodeFree node => ∀ parent, (T.mem node).parent = some parent → ¬ OnlyChild T parent node

theorem apply_inv {T : XmlTree} {q : Prop} (h : Inv q none T) {op : Op} (hon : op.On T) :
    Inv (q ∧ op.Keeps T) none (op.apply T) := by
  have honly : ∀ {x k l}, Kept q none T x l → Only T k l → OnlyChild T x k := by
    rintro x k _ hl ⟨rfl, htype⟩
    exact ⟨hl.chain.1, hl.chain.2, htype⟩
  cases op with
  | addAttr node name value a => exact (h.xmlAddAttr hon name value a).mono And.left
  | addChild node name value a => exact (h.xmlAddChild hon name value a).mono And.left
  | setValue node value mem => exact (h.xmlSetValue hon value mem).mono And.left
  | deleteChild node child =>
    by_cases hparent : (T.mem child).parent = some node
    · obtain ⟨hnode, l, hl, hk⟩ := h.listed hon.2 hparent
      obtain ⟨l', -, -, hr, hl', -⟩ := hl.xmlDeleteChild hk
      exact (h.relink And.left hnode hl hr hl').mono fun hq => ⟨hq.1, fun ho => hq.2 hparent (honly hl ho)⟩
    · rw [apply, XmlTree.xmlDeleteChild, if_pos hparent]
      exact h.mono And.left
  | nodeFree node =>
    cases hparent : (T.mem node).parent with
    | none =>
      -- no node but the root is without a parent
      obtain ⟨hin, hroot⟩ := hon
      cases hin with
      | root => exact absurd rfl hroot
      | @kid p k l hp hc hk =>
        obtain ⟨lp, hlp⟩ := h.nodes p hp
        rw [hlp.parent _ (hc.unique hlp.chain ▸ hk)] at hparent
        cases hparent
    | some parent =>
      obtain ⟨hx, l, hl, hk⟩ := h.listed hon.1 hparent
      exact (h.xmlNodeFree hon.1 hl hx hk).mono fun hq => ⟨hq.1, fun ho => hq.2 parent hparent (honly hl ho)⟩

end Op

/-- Where a tree comes from. -/
inductive Source where
  | empty
  | screat (str : List Char) (len : Nat)

namespace Source

def tree : Source → Option XmlTree
  | empty => some xmlEmpty
  | screat str len => xmlScreat str len

/-- The text has no attributes. -/
def Plain : Source → Prop
  | empty => True
  | screat str len => Xml.Plain str len

theorem tree_inv {src : Source} {T : XmlTree} (h : src.tree = some T) : Inv src.Plain none T := by
  cases src with
  | empty => exact Option.some.inj h ▸ inv_xmlEmpty _
  | screat str len => exact inv_xmlScreat h

end Source

/-- The operations are each on nodes that are in the tree then. -/
def AllOn (T : XmlTree) : List Op → Prop
  | [] => True
  | op :: ops => op.On T ∧ AllOn (op.apply T) ops

def AllKeep (T : XmlTree) : List Op → Prop
  | [] => True
  | op :: ops => op.Keeps T ∧ AllKeep (op.apply T) ops

/-- A run of operations. -/
def exec (T : XmlTree) (ops : List Op) : XmlTree := ops.foldl Op.apply T

theorem exec_inv {T : XmlTree} {q : Prop} (h : Inv q none T) {ops : List Op} (hon : AllOn T ops) :
    Inv (q ∧ AllKeep T ops) none (exec T ops) := by
  induction ops generalizing T q with
  | nil => exact h.mono And.left
  | cons op ops ih => exact (ih (Op.apply_inv h hon.1) hon.2).mono fun hq => ⟨⟨hq.1, hq.2.1⟩, hq.2.2⟩

/-- A node and its list: attributes before children, `tail` at the end, each with its parent, and
the flags of all that is there. -/
structure Linked (T : XmlTree) (n : Nat) (l : List Nat) : Prop where
  chain : Chain T.mem (T.mem n).child l
  kinds : ∀ k ∈ l, (T.mem k).type = .attr ∨ (T.mem k).type = .child
  order : l.Pairwise fun i j => (T.mem j).type = .attr → (T.mem i).type = .attr
  tail : (T.mem n).tail = l.getLast?
  parent : ∀ k ∈ l, (T.mem k).parent = some n
  hasAttr : (T.mem n).hasAttr = true ↔ ∃ k ∈ l, (T.mem k).type = .attr
  hasChild : (∃ k ∈ l, (T.mem k).type = .child) → (T.mem n).hasChild = true
  hasValue : (T.mem n).hasValue = true → (T.mem n).value.isSome = true

/-- And no flag of what is not there. -/
structure Whole (T : XmlTree) (n : Nat) (l : List Nat) : Prop extends Linked T n l where
  onlyChild : (T.mem n).hasChild = true → ∃ k ∈ l, (T.mem k).type = .child
  isValue : (T.mem n).value.isSome = true → (T.mem n).hasValue = true

/-- In every run the lists are right, and the flags of a run without attributes in its text and
without the deletion of an only child are exact. -/
theorem tree_whole {src : Source} {T : XmlTree} (h : src.tree = some T) {ops : List Op} (hon : AllOn T ops) {n : Nat}
    (hn : InTree (exec T ops) n) :
    (∃ l, Linked (exec T ops) n l) ∧ (src.Plain → AllKeep T ops → ∃ l, Whole (exec T ops) n l) := by
  obtain ⟨l, hl⟩ := (exec_inv (Source.tree_inv h) hon).nodes n hn
  have hlinked : Linked (exec T ops) n l :=
    ⟨hl.chain, hl.kinds, hl.order, hl.tail, hl.parent, hl.hasAttr (by simp), hl.hasChild, hl.hasValue⟩
  exact ⟨⟨l, hlinked⟩, fun hplain hkeep => ⟨l, hlinked, hl.onlyChild ⟨hplain, hkeep⟩, hl.isValue ⟨hplain, hkeep⟩⟩⟩

/-- A child with a value gets an attribute and a child, and loses the child. -/
theorem tree_whole_kept : ∃ l, Whole
    (exec xmlEmpty [.addChild 0 ['a'] (some ['x']) ⟨true, true, true⟩, .addAttr 1 ['b'] none ⟨true, true, true⟩,
    .addChild 1 ['c'] none ⟨true, true, true⟩, .deleteChild 1 3]) 1 l := by
  have hone : ∀ T : XmlTree, T.root = 0 → Chain T.mem (T.mem 0).child [1] → InTree T 1 :=
    fun T hroot hc => .kid (hroot ▸ .root) hc (.head _)
  have hon : AllOn xmlEmpty [.addChild 0 ['a'] (some ['x']) ⟨true, true, true⟩,
    .addAttr 1 ['b'] none ⟨true, true, true⟩,
      .addChild 1 ['c'] none ⟨true, true, true⟩, .deleteChild 1 3] := by
    refine ⟨.root, hone _ rfl (by decide), hone _ rfl (by decide), ⟨hone _ rfl (by decide), ?_⟩, trivial⟩
    exact .kid (l := [2, 3]) (hone _ rfl (by decide)) (by decide) (by decide)
  have hsrc : Source.empty.tree = some xmlEmpty := rfl
  exact (tree_whole hsrc hon (hone _ rfl (by decide))).2 trivial
    ⟨trivial, trivial, trivial, fun _ => by decide, trivial⟩

/-- The root of an empty tree gets a child and loses it; and the attribute of a text has
a value without a flag. -/
theorem lost_flags :
    (AllOn xmlEmpty [.addChild 0 ['a'] none ⟨true, true, true⟩, .deleteChild 0 1] ∧
      ¬ ∃ l, Whole (exec xmlEmpty [.addChild 0 ['a'] none ⟨true, true, true⟩, .deleteChild 0 1]) 0 l) ∧
    ∃ T, (Source.screat ['<', 'a', ' ', 'b', '=', '"', 'c', '"', '/', '>'] 10).tree = some T ∧ InTree T 2 ∧ ¬ ∃ l, Whole T 2 l := by
  refine ⟨⟨⟨.root, ⟨.root, ?_⟩, trivial⟩, ?_⟩, ?_⟩
  · exact .kid (l := [1]) .root (by decide) (.head _)
  · rintro ⟨l, hl⟩
    have hnil : l = [] := hl.chain.unique (by decide)
    obtain ⟨k, hk, -⟩ := hl.onlyChild (by decide)
    rw [hnil] at hk
    cases hk
  · refine ⟨_, rfl, ?_, ?_⟩
    · exact .kid (l := [2]) (.kid (l := [1]) .root (by decide) (.head _)) (by decide) (.head _)
    · rintro ⟨l, hl⟩
      have := hl.isValue (by decide)
      exact absurd this (by decide)

end BeehiveIm.Xml
