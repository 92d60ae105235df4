/-
What the printers write, the parser reads: from the text of a document, indented or not, it makes
a tree of the same document. A name is not empty and has mark characters only; no value of an
attribute has a double quote; a value is not empty, has no `<` and no white space at its ends,
and begins with no quote.
-/
import BeehiveIm.Xml.Print

namespace BeehiveIm.Xml

/-! ## Texts with white space -/

/-- The texts of both printers: white space in front of a tag, and behind it. -/
def layoutForm (indent : Nat → List Char) (eol : List Char) : Form (List Char) where
  name depth name := indent (depth - 1) ++ '<' :: name
  attr name value := ' ' :: (name ++ '=' :: '"' :: (value ++ ['"']))
  value
    | some value, true, _, _ => '>' :: (value ++ eol)
    | some value, false, _, name => '>' :: (value ++ '<' :: '/' :: (name ++ '>' :: eol))
    | none, _, true, _ => '>' :: eol
    | none, _, false, _ => '/' :: '>' :: eol
  close depth name := indent (depth - 2) ++ '<' :: '/' :: (name ++ '>' :: eol)
  closeUp depth name := indent depth ++ '<' :: '/' :: (name ++ '>' :: eol)

theorem xmlSprintForm_eq : xmlSprintForm = layoutForm tabs ['\n'] := by
  unfold xmlSprintForm layoutForm
  congr

theorem xmlPackForm_eq : xmlPackForm = layoutForm (fun _ => []) [] := by
  unfold xmlPackForm layoutForm
  congr
  funext value hasChild more name
  cases value <;> cases hasChild <;> cases more <;> simp

/-- Characters that the parser passes over -/
def White (l : List Char) : Prop := ∀ c ∈ l, xmlIsIgnoreChar c = true

/-- A name that the parser reads. -/
def IsName (l : List Char) : Prop := l ≠ [] ∧ ∀ c ∈ l, xmlIsMarkChar c = true

/-- A value that the parser reads as it is, without quotes. -/
structure IsText (l : List Char) : Prop where
  plain : '<' ∉ l
  first : ∃ c, l.head? = some c ∧ xmlIsIgnoreChar c = false ∧ c ≠ '"' ∧ c ≠ '\''
  last : ∀ c ∈ l.getLast?, xmlIsIgnoreChar c = false

namespace Doc

/-- What the parser can read. -/
def Fine : Doc → Prop
  | nil => True
  | node name attrs value kids rest => IsName name ∧ (∀ a ∈ attrs, IsName a.1 ∧ '"' ∉ a.2) ∧
      (∀ v ∈ value, IsText v) ∧ kids.Fine ∧ rest.Fine

def height : Doc → Nat
  | nil => 0
  | node _ _ _ kids rest => max (kids.height + 1) rest.height

end Doc

theorem height_doc (mem : Nat → Node) : ∀ f : Forest, (f.doc mem).height = f.height
  | .nil => rfl
  | .cons n a k rest => by rw [Forest.doc, Doc.height, Forest.height, height_doc mem k, height_doc mem rest]

/-! ## Reading -/

variable {g l x rest : List Char} {c : Char}

theorem skip_append (h : White g) : skip (g ++ x) = skip x := List.dropWhile_append_of_pos h

theorem skip_cons (h : xmlIsIgnoreChar c = false) : skip (c :: x) = c :: x := by
  rw [skip, List.dropWhile_cons_of_neg (by simp [h])]

theorem White.append {g' : List Char} (h : White g) (h' : White g') : White (g ++ g') := fun c hc =>
  (List.mem_append.1 hc).elim (h c) (h' c)

instance (l : List Char) : Decidable (White l) := List.decidableBAll (fun c => xmlIsIgnoreChar c = true) l

theorem white_tabs (n : Nat) : White (tabs n) := fun c hc => by
  rw [List.eq_of_mem_replicate hc]
  rfl

/-- A mark character has no other meaning. -/
theorem mark_plain (h : xmlIsMarkChar c = true) : xmlIsIgnoreChar c = false ∧ xmlIsMarkBorder c = false ∧ c ≠ '?' ∧
    c ≠ '!' ∧ c ≠ '/' ∧ c ≠ '=' ∧ c ≠ '>' ∧ c ≠ '<' := by
  have hne : ∀ d, xmlIsMarkChar d = false → c ≠ d := fun d hd heq => by
    rw [heq, hd] at h
    cases h
  have hwhite : xmlIsIgnoreChar c = false := by
    simp only [xmlIsIgnoreChar, Bool.or_eq_false_iff, decide_eq_false_iff_not]
    refine ⟨⟨⟨⟨⟨?_, ?_⟩, ?_⟩, ?_⟩, ?_⟩, ?_⟩ <;> exact hne _ (by decide)
  have hslash := hne '/' (by decide)
  have hgt := hne '>' (by decide)
  refine ⟨hwhite, ?_, hne _ (by decide), hne _ (by decide), hslash, hne _ (by decide), hgt, hne _ (by decide)⟩
  simp [xmlIsMarkBorder, hwhite, hslash, hgt]

theorem border_not_mark (h : xmlIsMarkBorder c = true) : xmlIsMarkChar c = false := by
  by_contra hc
  rw [(mark_plain (by simpa using hc)).2.1] at h
  cases h

theorem IsName.cons (h : IsName l) : ∃ c l', l = c :: l' ∧ xmlIsMarkChar c = true := by
  obtain ⟨hne, hall⟩ := h
  cases l with
  | nil => exact absurd rfl hne
  | cons c l' => exact ⟨c, l', rfl, hall c (.head _)⟩

theorem IsName.skip (h : IsName l) : skip (l ++ x) = l ++ x := by
  obtain ⟨c, l', rfl, hc⟩ := h.cons
  exact skip_cons (mark_plain hc).1

theorem IsName.takeWhile (h : IsName l) (hc : xmlIsMarkChar c = false) :
    (l ++ c :: x).takeWhile xmlIsMarkChar = l := by
  rw [List.takeWhile_append_of_pos h.2, List.takeWhile_cons_of_neg (by simp [hc]), List.append_nil]

theorem IsName.dropWhile (h : IsName l) (hc : xmlIsMarkChar c = false) :
    (l ++ c :: x).dropWhile xmlIsMarkChar = c :: x := by
  rw [List.dropWhile_append_of_pos h.2, List.dropWhile_cons_of_neg (by simp [hc])]

theorem not_border {border : Char} (h : border ∉ l) : ∀ c ∈ l, decide (c ≠ border) = true := fun _ hc =>
  decide_eq_true fun heq => h (heq ▸ hc)

theorem takeWhile_border {border : Char} (h : border ∉ l) : (l ++ border :: x).takeWhile (· ≠ border) = l := by
  rw [List.takeWhile_append_of_pos (not_border h), List.takeWhile_cons_of_neg (by simp), List.append_nil]

theorem dropWhile_border {border : Char} (h : border ∉ l) :
    (l ++ border :: x).dropWhile (· ≠ border) = border :: x := by
  rw [List.dropWhile_append_of_pos (not_border h), List.dropWhile_cons_of_neg (by simp)]

namespace Parse

/-- An attribute as it is printed -/
theorem attrText_print {name value : List Char} (hn : IsName name) (hv : '"' ∉ value) :
    attrText (name ++ '=' :: '"' :: (value ++ '"' :: rest)) = some (name, value, rest) := by
  have heq : xmlIsMarkChar '=' = false := by decide
  have hequal : skip ('=' :: '"' :: (value ++ '"' :: rest)) = '=' :: '"' :: (value ++ '"' :: rest) :=
    skip_cons (by decide)
  have hquote : skip ('"' :: (value ++ '"' :: rest)) = '"' :: (value ++ '"' :: rest) := skip_cons (by decide)
  rw [attrText, hn.skip, hn.dropWhile heq, hequal]
  simp only [hquote, true_or, if_true, dropWhile_border hv, takeWhile_border hv, hn.takeWhile heq]

/-- The attributes as they are printed -/
def attrsText (attrs : List (List Char × List Char)) : List Char :=
  (attrs.map fun a => ' ' :: (a.1 ++ '=' :: '"' :: (a.2 ++ ['"']))).flatten

/-- One turn of `xml_mark_get_attr` in the tree -/
def addAttr (top : Nat) (T : XmlTree) (a : List Char × List Char) : XmlTree :=
  ((T.xmlNodeCreat .attr).set T.num { (T.xmlNodeCreat .attr).mem T.num with
    name := a.1, value := some a.2 }).linkTail top T.num

/-- Behind the attributes, a mark goes on with a border that is no white space. -/
structure Follows (c : Char) : Prop where
  border : xmlIsMarkBorder c = true
  seen : xmlIsIgnoreChar c = false

theorem attrLoop_print (top : Nat) (hc : Follows c) : ∀ (attrs : List (List Char × List Char)) (a : List Char × List Char)
    (T : XmlTree) (fuel : Nat), (∀ b ∈ a :: attrs, IsName b.1 ∧ '"' ∉ b.2) → attrs.length < fuel →
    attrLoop top fuel T (a.1 ++ '=' :: '"' :: (a.2 ++ '"' :: (attrsText attrs ++ c :: x))) =
      some ((a :: attrs).foldl (addAttr top) T, c :: x)
  | [], a, T, fuel + 1, hall, _ => by
    obtain ⟨hn, hv⟩ := hall a (.head _)
    rw [attrLoop, attrText_print hn hv]
    simp only [attrsText, List.map_nil, List.flatten_nil, List.nil_append, skip_cons hc.seen, List.head?_cons,
      Option.any_some, border_not_mark hc.border, Bool.false_eq_true, if_false]
    rfl
  | b :: attrs, a, T, fuel + 1, hall, hfuel => by
    obtain ⟨hn, hv⟩ := hall a (.head _)
    have hall' : ∀ d ∈ b :: attrs, IsName d.1 ∧ '"' ∉ d.2 := fun d hd => hall d (.tail _ hd)
    obtain ⟨hbn, hbv⟩ := hall' b (.head _)
    have htext : attrsText (b :: attrs) ++ c :: x =
        [' '] ++ (b.1 ++ '=' :: '"' :: (b.2 ++ '"' :: (attrsText attrs ++ c :: x))) := by
      simp [attrsText]
    have hskip : skip (attrsText (b :: attrs) ++ c :: x) =
        b.1 ++ '=' :: '"' :: (b.2 ++ '"' :: (attrsText attrs ++ c :: x)) := by
      rw [htext, skip_append (by decide), hbn.skip]
    have hhead : (skip (attrsText (b :: attrs) ++ c :: x)).head?.any xmlIsMarkChar = true := by
      rw [hskip]
      obtain ⟨d, l', hd, hmark⟩ := hbn.cons
      rw [hd]
      exact hmark
    rw [attrLoop, attrText_print hn hv]
    dsimp only
    rw [if_pos hhead, hskip]
    exact attrLoop_print top hc attrs b _ fuel hall' (Nat.lt_of_succ_lt_succ hfuel)

/-- A value as it is printed -/
theorem valueText_print (h : IsText l) (hg : White g) : valueText (l ++ (g ++ '<' :: x)) = some (l, '<' :: x) := by
  obtain ⟨c, hc, hwhite, hq, hq'⟩ := h.first
  obtain ⟨l', rfl⟩ : ∃ l', l = c :: l' := by
    cases l with
    | nil => cases hc
    | cons d l' => exact ⟨l', by rw [Option.some.inj hc]⟩
  have hmem : '<' ∉ (c :: l') ++ g := by
    rw [List.mem_append]
    rintro (hl | hl)
    · exact h.plain hl
    · have hlt : xmlIsIgnoreChar '<' = false := by decide
      rw [hg _ hl] at hlt
      cases hlt
  rw [valueText, List.cons_append, skip_cons hwhite]
  have hsplit : c :: (l' ++ (g ++ '<' :: x)) = ((c :: l') ++ g) ++ '<' :: x := by simp
  simp only [if_neg (not_or.2 ⟨hq, hq'⟩), hsplit, dropWhile_border hmem, takeWhile_border hmem]
  have htrim : (((c :: l') ++ g).reverse.dropWhile xmlIsIgnoreChar).reverse = c :: l' := by
    have hg' : ∀ d ∈ g.reverse, xmlIsIgnoreChar d = true := fun d hd => hg d (List.mem_reverse.1 hd)
    rw [List.reverse_append, List.dropWhile_append_of_pos hg']
    rcases List.eq_nil_or_concat' (c :: l') with hnil | ⟨init, z, hz⟩
    · cases hnil
    · have hlast : xmlIsIgnoreChar z = false := h.last z (by rw [hz, List.getLast?_concat]; rfl)
      rw [hz, List.reverse_concat, List.dropWhile_cons_of_neg (by simp [hlast]), List.reverse_cons, List.reverse_reverse]
  rw [htrim]

/-! ## Marks -/

variable {T : XmlTree} {s : List Nat} {ptr y name : List Char} {attrs : List (List Char × List Char)}
  {value : Option (List Char)}

/-- `xml_mark_get_name` in the tree -/
def openMark (top : Nat) (T : XmlTree) (name : List Char) : XmlTree :=
  let node := T.num
  let T := (T.xmlNodeCreat .child).linkTail top node
  let T := T.set top { T.mem top with hasChild := true }
  T.set node { T.mem node with name := name }

/-- `xml_mark_get_attr` in the tree, where there are attributes -/
def addAttrs (node : Nat) (T : XmlTree) (attrs : List (List Char × List Char)) : XmlTree :=
  if attrs = [] then T
  else
    let T := attrs.foldl (addAttr node) T
    T.set node { T.mem node with hasAttr := true }

/-- `xml_mark_get_value` in the tree, where there is a value -/
def addValue (node : Nat) (T : XmlTree) : Option (List Char) → XmlTree
  | none => T
  | some value => T.set node { T.mem node with value := some value, hasValue := true }

/-- The tree behind a start tag and the value -/
def addMark (top : Nat) (T : XmlTree) (name : List Char) (attrs : List (List Char × List Char))
    (value : Option (List Char)) : XmlTree :=
  addValue T.num (addAttrs T.num (openMark top T name) attrs) value

theorem xmlMarkGetName_print (hn : IsName name) (hc : xmlIsMarkBorder c = true) (hs : s.length < XML_MAX_DEPTH) :
    xmlMarkGetName ⟨T, s, name ++ c :: x⟩ = some ⟨openMark (s.headD T.root) T name, T.num :: s, c :: x⟩ := by
  have hmark := border_not_mark hc
  unfold xmlMarkGetName
  simp only [hn.dropWhile hmark, hn.takeWhile hmark, hc, hs, and_self, if_true]
  rfl

theorem length_attrsText (attrs : List (List Char × List Char)) : attrs.length ≤ (attrsText attrs).length := by
  induction attrs with
  | nil => exact Nat.le_refl 0
  | cons a attrs ih =>
    simp only [attrsText, List.map_cons, List.flatten_cons, List.length_cons, List.length_append] at ih ⊢
    omega

/-- A start tag up to its border -/
theorem xmlParseMark_print (hn : IsName name) (ha : ∀ a ∈ attrs, IsName a.1 ∧ '"' ∉ a.2) (hc : Follows c)
    (hs : s.length < XML_MAX_DEPTH) : xmlParseMark ⟨T, s, '<' :: (name ++ (attrsText attrs ++ c :: x))⟩ =
      markRest ⟨addAttrs T.num (openMark (s.headD T.root) T name) attrs, T.num :: s, c :: x⟩ := by
  have hdrop : ('<' :: (name ++ (attrsText attrs ++ c :: x))).drop 1 = name ++ (attrsText attrs ++ c :: x) := rfl
  unfold xmlParseMark
  cases attrs with
  | nil =>
    have hno : xmlMarkHasAttr ⟨openMark (s.headD T.root) T name, T.num :: s, c :: x⟩ = false := by
      rw [xmlMarkHasAttr, skip_cons hc.seen]
      exact border_not_mark hc.border
    simp only [hdrop]
    rw [show attrsText [] ++ c :: x = c :: x from rfl, xmlMarkGetName_print hn hc.border hs]
    simp only [hno, Bool.false_eq_true, if_false, skip_cons hc.seen]
    rfl
  | cons a attrs =>
    have htext : attrsText (a :: attrs) ++ c :: x =
        ' ' :: (a.1 ++ '=' :: '"' :: (a.2 ++ '"' :: (attrsText attrs ++ c :: x))) := by
      simp [attrsText]
    obtain ⟨han, -⟩ := ha a (.head _)
    have hskip : skip (' ' :: (a.1 ++ '=' :: '"' :: (a.2 ++ '"' :: (attrsText attrs ++ c :: x)))) =
        a.1 ++ '=' :: '"' :: (a.2 ++ '"' :: (attrsText attrs ++ c :: x)) := by
      rw [← List.singleton_append, skip_append (by decide), han.skip]
    have hhas : xmlMarkHasAttr ⟨openMark (s.headD T.root) T name, T.num :: s,
        ' ' :: (a.1 ++ '=' :: '"' :: (a.2 ++ '"' :: (attrsText attrs ++ c :: x)))⟩ = true := by
      rw [xmlMarkHasAttr, hskip]
      obtain ⟨d, l', hd, hmark⟩ := han.cons
      rw [hd]
      exact hmark
    simp only [hdrop]
    rw [htext, xmlMarkGetName_print hn (by decide) hs]
    simp only [hhas, if_true, hskip, xmlMarkGetAttr]
    rw [attrLoop_print T.num hc attrs a _ _ ha (by
      have hlen := length_attrsText attrs
      simp only [List.length_append, List.length_cons]
      omega)]
    rfl

/-- The text that the parser takes a turn at -/
def Step (P P' : Parse) : Prop := turn { P with ptr := skip P.ptr } = some P'

theorem turn_mark (hn : IsName name) : turn ⟨T, s, '<' :: (name ++ x)⟩ = xmlParseMark ⟨T, s, '<' :: (name ++ x)⟩ := by
  obtain ⟨c, l', rfl, hc⟩ := hn.cons
  obtain ⟨-, -, hq, hb, hs, -⟩ := mark_plain hc
  unfold turn
  split <;> simp_all

/-- An element without a value and without children -/
theorem step_empty (hn : IsName name) (ha : ∀ a ∈ attrs, IsName a.1 ∧ '"' ∉ a.2) (hs : s.length < XML_MAX_DEPTH)
    (hptr : skip ptr = '<' :: (name ++ (attrsText attrs ++ '/' :: '>' :: x))) :
    Step ⟨T, s, ptr⟩ ⟨addMark (s.headD T.root) T name attrs none, s, x⟩ := by
  have hslash : skip ('/' :: '>' :: x) = '/' :: '>' :: x := skip_cons (by decide)
  rw [Step]
  simp only [hptr]
  rw [turn_mark hn, xmlParseMark_print hn ha ⟨by decide, by decide⟩ hs, markRest]
  simp only [hslash]
  rfl

/-- A start tag, and the value behind it if there is one -/
theorem step_open (hn : IsName name) (ha : ∀ a ∈ attrs, IsName a.1 ∧ '"' ∉ a.2) (hv : ∀ v ∈ value, IsText v)
    (hg : White g) (hs : s.length < XML_MAX_DEPTH)
    (hptr : skip ptr = '<' :: (name ++ (attrsText attrs ++ '>' :: (value.getD [] ++ (g ++ '<' :: y))))) :
    Step ⟨T, s, ptr⟩ ⟨addMark (s.headD T.root) T name attrs value, T.num :: s, '<' :: y⟩ := by
  have hgt : ∀ x, skip ('>' :: x) = '>' :: x := fun x => skip_cons (by decide)
  have hlt : skip (g ++ '<' :: y) = '<' :: y := by
    rw [skip_append hg]
    exact skip_cons (by decide)
  rw [Step]
  simp only [hptr]
  rw [turn_mark hn, xmlParseMark_print hn ha ⟨by decide, by decide⟩ hs, markRest]
  simp only [hgt]
  rw [if_neg (by simp)]
  cases value with
  | none =>
    simp only [Option.getD_none, List.nil_append, hlt, List.head?_cons, if_true]
    rfl
  | some v =>
    obtain ⟨c, hc, hwhite, -⟩ := (hv v rfl).first
    have hhead : (v ++ (g ++ '<' :: y)).head? = some c := by
      rw [List.head?_append, hc]
      rfl
    have hopen : c ≠ '<' := by
      rintro rfl
      exact (hv v rfl).plain (List.mem_of_mem_head? hc)
    have hskip : skip (v ++ (g ++ '<' :: y)) = v ++ (g ++ '<' :: y) := by
      obtain ⟨l', hl'⟩ : ∃ l', v ++ (g ++ '<' :: y) = c :: l' := by
        cases hvl : v ++ (g ++ '<' :: y) with
        | nil => simp at hvl
        | cons d l' =>
          rw [hvl] at hhead
          exact ⟨l', by rw [Option.some.inj hhead]⟩
      rw [hl']
      exact skip_cons hwhite
    simp only [Option.getD_some, hskip, hhead, Option.some.injEq, if_neg hopen, xmlMarkGetValue,
      valueText_print (hv v rfl) hg]
    rfl

/-- An end tag -/
theorem step_close {n : Nat} (hn : IsName name) (hname : (T.mem n).name = name)
    (hptr : skip ptr = '<' :: '/' :: (name ++ '>' :: x)) : Step ⟨T, n :: s, ptr⟩ ⟨T, s, x⟩ := by
  have hgt : xmlIsMarkChar '>' = false := by decide
  have hdrop : ('<' :: '/' :: (name ++ '>' :: x)).drop 2 = name ++ '>' :: x := rfl
  rw [Step]
  simp only [hptr, turn, xmlParseEnd, hdrop, hn.dropWhile hgt, hn.takeWhile hgt, hname, if_true]

/-- A step is a turn of the loop. -/
theorem loop_step {P P' : Parse} {total fuel : Nat} (h : Step P P') (htotal : total ≠ 0) :
    loop total total (fuel + 1) P = loop total total fuel P' := by
  rw [Step] at h
  have hskip : skip P.ptr ≠ [] := fun hnil => by
    rw [hnil] at h
    cases h
  have hptr : P.ptr ≠ [] := fun hnil => hskip (by rw [hnil]; rfl)
  have hpos := List.length_pos_iff.2 hptr
  rw [loop, if_neg (not_or.2 ⟨hptr, by omega⟩)]
  simp only [if_neg hskip, h]

theorem loop_reach {P P' : Parse} {total fuel : Nat} (h : Relation.ReflTransGen Step P P') (htotal : total ≠ 0)
    (hfuel : P.ptr.length < fuel) :
    ∃ fuel', P'.ptr.length < fuel' ∧ loop total total fuel P = loop total total fuel' P' := by
  induction h using Relation.ReflTransGen.head_induction_on generalizing fuel with
  | refl => exact ⟨fuel, hfuel, rfl⟩
  | @head P Q hstep _ ih =>
    have hlt := turn_lt hstep
    have hle := length_skip P.ptr
    obtain ⟨fuel, rfl⟩ : ∃ m, fuel = m + 1 := ⟨fuel - 1, by omega⟩
    dsimp only at hlt
    obtain ⟨fuel', hfuel', hloop⟩ := @ih fuel (by omega)
    exact ⟨fuel', hfuel', (loop_step hstep htotal).trans hloop⟩

theorem loop_end {P : Parse} {total fuel : Nat} (hptr : skip P.ptr = []) (hs : P.stack = []) :
    loop total total (fuel + 1) P = some P.xml := by
  rw [loop]
  simp only [hptr, hs, if_true, ite_self]

end Parse

/-! ## What reading leaves -/

namespace XmlTree

open Parse

variable {T T' T₁ T₂ : XmlTree} {n top : Nat} {l l' a : List Nat} {node : Node} {flag : Bool} {name : List Char}
  {attrs : List (List Char × List Char)} {value : Option (List Char)}

theorem Lists.links (h : Lists T n l) (hchild : (T'.mem n).child = (T.mem n).child) (htail : (T'.mem n).tail = (T.mem n).tail)
    (hl : ∀ k ∈ l, (T'.mem k).next = (T.mem k).next ∧ (T'.mem k).parent = (T.mem k).parent) : Lists T' n l where
  chain := by
    rw [hchild]
    exact h.chain.congr fun k hk => (hl k hk).1
  tail := by rw [htail, h.tail]
  parent k hk := by rw [(hl k hk).2, h.parent k hk]

/-- The nodes of `l` are in the list of `top`; there may be more, and nothing else of the
old nodes has changed. -/
structure Extends (T T' : XmlTree) (top : Nat) (l : List Nat) : Prop where
  root : T'.root = T.root
  freed : T'.freed = T.freed
  num : T.num ≤ T'.num
  other : ∀ m < T.num, m ≠ top → m ∉ l → T'.mem m = T.mem m
  kid : ∀ m ∈ l, T'.mem m = { T.mem m with next := (T'.mem m).next }
  self : T'.mem top = { T.mem top with
    child := (T'.mem top).child, tail := (T'.mem top).tail, hasChild := (T'.mem top).hasChild }

/-- From node `n` on, anything may have changed but the place of `n`. -/
structure Inside (n : Nat) (T T' : XmlTree) : Prop where
  root : T'.root = T.root
  freed : T'.freed = T.freed
  num : T.num ≤ T'.num
  below : ∀ m < n, T'.mem m = T.mem m
  self : (T'.mem n).next = (T.mem n).next ∧ (T'.mem n).parent = (T.mem n).parent ∧ (T'.mem n).type = (T.mem n).type

theorem Inside.trans (h : Inside n T T₁) (h' : Inside n T₁ T₂) : Inside n T T₂ where
  root := h'.root.trans h.root
  freed := h'.freed.trans h.freed
  num := Nat.le_trans h.num h'.num
  below m hm := (h'.below m hm).trans (h.below m hm)
  self := ⟨h'.self.1.trans h.self.1, h'.self.2.1.trans h.self.2.1, h'.self.2.2.trans h.self.2.2⟩

theorem inside_set (hnext : node.next = (T.mem n).next) (hparent : node.parent = (T.mem n).parent)
    (htype : node.type = (T.mem n).type) : Inside n T (T.set n node) where
  root := rfl
  freed := rfl
  num := Nat.le_refl _
  below m hm := by simp [Nat.ne_of_lt hm]
  self := by simp [hnext, hparent, htype]

namespace Extends

theorem refl (T : XmlTree) (top : Nat) (l : List Nat) : Extends T T top l :=
  ⟨rfl, rfl, Nat.le_refl _, fun _ _ _ _ => rfl, fun _ _ => rfl, rfl⟩

/-- What comes later comes behind nodes that are new. -/
theorem trans (h : Extends T T₁ top l) (h' : Extends T₁ T₂ top (l ++ l')) (hnew : ∀ m ∈ l', T.num ≤ m) :
    Extends T T₂ top l where
  root := h'.root.trans h.root
  freed := h'.freed.trans h.freed
  num := Nat.le_trans h.num h'.num
  other m hm hne hml := by
    have hml' : m ∉ l' := fun hin => Nat.not_lt.2 (hnew m hin) hm
    rw [h'.other m (Nat.lt_of_lt_of_le hm h.num) hne (by simp [hml, hml']), h.other m hm hne hml]
  kid m hm := by rw [h'.kid m (List.mem_append_left _ hm), h.kid m hm]
  self := by rw [h'.self, h.self]

/-- What comes later is below a new node. -/
theorem inside (h : Extends T T₁ top l) (h' : Inside T.num T₁ T₂) (htop : top < T.num) (hl : ∀ m ∈ l, m < T.num) :
    Extends T T₂ top l where
  root := h'.root.trans h.root
  freed := h'.freed.trans h.freed
  num := Nat.le_trans h.num h'.num
  other m hm hne hml := by rw [h'.below m hm, h.other m hm hne hml]
  kid m hm := by rw [h'.below m (hl m hm), h.kid m hm]
  self := by rw [h'.below top htop, h.self]

theorem toInside (h : Extends T T' n l) (hn : n < T.num) (hl : ∀ m ∈ l, n < m) : Inside n T T' where
  root := h.root
  freed := h.freed
  num := h.num
  below m hm := h.other m (Nat.lt_trans hm hn) (Nat.ne_of_lt hm) fun hin => Nat.not_lt.2 (Nat.le_of_lt hm) (hl m hin)
  self := by
    rw [h.self]
    exact ⟨rfl, rfl, rfl⟩

end Extends

/-- `node` is a new node, at the end of the list of `top`. -/
structure Linked (T T' : XmlTree) (top : Nat) (node : Node) (flag : Bool) : Prop where
  root : T'.root = T.root
  freed : T'.freed = T.freed
  num : T'.num = T.num + 1
  mem : ∀ m, T'.mem m =
    if m = top then { T.mem top with
      child := if (T.mem top).tail = none then some T.num else (T.mem top).child, tail := some T.num, hasChild := flag }
    else if m = T.num then node
    else if (T.mem top).tail = some m then { T.mem m with next := some T.num }
    else T.mem m

/-- A list to which a node can be added -/
structure Place (T : XmlTree) (top : Nat) (l : List Nat) : Prop extends Lists T top l where
  top_lt : top < T.num
  lt : ∀ k ∈ l, k < T.num
  not_mem : top ∉ l

theorem Place.tail_lt (h : Place T top l) {t : Nat} (ht : (T.mem top).tail = some t) : t ≠ top ∧ t < T.num :=
  ⟨fun heq => h.not_mem (heq ▸ h.tail_mem ht), h.lt t (h.tail_mem ht)⟩

@[simp] theorem linkTail_freed (T : XmlTree) (n new : Nat) : (T.linkTail n new).freed = T.freed := by
  unfold linkTail
  simp only
  split <;> rfl

/-- A node that has just been created is linked. -/
theorem linkTail_linked (T₁ : XmlTree) (hp : Place T top l) (hroot : T₁.root = T.root) (hfreed : T₁.freed = T.freed)
    (hnum : T₁.num = T.num + 1) (hold : ∀ m, m ≠ T.num → T₁.mem m = T.mem m) :
    Linked T (T₁.linkTail top T.num) top { T₁.mem T.num with parent := some top } (T.mem top).hasChild := by
  have hne : T.num ≠ top := (Nat.ne_of_lt hp.top_lt).symm
  have hmem := linkTail_mem T₁ hne fun t ht => by
    rw [hold top hne.symm] at ht
    exact ⟨(hp.tail_lt ht).1, Nat.ne_of_lt (hp.tail_lt ht).2⟩
  refine ⟨by simp [hroot], by simp [hfreed], by simp [hnum], fun m => ?_⟩
  rw [hmem, hold top hne.symm]
  by_cases hmn : m = T.num
  · simp [hmn]
  · rw [hold m hmn]

theorem Linked.setFlag (h : Linked T T' top node flag) : Linked T
    (T'.set top { T'.mem top with hasChild := true }) top node true where
  root := h.root
  freed := h.freed
  num := h.num
  mem m := by
    by_cases hm : m = top
    · subst hm
      simp [h.mem]
    · rw [set_mem, Function.update_of_ne hm, h.mem]
      simp only [if_neg hm]

theorem Linked.setNode (h : Linked T T' top node flag) (hp : Place T top l) (node' : Node) :
    Linked T (T'.set T.num node') top node' flag where
  root := h.root
  freed := h.freed
  num := h.num
  mem m := by
    by_cases hm : m = T.num
    · subst hm
      simp [(Nat.ne_of_lt hp.top_lt).symm]
    · rw [set_mem, Function.update_of_ne hm, h.mem]
      simp only [if_neg hm]

theorem Linked.new (h : Linked T T' top node flag) (hp : Place T top l) : T'.mem T.num = node := by
  rw [h.mem, if_neg (Nat.ne_of_lt hp.top_lt).symm, if_pos rfl]

/-- A new element, which has a name only -/
theorem openMark_linked (hp : Place T top l) (name : List Char) :
    Linked T (openMark top T name) top { xmlNodeInit .child with name := name, parent := some top } true := by
  have hlink := (linkTail_linked (T.xmlNodeCreat .child) hp rfl rfl rfl fun m hm => by
    simp [xmlNodeCreat, hm]).setFlag
  have hset := hlink.setNode hp { xmlNodeInit .child with name := name, parent := some top }
  have hnode := hlink.new hp
  simp only [xmlNodeCreat, set_mem, Function.update_self] at hnode
  convert hset using 1
  unfold openMark
  dsimp only
  congr 1
  exact congrArg (fun node : Node => { node with name := name }) hnode

/-- A new attribute -/
theorem addAttr_linked (hp : Place T top l) (b : List Char × List Char) : Linked T (addAttr top T b) top
    { xmlNodeInit .attr with name := b.1, value := some b.2, parent := some top } (T.mem top).hasChild := by
  have hlink := linkTail_linked ((T.xmlNodeCreat .attr).set T.num { (T.xmlNodeCreat .attr).mem T.num with
    name := b.1, value := some b.2 }) hp rfl rfl rfl fun m hm => by simp [xmlNodeCreat, hm]
  simpa [addAttr, xmlNodeCreat] using hlink

theorem Linked.extends (h : Linked T T' top node flag) (hp : Place T top l) : Extends T T' top l where
  root := h.root
  freed := h.freed
  num := by
    rw [h.num]
    exact Nat.le_succ _
  other m hm hne hml := by
    have htail : (T.mem top).tail ≠ some m := fun ht => hml (hp.tail_mem ht)
    rw [h.mem, if_neg hne, if_neg (Nat.ne_of_lt hm), if_neg htail]
  kid m hm := by
    have hne : m ≠ top := fun heq => hp.not_mem (heq ▸ hm)
    rw [h.mem, if_neg hne, if_neg (Nat.ne_of_lt (hp.lt m hm))]
    split <;> rfl
  self := by
    rw [h.mem, if_pos rfl]

theorem Linked.place (h : Linked T T' top node flag) (hp : Place T top l) (hnext : node.next = none)
    (hparent : node.parent = some top) : Place T' top (l ++ [T.num]) := by
  have hne : T.num ≠ top := (Nat.ne_of_lt hp.top_lt).symm
  have hnew : T.num ∉ l := fun hin => Nat.lt_irrefl _ (hp.lt _ hin)
  have hcreat : ∀ m, m ≠ T.num → (T.xmlNodeCreat .child).mem m = T.mem m := fun m hm => by simp [xmlNodeCreat, hm]
  -- the links are those of a node that has nothing
  have hlink := linkTail_linked (T.xmlNodeCreat .child) hp rfl rfl rfl hcreat
  have hlists := (hp.toLists.congr (hcreat top hne.symm) fun k hk =>
    hcreat k fun heq => hnew (heq ▸ hk)).linkTail hp.not_mem hne hnew (by simp [xmlNodeCreat, xmlNodeInit])
  refine ⟨hlists.links ?_ ?_ fun k hk => ?_, ?_, fun k hk => ?_, fun hin => ?_⟩
  · rw [h.mem, if_pos rfl, hlink.mem, if_pos rfl]
  · rw [h.mem, if_pos rfl, hlink.mem, if_pos rfl]
  · rcases List.mem_append.1 hk with hk | hk
    · have hkt : k ≠ top := fun heq => hp.not_mem (heq ▸ hk)
      have hkn : k ≠ T.num := fun heq => hnew (heq ▸ hk)
      rw [h.mem, hlink.mem, if_neg hkt, if_neg hkt, if_neg hkn, if_neg hkn]
      exact ⟨rfl, rfl⟩
    · rw [List.mem_singleton.1 hk, h.new hp, hlink.new hp]
      simp [hnext, hparent, xmlNodeCreat, xmlNodeInit]
  · rw [h.num]
    exact Nat.lt_succ_of_lt hp.top_lt
  · rw [h.num]
    rcases List.mem_append.1 hk with hk | hk
    · exact Nat.lt_succ_of_lt (hp.lt k hk)
    · rw [List.mem_singleton.1 hk]
      exact Nat.lt_succ_self _
  · rcases List.mem_append.1 hin with hin | hin
    · exact hp.not_mem hin
    · exact hne (List.mem_singleton.1 hin).symm

/-- Attributes have come into the list of `top`. -/
theorem addAttrs_fold (hp : Place T top l) (attrs : List (List Char × List Char)) : ∃ a,
    Extends T (attrs.foldl (addAttr top) T) top l ∧ Place (attrs.foldl (addAttr top) T) top (l ++ a) ∧
    (∀ x ∈ a, T.num ≤ x) ∧ (∀ x ∈ a, ((attrs.foldl (addAttr top) T).mem x).type = .attr) ∧
    ((attrs.foldl (addAttr top) T).mem top).hasChild = (T.mem top).hasChild ∧
    a.map (fun x => (((attrs.foldl (addAttr top) T).mem x).name, ((attrs.foldl (addAttr top) T).mem x).value.getD [])) =
      attrs := by
  induction attrs generalizing T l with
  | nil => exact ⟨[], .refl T top l, by simpa using hp, by simp, by simp, rfl, rfl⟩
  | cons b attrs ih =>
    have hlink := addAttr_linked hp b
    obtain ⟨a, hext, hplace, hnew, htype, hchild, hattrs⟩ := ih (hlink.place hp rfl rfl)
    have hext' := (hlink.extends hp).trans hext (by simp)
    have hnode : ((attrs.foldl (addAttr top) (addAttr top T b)).mem T.num) = { xmlNodeInit .attr with
        name := b.1, value := some b.2, parent := some top,
        next := ((attrs.foldl (addAttr top) (addAttr top T b)).mem T.num).next } := by
      conv_lhs => rw [hext.kid T.num (by simp), hlink.new hp]
    refine ⟨T.num :: a, hext', by simpa using hplace, ?_, ?_, ?_, ?_⟩
    · rw [List.forall_mem_cons]
      refine ⟨Nat.le_refl _, fun x hx => ?_⟩
      have hle := hnew x hx
      rw [hlink.num] at hle
      exact Nat.le_of_succ_le hle
    · rw [List.forall_mem_cons, List.foldl_cons]
      exact ⟨by rw [hnode]; rfl, htype⟩
    · rw [List.foldl_cons, hchild, hlink.mem, if_pos rfl]
    · rw [List.map_cons, List.foldl_cons, hattrs, hnode]
      rfl

theorem addMark_eq (hattr : ((attrs.foldl (addAttr n) T).mem n).hasAttr = false)
    (hvalue : ((attrs.foldl (addAttr n) T).mem n).value = none)
    (hflag : ((attrs.foldl (addAttr n) T).mem n).hasValue = false) :
    addValue n (addAttrs n T attrs) value = (attrs.foldl (addAttr n) T).set n
      { (attrs.foldl (addAttr n) T).mem n with
        value := value, hasAttr := decide (attrs ≠ []), hasValue := value.isSome } := by
  have hattrs : addAttrs n T attrs = (attrs.foldl (addAttr n) T).set n
      { (attrs.foldl (addAttr n) T).mem n with hasAttr := decide (attrs ≠ []) } := by
    unfold addAttrs
    split
    · rename_i hnil
      subst hnil
      rw [List.foldl_nil] at hattr ⊢
      have hsame : { T.mem n with hasAttr := decide (([] : List (List Char × List Char)) ≠ []) } = T.mem n := by
        simp [← hattr]
      rw [hsame, XmlTree.set, Function.update_eq_self]
    · rename_i hne
      simp [hne]
  rw [hattrs]
  generalize attrs.foldl (addAttr n) T = T₁ at hvalue hflag ⊢
  cases value with
  | none =>
    rw [addValue]
    congr 1
    simp [hvalue, hflag]
  | some v => simp [addValue, XmlTree.set]

theorem Place.inside (hp : Place T top (l ++ [n])) (h : Inside n T T') (htop : top < n) (hl : ∀ k ∈ l, k < n) :
    Place T' top (l ++ [n]) := by
  refine ⟨hp.toLists.links ?_ ?_ fun k hk => ?_, Nat.lt_of_lt_of_le hp.top_lt h.num,
    fun k hk => Nat.lt_of_lt_of_le (hp.lt k hk) h.num, hp.not_mem⟩
  · rw [h.below top htop]
  · rw [h.below top htop]
  · rcases List.mem_append.1 hk with hk | hk
    · rw [h.below k (hl k hk)]
      exact ⟨rfl, rfl⟩
    · rw [List.mem_singleton.1 hk]
      exact ⟨h.self.1, h.self.2.1⟩

/-- A new element with its attributes and its value, in which there is nothing yet;
`a` are the attributes. -/
structure Marked (T T' : XmlTree) (top : Nat) (l a : List Nat) (name : List Char)
    (attrs : List (List Char × List Char)) (value : Option (List Char)) : Prop where
  ext : Extends T T' top l
  flag : (T'.mem top).hasChild = true
  place : Place T' top (l ++ [T.num])
  own : Place T' T.num a
  new : ∀ x ∈ a, T.num < x
  type : ∀ x ∈ a, (T'.mem x).type = .attr
  node_type : (T'.mem T.num).type = .child
  hasAttr : (T'.mem T.num).hasAttr = true ↔ a ≠ []
  hasChild : (T'.mem T.num).hasChild = false
  name_eq : (T'.mem T.num).name = name
  text_eq : (T'.mem T.num).text = value
  attrs_eq : a.map (fun x => ((T'.mem x).name, (T'.mem x).value.getD [])) = attrs

theorem addMark_marked (hp : Place T top l) (name : List Char) (attrs : List (List Char × List Char))
    (value : Option (List Char)) : ∃ a, Marked T (addMark top T name attrs value) top l a name attrs value := by
  have hopen := openMark_linked hp name
  have hplace := hopen.place hp rfl rfl
  generalize hT₁ : openMark top T name = T₁ at hopen hplace
  have hnode := hopen.new hp
  have hlt : T.num < T₁.num := by
    rw [hopen.num]
    exact Nat.lt_succ_self _
  have hown : Place T₁ T.num [] := by
    refine ⟨⟨?_, ?_, by simp⟩, hlt, by simp, List.not_mem_nil⟩
    · rw [hnode]
      rfl
    · rw [hnode]
      rfl
  obtain ⟨a, hext, hplace₂, hnew, htype, hchild, hattrs⟩ := addAttrs_fold hown attrs
  have hself := hext.self
  simp only [hnode] at hself
  refine ⟨a, ?_⟩
  rw [addMark, hT₁, addMark_eq (by rw [hself]; rfl) (by rw [hself]; rfl) (by rw [hself]; rfl)]
  generalize attrs.foldl (addAttr T.num) T₁ = T₂ at hext hplace₂ htype hchild hattrs hself
  have hgt : ∀ x ∈ a, T.num < x := fun x hx => Nat.lt_of_lt_of_le hlt (hnew x hx)
  have hne : ∀ x ∈ a, x ≠ T.num := fun x hx => (Nat.ne_of_lt (hgt x hx)).symm
  have hinside : Inside T.num T₁ (T₂.set T.num { T₂.mem T.num with
      value := value, hasAttr := decide (attrs ≠ []), hasValue := value.isSome }) :=
    (hext.toInside hlt fun _ hx => by cases hx).trans (inside_set rfl rfl rfl)
  refine ⟨(hopen.extends hp).inside hinside hp.top_lt hp.lt, ?_, hplace.inside hinside hp.top_lt hp.lt, ?_, hgt, ?_, ?_, ?_,
    ?_, ?_, ?_, ?_⟩
  · rw [hinside.below top hp.top_lt, hopen.mem, if_pos rfl]
  · refine ⟨hplace₂.toLists.set hplace₂.not_mem rfl rfl, hplace₂.top_lt, hplace₂.lt, hplace₂.not_mem⟩
  · intro x hx
    simpa [hne x hx] using htype x hx
  · rw [set_mem, Function.update_self, hself]
    rfl
  · rw [set_mem, Function.update_self, ← hattrs]
    simp
  · rw [set_mem, Function.update_self, hchild, hnode]
    rfl
  · rw [set_mem, Function.update_self, hself]
  · cases value <;> simp [Node.text]
  · rw [← hattrs]
    exact List.map_congr_left fun x hx => by simp [hne x hx]

open Forest

variable {f k rest : Forest} {d : Doc}

theorem doc_congr {mem mem' : Nat → Node} : ∀ {f : Forest},
    (∀ x ∈ f.addrs, mem' x = { mem x with next := (mem' x).next }) → f.doc mem' = f.doc mem
  | .nil, _ => rfl
  | .cons n a k rest, h => by
    simp only [addrs, List.forall_mem_cons, List.forall_mem_append] at h
    obtain ⟨hn, ⟨ha, hk⟩, hrest⟩ := h
    rw [Forest.doc, Forest.doc, doc_congr hk, doc_congr hrest, hn]
    congr 1
    exact List.map_congr_left fun x hx => by rw [ha x hx]

/-- The elements `f` have come to the end of the list of `top`; they are the document `d`. -/
structure Grew (T T' : XmlTree) (top : Nat) (l : List Nat) (f : Forest) (d : Doc) : Prop where
  ext : Extends T T' top l
  place : Place T' top (l ++ f.roots)
  flag : (T'.mem top).hasChild = ((T.mem top).hasChild || !f.roots.isEmpty)
  draws : Draws T'.mem f
  nodup : f.addrs.Nodup
  new : ∀ x ∈ f.addrs, T.num ≤ x ∧ x < T'.num
  type : ∀ x ∈ f.roots, (T'.mem x).type = .child
  doc : f.doc T'.mem = d

theorem Grew.nil (hp : Place T top l) : Grew T T top l .nil .nil where
  ext := .refl T top l
  place := by simpa [roots] using hp
  flag := by simp [roots]
  draws := trivial
  nodup := List.nodup_nil
  new x hx := by cases hx
  type x hx := by cases hx
  doc := rfl

/-- An element, and then what is in it -/
theorem Grew.element (hp : Place T top l) (hm : Marked T T₁ top l a name attrs value) (hk : Grew T₁ T₂ T.num a k d) :
    Grew T T₂ top l (.cons T.num a k .nil) (.node name attrs value d .nil) := by
  have hlt := hm.own.top_lt
  have hinside := hk.ext.toInside hlt hm.new
  have hself := hk.ext.self
  have hattr : ∀ x ∈ a, (T₂.mem x).name = (T₁.mem x).name ∧ (T₂.mem x).value = (T₁.mem x).value ∧
      (T₂.mem x).type = (T₁.mem x).type := fun x hx => by
    rw [hk.ext.kid x hx]
    exact ⟨rfl, rfl, rfl⟩
  have hbig : ∀ x ∈ k.addrs, T.num < x := fun x hx => Nat.lt_of_lt_of_le hlt (hk.new x hx).1
  refine ⟨hm.ext.inside hinside hp.top_lt hp.lt, hm.place.inside hinside hp.top_lt hp.lt, ?_, ⟨⟨hk.place.chain,
    fun x hx => ?_, fun x hx => ⟨hk.type x hx, hk.place.parent x (List.mem_append_right _ hx)⟩, ?_, ?_⟩, hk.draws, trivial⟩,
    ?_, ?_, ?_, ?_⟩
  · rw [hinside.below top hp.top_lt, hm.flag]
    simp [roots]
  · rw [(hattr x hx).2.2]
    exact hm.type x hx
  · rw [hself]
    exact hm.hasAttr
  · rw [hk.flag, hm.hasChild]
    simp
  · simp only [addrs, List.append_nil, List.nodup_cons, List.nodup_append, List.mem_append, not_or]
    refine ⟨⟨fun hin => Nat.lt_irrefl _ (hm.new _ hin), fun hin => Nat.lt_irrefl _ (hbig _ hin)⟩,
      (List.nodup_append.1 hk.place.chain.nodup).1, hk.nodup, ?_⟩
    rintro x hx y hy rfl
    exact absurd (hm.own.lt x hx) (Nat.not_lt.2 (hk.new x hy).1)
  · simp only [addrs, List.append_nil, List.forall_mem_cons, List.forall_mem_append]
    refine ⟨⟨Nat.le_refl _, Nat.lt_of_lt_of_le hlt hk.ext.num⟩, fun x hx => ⟨Nat.le_of_lt (hm.new x hx), ?_⟩,
      fun x hx => ⟨Nat.le_of_lt (hbig x hx), (hk.new x hx).2⟩⟩
    exact Nat.lt_of_lt_of_le (hm.own.lt x hx) hk.ext.num
  · intro x hx
    rw [List.mem_singleton.1 hx, hinside.self.2.2]
    exact hm.node_type
  · have hattrs : a.map (fun x => ((T₂.mem x).name, (T₂.mem x).value.getD [])) = attrs := by
      rw [← hm.attrs_eq]
      exact List.map_congr_left fun x hx => by rw [(hattr x hx).1, (hattr x hx).2.1]
    rw [Forest.doc, hk.doc, hattrs, hself]
    simp only [Forest.doc, hm.name_eq, Node.text]
    rw [← hm.text_eq]
    rfl

/-- An element, and then the others -/
theorem Grew.append (hp : Place T top l) (h : Grew T T₁ top l (.cons n a k .nil) (.node name attrs value d .nil))
    {d' : Doc} (h' : Grew T₁ T₂ top (l ++ [n]) rest d') :
    Grew T T₂ top l (.cons n a k rest) (.node name attrs value d d') := by
  have hnew := h.new
  simp only [addrs, List.append_nil, List.forall_mem_cons] at hnew
  have hnd := h.nodup
  simp only [addrs, List.append_nil, List.nodup_cons] at hnd
  have hroot : T₂.mem n = { T₁.mem n with next := (T₂.mem n).next } := h'.ext.kid n (by simp)
  have hbelow : ∀ x ∈ a ++ k.addrs, T₂.mem x = T₁.mem x := fun x hx => by
    have hx' := hnew.2 x hx
    refine h'.ext.other x hx'.2 (Nat.ne_of_gt (Nat.lt_of_lt_of_le hp.top_lt hx'.1)) ?_
    rw [List.mem_append, List.mem_singleton]
    rintro (hin | rfl)
    · exact absurd (hp.lt x hin) (Nat.not_lt.2 hx'.1)
    · exact hnd.1 hx
  have hdraws : Draws T₂.mem (.cons n a k .nil) := h.draws.congr (by simpa [roots] using hroot) (by
    simpa [under] using hbelow)
  refine ⟨h.ext.trans h'.ext (by simpa using hnew.1.1), ?_, ?_, ⟨hdraws.1, hdraws.2.1, h'.draws⟩, ?_, ?_, ?_, ?_⟩
  · have hplace := h'.place
    rwa [List.append_assoc] at hplace
  · rw [h'.flag, h.flag]
    simp [roots]
  · have haddrs : (cons n a k rest).addrs = (n :: (a ++ k.addrs)) ++ rest.addrs := by simp [addrs]
    rw [haddrs, List.nodup_append]
    refine ⟨List.nodup_cons.2 hnd, h'.nodup, ?_⟩
    rintro x hx y hy rfl
    rcases List.mem_cons.1 hx with rfl | hx
    · exact absurd hnew.1.2 (Nat.not_lt.2 (h'.new x hy).1)
    · exact absurd (hnew.2 x hx).2 (Nat.not_lt.2 (h'.new x hy).1)
  · intro x hx
    simp only [addrs, List.mem_cons, List.mem_append] at hx
    have hold : T.num ≤ x ∧ x < T₁.num → T.num ≤ x ∧ x < T₂.num := fun hx =>
      ⟨hx.1, Nat.lt_of_lt_of_le hx.2 h'.ext.num⟩
    rcases hx with rfl | hx | hx
    · exact hold hnew.1
    · exact hold (hnew.2 x (List.mem_append.2 hx))
    · exact ⟨Nat.le_trans h.ext.num (h'.new x hx).1, (h'.new x hx).2⟩
  · simp only [roots, List.forall_mem_cons]
    refine ⟨?_, h'.type⟩
    rw [hroot]
    exact h.type n (by simp [roots])
  · have hdoc : (Forest.cons n a k .nil).doc T₂.mem = (Forest.cons n a k .nil).doc T₁.mem := doc_congr (by
      simp only [addrs, List.append_nil, List.forall_mem_cons]
      exact ⟨hroot, fun x hx => by rw [hbelow x hx]⟩)
    rw [h.doc, Forest.doc] at hdoc
    obtain ⟨hname, hattrs, hvalue, hkids, -⟩ := Doc.node.inj hdoc
    rw [Forest.doc, h'.doc, hname, hattrs, hvalue, hkids]

/-! ## Documents -/

/-- White space, and then a tag -/
def Tagged (x : List Char) : Prop := ∃ g y, White g ∧ x = g ++ '<' :: y

variable {indent : Nat → List Char} {eol x ptr tail : List Char} {s : List Nat}

/-- The text of an element: it ends at once, or its value, what is in it and its end tag follow. -/
theorem print_element (name : List Char) (attrs : List (List Char × List Char)) (value : Option (List Char))
    (kids rest : Doc) (depth : Nat) (tail : List Char) :
    ((Doc.node name attrs value kids rest).print (layoutForm indent eol) depth).flatten ++ tail =
      indent depth ++ '<' :: (name ++ (attrsText attrs ++
        if value = none ∧ kids = .nil then
          '/' :: '>' :: (eol ++ ((rest.print (layoutForm indent eol) depth).flatten ++ tail))
        else
          '>' :: (value.getD [] ++ ((if kids = .nil then [] else eol) ++
            ((kids.print (layoutForm indent eol) (depth + 1)).flatten ++ ((if kids = .nil then [] else indent depth) ++
              '<' :: '/' :: (name ++ '>' :: (eol ++ ((rest.print (layoutForm indent eol) depth).flatten ++ tail))))))))) := by
  cases value <;> cases kids <;>
    simp [Doc.print, Doc.isNil, layoutForm, attrsText]

theorem tagged_print (hi : ∀ n, White (indent n)) (d : Doc) (depth : Nat) (hx : Tagged x) :
    Tagged ((d.print (layoutForm indent eol) depth).flatten ++ x) := by
  cases d with
  | nil => exact hx
  | node name attrs value kids rest => exact ⟨indent depth, _, hi depth, print_element name attrs value kids rest depth x⟩

theorem reads (hi : ∀ n, White (indent n)) (he : White eol) {d : Doc} {depth : Nat} (hd : d.Fine)
    (hp : Place T (s.headD T.root) l) (hs : s.length + d.height ≤ XML_MAX_DEPTH)
    (hptr : skip ptr = skip ((d.print (layoutForm indent eol) depth).flatten ++ tail)) :
    ∃ T' f ptr', Relation.ReflTransGen Step ⟨T, s, ptr⟩ ⟨T', s, ptr'⟩ ∧ skip ptr' = skip tail ∧
      Grew T T' (s.headD T.root) l f d := by
  induction d generalizing T s l depth ptr tail with
  | nil => exact ⟨T, .nil, ptr, .refl, hptr, .nil hp⟩
  | node name attrs value kids rest ihk ih =>
    obtain ⟨hname, hattrs, hvalue, hkids, hrest⟩ := hd
    rw [Doc.height] at hs
    rw [print_element, skip_append (hi depth), skip_cons (by decide)] at hptr
    obtain ⟨a, hm⟩ := addMark_marked hp name attrs value
    have hroom : s.length < XML_MAX_DEPTH := by omega
    -- the element itself
    obtain ⟨T₂, k, ptr₂, hsteps, hptr₂, hgrew⟩ : ∃ T₂ k ptr₂, Relation.ReflTransGen Step ⟨T, s, ptr⟩ ⟨T₂, s, ptr₂⟩ ∧
        skip ptr₂ = skip ((rest.print (layoutForm indent eol) depth).flatten ++ tail) ∧
        Grew T T₂ (s.headD T.root) l (.cons T.num a k .nil) (.node name attrs value kids .nil) := by
      by_cases hempty : value = none ∧ kids = .nil
      · rw [if_pos hempty] at hptr
        obtain ⟨rfl, rfl⟩ := hempty
        exact ⟨_, .nil, _, .single (step_empty hname hattrs hroom hptr), skip_append he,
          .element hp hm (.nil hm.own)⟩
      · rw [if_neg hempty] at hptr
        have hg : White (if kids = .nil then [] else eol) := by
          split
          · exact fun c hc => by cases hc
          · exact he
        have hi' : White (if kids = .nil then [] else indent depth) := by
          split
          · exact fun c hc => by cases hc
          · exact hi depth
        generalize (if kids = .nil then [] else eol) = g at hptr hg
        generalize (if kids = .nil then [] else indent depth) = i at hptr hi'
        generalize hz : eol ++ ((rest.print (layoutForm indent eol) depth).flatten ++ tail) = z at hptr
        -- what is behind the value begins with a tag
        have htag : Tagged ((kids.print (layoutForm indent eol) (depth + 1)).flatten ++
            (i ++ '<' :: '/' :: (name ++ '>' :: z))) := tagged_print hi kids _ ⟨i, _, hi', rfl⟩
        obtain ⟨g', y, hg', hy⟩ := htag
        rw [hy, ← List.append_assoc g] at hptr
        have hopen := step_open (T := T) hname hattrs hvalue (hg.append hg') hroom hptr
        have hskip : skip ('<' :: y) = skip ((kids.print (layoutForm indent eol) (depth + 1)).flatten ++
            (i ++ '<' :: '/' :: (name ++ '>' :: z))) := by rw [hy, skip_append hg']
        obtain ⟨T₂, k, ptr₂, hsteps, hptr₂, hgrew⟩ := ihk (s := T.num :: s) hkids hm.own
          (by
            rw [List.length_cons]
            omega) hskip
        rw [List.headD_cons] at hgrew
        have hend : (T₂.mem T.num).name = name := by
          rw [hgrew.ext.self]
          exact hm.name_eq
        have hclose := step_close (s := s) hname hend (hptr₂.trans ((skip_append hi').trans (skip_cons (by decide))))
        exact ⟨T₂, k, z, (hsteps.head hopen).tail hclose, by rw [← hz, skip_append he], .element hp hm hgrew⟩
    -- the others
    have hplace : Place T₂ (s.headD T₂.root) (l ++ [T.num]) := by
      rw [hgrew.ext.root]
      exact hgrew.place
    obtain ⟨T₃, f, ptr₃, hsteps₃, hptr₃, hgrew₃⟩ := ih hrest hplace (by omega) hptr₂
    rw [hgrew.ext.root] at hgrew₃
    exact ⟨T₃, .cons T.num a k f, ptr₃, hsteps.trans hsteps₃, hptr₃, hgrew.append hp hgrew₃⟩

theorem place_init : Place xmlInit 0 [] := by
  refine ⟨⟨rfl, rfl, by simp⟩, by decide, by simp, List.not_mem_nil⟩

/-- What has grown in an empty tree is a tree. -/
theorem Grew.holds {f : Forest} {d : Doc} (h : Grew xmlInit T 0 [] f d) : Holds T f := by
  have hroot : T.root = 0 := h.ext.root
  have hself := h.ext.self
  have hnew : ∀ x ∈ f.addrs, 1 ≤ x ∧ x < T.num := h.new
  refine ⟨⟨?_, by simp, ?_, ?_, ?_⟩, h.draws, ?_, ?_, ?_, ?_, ?_⟩
  · rw [hroot]
    exact h.place.chain
  · rw [hroot]
    exact fun x hx => ⟨h.type x hx, h.place.parent x (by simpa using hx)⟩
  · rw [hroot, hself]
    simp [xmlInit, xmlNodeInit]
  · rw [hroot, h.flag]
    simp [xmlInit, xmlNodeInit]
  · rw [hroot]
    exact List.nodup_cons.2 ⟨fun hin => absurd (hnew 0 hin).1 (by omega), h.nodup⟩
  · rw [hroot, List.forall_mem_cons]
    exact ⟨h.place.top_lt, fun x hx => (hnew x hx).2⟩
  · rw [h.ext.freed]
    simp [xmlInit]
  · rw [hroot, hself]
    rfl
  · rw [hroot, hself]
    rfl

/-- A text of a document is parsed to a tree of the document. -/
theorem xmlScreat_text (hi : ∀ n, White (indent n)) (he : White eol) {d : Doc} (hd : d.Fine)
    (hs : d.height ≤ XML_MAX_DEPTH) : ∃ T f, xmlScreat (d.text (layoutForm indent eol))
      (d.text (layoutForm indent eol)).length = some T ∧ Holds T f ∧ f.doc T.mem = d := by
  rw [xmlScreat]
  split
  · rename_i hlen
    cases d with
    | nil =>
      refine ⟨xmlEmpty, .nil, rfl, ⟨⟨rfl, by simp, by simp [roots], by decide, by decide⟩, trivial, by decide, by decide,
        by simp [addrs], rfl, rfl⟩, rfl⟩
    | node name attrs value kids rest =>
      simp [Doc.text, Doc.print, layoutForm] at hlen
  · rename_i hlen
    have htext : skip (d.text (layoutForm indent eol)) = skip ((d.print (layoutForm indent eol) 0).flatten ++ []) := by
      rw [List.append_nil, Doc.text]
    obtain ⟨T, f, ptr, hsteps, hptr, hgrew⟩ := reads (s := []) hi he hd place_init (by simpa using hs) htext
    obtain ⟨fuel, hfuel, hloop⟩ := loop_reach hsteps hlen (Nat.lt_succ_self _)
    obtain ⟨fuel, rfl⟩ : ∃ m, fuel = m + 1 := ⟨fuel - 1, by omega⟩
    refine ⟨T, f, ?_, hgrew.holds, hgrew.doc⟩
    exact hloop.trans (loop_end hptr rfl)

/-- What `xml_sprint` or `xml_spack` writes of a tree, `xml_screat` reads: the tree that it makes
has the same names, attributes, values and children, in the same order. -/
theorem xml_round_trip {f : Forest} (h : Holds T f) (hs : f.height ≤ XML_MAX_DEPTH) (hd : (f.doc T.mem).Fine)
    {str : List Char} {T₁ : XmlTree} (hstr : T.xmlSprint = some (T₁, str) ∨ T.xmlSpack = some (T₁, str)) :
    ∃ T' f', xmlScreat str str.length = some T' ∧ Holds T' f' ∧ f'.doc T'.mem = f.doc T.mem := by
  have hheight : (f.doc T.mem).height ≤ XML_MAX_DEPTH := by rwa [height_doc]
  rcases hstr with hstr | hstr
  · obtain ⟨T₂, -, hprint⟩ := (h.printTrees xmlSprintForm).1 hs
    rw [xmlSprint, hprint, Option.map_some] at hstr
    obtain ⟨-, rfl⟩ := Prod.mk.inj (Option.some.inj hstr)
    rw [xmlSprintForm_eq]
    exact xmlScreat_text white_tabs (by decide) hd hheight
  · obtain ⟨T₂, -, hprint⟩ := (h.printTrees xmlPackForm).1 hs
    rw [xmlSpack, hprint, Option.map_some] at hstr
    obtain ⟨-, rfl⟩ := Prod.mk.inj (Option.some.inj hstr)
    rw [xmlPackForm_eq]
    exact xmlScreat_text (fun _ => (by decide)) (by decide) hd hheight

theorem fine_letter : (Doc.node ['a'] [(['x'], ['1'])] (some ['v']) (.node ['b'] [] none .nil .nil) .nil).Fine := by
  have hname : ∀ c, xmlIsMarkChar c = true → IsName [c] := fun c hc => ⟨by simp, by simpa using hc⟩
  have hlast : ∀ c ∈ ['v'].getLast?, xmlIsIgnoreChar c = false := by
    rintro c ⟨⟩
    decide
  have htext : IsText ['v'] := ⟨by decide, ⟨'v', rfl, by decide, by decide, by decide⟩, hlast⟩
  have hattr : IsName ['x'] ∧ '"' ∉ ['1'] := ⟨hname 'x' (by decide), by decide⟩
  exact ⟨hname 'a' (by decide), by simpa using hattr, by simpa using htext,
    ⟨hname 'b' (by decide), by simp, by simp, trivial, trivial⟩, trivial⟩

theorem xml_round_trip_letter : ∃ T' f', xmlScreat "<a x=\"1\">v<b/></a>".toList 18 = some T' ∧ Holds T' f' ∧
    f'.doc T'.mem = .node ['a'] [(['x'], ['1'])] (some ['v']) (.node ['b'] [] none .nil .nil) .nil := by
  obtain ⟨T₁, -, hprint⟩ := (holds_letter.printTrees xmlPackForm).1 (by decide)
  have hpack : letter.xmlSpack = some (T₁, "<a x=\"1\">v<b/></a>".toList) := by
    rw [xmlSpack, hprint]
    rfl
  exact xml_round_trip holds_letter (by decide) fine_letter (.inr hpack)

end XmlTree

end BeehiveIm.Xml
