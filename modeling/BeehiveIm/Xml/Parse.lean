/-
The parser of `xml_comm.c`. Where it is in the string is what is left of it, and the NUL is its
end; what fails makes no tree, and a parse for which there is no memory fails. A name or a value is
not too long for an `int`.
-/
import BeehiveIm.Xml

namespace BeehiveIm.Xml

/-- `XmlIsMarkChar` -/
def xmlIsMarkChar (c : Char) : Bool := c.isAlpha || c.isDigit || c = '_' || c = '-' || c = ':'

/-- `XmlIsIgnoreChar`: `isspace` -/
def xmlIsIgnoreChar (c : Char) : Bool :=
  c = ' ' || c = '\t' || c = '\n' || c = '\r' || c = '\x0b' || c = '\x0c'

/-- `XmlIsMarkBorder` -/
def xmlIsMarkBorder (c : Char) : Bool := xmlIsIgnoreChar c || c = '/' || c = '>'

/-- Characters without a meaning are passed over. -/
def skip (ptr : List Char) : List Char := ptr.dropWhile xmlIsIgnoreChar

/-- `xml_parse_t` over the tree and the stack of the nodes that are open. -/
structure Parse where
  xml : XmlTree
  stack : List Nat
  ptr : List Char

/-- The loop of `xml_parse_version`: attributes up to a `?`. -/
def versionLoop : Nat → List Char → Option (List Char)
  | 0, _ => none
  | fuel + 1, ptr =>
    match ptr with
    | [] => some []
    | c :: _ =>
      if c = '?' then some ptr
      else if xmlIsMarkChar c then
        match ptr.dropWhile xmlIsMarkChar with
        | '=' :: ptr =>
          match skip ptr with
          | border :: ptr =>
            if border = '"' ∨ border = '\'' then
              match ptr.dropWhile (· ≠ border) with
              | _ :: ptr => versionLoop fuel (skip ptr)
              | [] => none
            else none
          | [] => none
        | _ => none
      else none

/-- `xml_parse_version` -/
def xmlParseVersion (ptr : List Char) : Option (List Char) :=
  if "<?xml ".toList.isPrefixOf ptr then
    match versionLoop (ptr.length + 1) (skip (ptr.drop 6)) with
    | some ('?' :: '>' :: ptr) => some ptr
    | _ => none
  else none

/-- From the first `--` on. -/
def findNoteEnd : List Char → Option (List Char)
  | '-' :: '-' :: ptr => some ptr
  | _ :: ptr => findNoteEnd ptr
  | [] => none

/-- `xml_parse_note` -/
def xmlParseNote (ptr : List Char) : Option (List Char) :=
  if "<!--".toList.isPrefixOf ptr then
    match findNoteEnd (ptr.drop 4) with
    | some ('>' :: ptr) => some ptr
    | _ => none
  else none

namespace Parse

/-- `xml_parse_end` -/
def xmlParseEnd (P : Parse) : Option Parse :=
  let ptr := P.ptr.drop 2
  match ptr.dropWhile xmlIsMarkChar with
  | '>' :: rest =>
    match P.stack with
    | top :: stack =>
      if (P.xml.mem top).name = ptr.takeWhile xmlIsMarkChar then some { P with stack := stack, ptr := rest } else none
    | [] => none
  | _ => none

/-- `xml_mark_get_name` -/
def xmlMarkGetName (P : Parse) : Option Parse :=
  let node := P.xml.num
  let top := P.stack.headD P.xml.root
  let T := (P.xml.xmlNodeCreat .child).linkTail top node
  let T := T.set top { T.mem top with hasChild := true }
  match P.ptr.dropWhile xmlIsMarkChar with
  | border :: ptr =>
    if xmlIsMarkBorder border ∧ P.stack.length < XML_MAX_DEPTH then
      some ⟨T.set node { T.mem node with name := P.ptr.takeWhile xmlIsMarkChar }, node :: P.stack, border :: ptr⟩
    else none
  | [] => none

/-- `xml_mark_has_attr` -/
def xmlMarkHasAttr (P : Parse) : Bool := (skip P.ptr).head?.any xmlIsMarkChar

/-- An attribute of `xml_mark_get_attr`: its name, its value, and what follows. -/
def attrText (ptr : List Char) : Option (List Char × List Char × List Char) :=
  match skip ((skip ptr).dropWhile xmlIsMarkChar) with
  | '=' :: rest =>
    match skip rest with
    | border :: rest =>
      if border = '"' ∨ border = '\'' then
        match rest.dropWhile (· ≠ border) with
        | _ :: after => some ((skip ptr).takeWhile xmlIsMarkChar, rest.takeWhile (· ≠ border), after)
        | [] => none
      else none
    | [] => none
  | _ => none

/-- The loop of `xml_mark_get_attr` -/
def attrLoop (top : Nat) : Nat → XmlTree → List Char → Option (XmlTree × List Char)
  | 0, _, _ => none
  | fuel + 1, T, ptr =>
    match attrText ptr with
    | none => none
    | some (name, value, ptr) =>
      let node := T.num
      let T := T.xmlNodeCreat .attr
      let T := T.set node { T.mem node with name := name, value := some value }
      let T := T.linkTail top node
      let ptr := skip ptr
      if ptr.head?.any xmlIsMarkChar then attrLoop top fuel T ptr else some (T, ptr)

/-- `xml_mark_get_attr` -/
def xmlMarkGetAttr (P : Parse) : Option Parse :=
  match P.stack with
  | [] => none
  | top :: _ =>
    match attrLoop top (P.ptr.length + 1) P.xml P.ptr with
    | none => none
    | some (T, ptr) => some { P with xml := T.set top { T.mem top with hasAttr := true }, ptr := ptr }

/-- The text of `xml_mark_get_value`, and what follows; without quotes, white space
at its end is left out. -/
def valueText (ptr : List Char) : Option (List Char × List Char) :=
  match skip ptr with
  | [] => none
  | c :: rest =>
    if c = '"' ∨ c = '\'' then
      match rest.dropWhile (· ≠ c) with
      | _ :: after => if (skip after).head? = some '<' then some (rest.takeWhile (· ≠ c), skip after) else none
      | [] => none
    else
      match (c :: rest).dropWhile (· ≠ '<') with
      | [] => none
      | after => some (((c :: rest).takeWhile (· ≠ '<')).reverse.dropWhile xmlIsIgnoreChar |>.reverse, after)

/-- `xml_mark_get_value` -/
def xmlMarkGetValue (P : Parse) : Option Parse :=
  match P.stack with
  | [] => none
  | curr :: _ =>
    match valueText P.ptr with
    | none => none
    | some (value, ptr) =>
      some { P with xml := P.xml.set curr { P.xml.mem curr with value := some value, hasValue := true }, ptr := ptr }

/-- `xml_parse_mark` behind its name and attributes: the mark ends, or a value may follow. -/
def markRest (P : Parse) : Option Parse :=
  if "/>".toList.isPrefixOf (skip P.ptr) then some { P with ptr := P.ptr.drop 2, stack := P.stack.tail }
  else
    match skip P.ptr with
    | '>' :: ptr =>
      let P := { P with ptr := skip ptr }
      if P.ptr.head? = some '<' then some P else P.xmlMarkGetValue
    | _ => none

/-- `xml_parse_mark` -/
def xmlParseMark (P : Parse) : Option Parse :=
  match { P with ptr := P.ptr.drop 1 }.xmlMarkGetName with
  | none => none
  | some P =>
    let P' := { P with ptr := skip P.ptr }
    if P.xmlMarkHasAttr then P'.xmlMarkGetAttr.bind markRest else P'.markRest

/-- One turn of `xml_parse`, at a `<`. -/
def turn (P : Parse) : Option Parse :=
  match P.ptr with
  | '<' :: '?' :: _ => (xmlParseVersion P.ptr).map fun ptr => { P with ptr := ptr }
  | '<' :: '!' :: _ => (xmlParseNote P.ptr).map fun ptr => { P with ptr := ptr }
  | '<' :: '/' :: _ => P.xmlParseEnd
  | '<' :: _ => P.xmlParseMark
  | _ => none

/-- The loop of `xml_parse` over `total` characters, of which `len` count; a turn passes one at
least. -/
def loop (total len : Nat) : Nat → Parse → Option XmlTree
  | 0, _ => none
  | fuel + 1, P =>
    if P.ptr = [] ∨ len ≤ total - P.ptr.length then if P.stack = [] then some P.xml else none
    else
      let P := { P with ptr := skip P.ptr }
      if P.ptr = [] then if P.stack = [] then some P.xml else none
      else
        match P.turn with
        | none => none
        | some P => loop total len fuel P

end Parse

/-- `xml_parse` -/
def xmlParse (T : XmlTree) (str : List Char) (len : Nat) : Option XmlTree :=
  Parse.loop str.length len (str.length + 1) ⟨T, [], str⟩

/-- `xml_screat` -/
def xmlScreat (str : List Char) (len : Nat) : Option XmlTree :=
  if len = 0 then some XmlTree.xmlEmpty else xmlParse XmlTree.xmlInit str len

end BeehiveIm.Xml
