/-
What a parse leaves (`xml_screat`): the tree that is given out, or where the parse fails,
the nodes that have been linked before, which go to `xml_destroy`. The parse ends, and no
pointer of it passes the NUL.
-/
import BeehiveIm.Xml.Runs
import Mathlib.Data.List.TakeWhile

namespace BeehiveIm.Xml

open XmlTree

namespace Parse

/-! ## The trees -/

/-- `xml_mark_get_name` where it fails: the new node is in the tree. -/
def nameLeft (P : Parse) : XmlTree :=
  let node := P.xml.num
  let top := P.stack.headD P.xml.root
  let T := (P.xml.xmlNodeCreat .child).linkTail top node
  let T := T.set top { T.mem top with hasChild := true }
  if (P.ptr.dropWhile xmlIsMarkChar).head?.any xmlIsMarkBorder then
    T.set node { T.mem node with name := P.ptr.takeWhile xmlIsMarkChar }
  else T

/-- The loop of `xml_mark_get_attr` where it fails: the attributes before are in the list of the
node, which gets no flag for them, and the one it is at is freed. -/
def attrLeft (top : Nat) : Nat → XmlTree → List Char → XmlTree
  | 0, T, _ => T
  | fuel + 1, T, ptr =>
    match attrText ptr with
    | none =>
      let node := T.num
      let T := T.xmlNodeCreat .attr
      let T := T.set node { T.mem node with name := (skip ptr).takeWhile xmlIsMarkChar }
      (T.xmlNodeFree node).1
    | some (name, value, ptr) =>
      let node := T.num
      let T := T.xmlNodeCreat .attr
      let T := T.set node { T.mem node with name := name, value := some value }
      let T := T.linkTail top node
      let ptr := skip ptr
      if ptr.head?.any xmlIsMarkChar then attrLeft top fuel T ptr else T

/-- `xml_parse_mark` behind the name: whatever fails then, the node and the
attributes before stay. -/
def namedLeft (P : Parse) : XmlTree :=
  let P' := { P with ptr := skip P.ptr }
  if P.xmlMarkHasAttr then
    match P'.xmlMarkGetAttr with
    | none => attrLeft (P.stack.headD P.xml.root) (P'.ptr.length + 1) P.xml P'.ptr
    | some P => P.xml
  else P.xml

/-- The tree where a turn of `xml_parse` fails. -/
def turnLeft (P : Parse) : XmlTree :=
  match P.ptr with
  | '<' :: '?' :: _ | '<' :: '!' :: _ | '<' :: '/' :: _ => P.xml
  | '<' :: ptr =>
    let P := { P with ptr := ptr }
    match P.xmlMarkGetName with
    | none => P.nameLeft
    | some P => P.namedLeft
  | _ => P.xml

/-- The loop of `xml_parse`: the tree, and whether it succeeds; `none` where the turns do not
suffice. -/
def loopTree (total len : Nat) : Nat → Parse → Option (XmlTree × Bool)
  | 0, _ => none
  | fuel + 1, P =>
    if P.ptr = [] ∨ len ≤ total - P.ptr.length then some (P.xml, P.stack = [])
    else
      let P := { P with ptr := skip P.ptr }
      if P.ptr = [] then some (P.xml, P.stack = [])
      else
        match P.turn with
        | none => some (P.turnLeft, false)
        | some P => loopTree total len fuel P

/-- The states of `xml_parse` at which it has a character to look at. -/
def turns (total len : Nat) : Nat → Parse → List Parse
  | 0, _ => []
  | fuel + 1, P =>
    if P.ptr = [] ∨ len ≤ total - P.ptr.length then []
    else
      let P := { P with ptr := skip P.ptr }
      if P.ptr = [] then []
      else
        P :: match P.turn with
          | none => []
          | some P => turns total len fuel P

/-- How deep the node is that a turn makes: behind the open ones. Where its attributes fail behind
the first, that one counts, since its node has no flag for it. -/
def level (P : Parse) : Nat :=
  match P.ptr with
  | '<' :: '?' :: _ | '<' :: '!' :: _ | '<' :: '/' :: _ => 0
  | '<' :: ptr =>
    match { P with ptr := ptr }.xmlMarkGetName with
    | none => P.stack.length + 1
    | some Q =>
      if Q.xmlMarkHasAttr ∧ { Q with ptr := skip Q.ptr }.xmlMarkGetAttr = none ∧ attrText (skip Q.ptr) ≠ none then
        P.stack.length + 2
      else P.stack.length + 1
  | _ => 0

/-- Where a turn moves the pointer over characters all at once, and over how many. -/
def passes (P : Parse) : List (Nat × List Char) :=
  match P.ptr with
  | '<' :: '?' :: _ => if "<?xml ".toList.isPrefixOf P.ptr then [(6, P.ptr)] else []
  | '<' :: '!' :: _ => if "<!--".toList.isPrefixOf P.ptr then [(4, P.ptr)] else []
  | '<' :: '/' :: _ => [(2, P.ptr)]
  | '<' :: ptr =>
    (1, P.ptr) ::
      match { P with ptr := ptr }.xmlMarkGetName with
      | none => []
      | some Q =>
        let Q' := { Q with ptr := skip Q.ptr }
        match if Q.xmlMarkHasAttr then Q'.xmlMarkGetAttr else some Q' with
        | none => []
        | some Q => if "/>".toList.isPrefixOf (skip Q.ptr) then [(2, Q.ptr)] else []
  | _ => []

end Parse

/-- `xml_screat`: the tree that it has built when the parse is over, and whether the parse
succeeds. -/
def xmlScreatTree (str : List Char) (len : Nat) : Option (XmlTree × Bool) :=
  if len = 0 then some (xmlEmpty, true)
  else Parse.loopTree str.length len (str.length + 1) ⟨xmlInit, [], str⟩

/-- The states of the parse of `xml_screat`. -/
def parseTurns (str : List Char) (len : Nat) : List Parse :=
  if len = 0 then [] else Parse.turns str.length len (str.length + 1) ⟨xmlInit, [], str⟩

/-- No node is 32 levels below the root. -/
def Shallow (str : List Char) (len : Nat) : Prop := ∀ P ∈ parseTurns str len, P.level < XML_MAX_DEPTH

instance (str : List Char) (len : Nat) : Decidable (Shallow str len) :=
  inferInstanceAs (Decidable (∀ P ∈ parseTurns str len, P.level < XML_MAX_DEPTH))

/-- `xml_destroy` frees each node that has been made once, and succeeds. -/
def Releases (T : XmlTree) : Prop :=
  (T.xmlNodeFree T.root).2 = true ∧ (T.xmlNodeFree T.root).1.freed.Perm (List.range T.num)

/-! ## The parse ends inside the text -/

section Text

variable {ptr ptr' : List Char} {fuel fuel' : Nat}

theorem length_skip (ptr : List Char) : (skip ptr).length ≤ ptr.length := List.length_dropWhile_le ..

theorem versionLoop_le (h : versionLoop fuel ptr = some ptr') : ptr'.length ≤ ptr.length := by
  induction fuel generalizing ptr with
  | zero => cases h
  | succ fuel ih =>
    rw [versionLoop.eq_def] at h
    simp only at h
    split at h
    · obtain rfl := Option.some.inj h
      exact Nat.le_refl _
    · rename_i c tail
      split at h
      · obtain rfl := Option.some.inj h
        exact Nat.le_refl _
      · split at h
        · split at h
          · rename_i after hname
            split at h
            · rename_i border value hskip
              split at h
              · split at h
                · rename_i q rest hvalue
                  have h₁ := ih h
                  have h₂ := length_skip rest
                  have h₃ := List.length_dropWhile_le (· ≠ border) value
                  have h₄ := length_skip after
                  have h₅ := List.length_dropWhile_le xmlIsMarkChar (c :: tail)
                  rw [hvalue, List.length_cons] at h₃
                  rw [hskip, List.length_cons] at h₄
                  rw [hname, List.length_cons] at h₅
                  omega
                · cases h
              · cases h
            · cases h
          · cases h
        · cases h

/-- More turns change nothing. -/
theorem versionLoop_more (h : ptr.length < fuel) (h' : ptr.length < fuel') :
    versionLoop fuel ptr = versionLoop fuel' ptr := by
  induction fuel generalizing ptr fuel' with
  | zero => omega
  | succ fuel ih =>
    cases fuel' with
    | zero => omega
    | succ fuel' =>
      rw [versionLoop.eq_def, versionLoop.eq_def (fuel' + 1)]
      simp only
      split
      · rfl
      · rename_i c tail
        split
        · rfl
        · split
          · split
            · rename_i after hname
              split
              · rename_i border value hskip
                split
                · split
                  · rename_i q rest hvalue
                    have h₂ := length_skip rest
                    have h₃ := List.length_dropWhile_le (· ≠ border) value
                    have h₄ := length_skip after
                    have h₅ := List.length_dropWhile_le xmlIsMarkChar (c :: tail)
                    rw [hvalue, List.length_cons] at h₃
                    rw [hskip, List.length_cons] at h₄
                    rw [hname, List.length_cons] at h₅
                    exact ih (by omega) (by omega)
                  · rfl
                · rfl
              · rfl
            · rfl
          · rfl

theorem findNoteEnd_le : ∀ {ptr ptr' : List Char}, findNoteEnd ptr = some ptr' → ptr'.length ≤ ptr.length
  | [], _, h => by cases h
  | c :: ptr, ptr', h => by
    rw [findNoteEnd.eq_def] at h
    split at h
    · rename_i heq
      obtain ⟨-, rfl⟩ := List.cons.inj heq
      obtain rfl := Option.some.inj h
      simp
      omega
    · rename_i heq
      obtain ⟨-, rfl⟩ := List.cons.inj heq
      have := findNoteEnd_le h
      simp
      omega
    · cases h

theorem attrText_lt {name value : List Char} (h : Parse.attrText ptr = some (name, value, ptr')) :
    ptr'.length < ptr.length := by
  unfold Parse.attrText at h
  split at h
  · rename_i rest hname
    split at h
    · rename_i border value' hskip
      split at h
      · split at h
        · rename_i q after hvalue
          simp only [Option.some.injEq, Prod.mk.injEq] at h
          obtain ⟨-, -, rfl⟩ := h
          have h₁ := length_skip rest
          have h₂ := List.length_dropWhile_le (· ≠ border) value'
          have h₃ := length_skip ((skip ptr).dropWhile xmlIsMarkChar)
          have h₄ := List.length_dropWhile_le xmlIsMarkChar (skip ptr)
          have h₅ := length_skip ptr
          rw [hskip, List.length_cons] at h₁
          rw [hvalue, List.length_cons] at h₂
          rw [hname, List.length_cons] at h₃
          omega
        · cases h
      · cases h
    · cases h
  · cases h

theorem attrLoop_le {top : Nat} {T T' : XmlTree} (h : Parse.attrLoop top fuel T ptr = some (T', ptr')) :
    ptr'.length ≤ ptr.length := by
  induction fuel generalizing T ptr with
  | zero => cases h
  | succ fuel ih =>
    rw [Parse.attrLoop] at h
    split at h
    · cases h
    · rename_i name value after htext
      have hlt := attrText_lt htext
      have hskip := length_skip after
      dsimp only at h
      split at h
      · have := ih h
        omega
      · obtain ⟨-, rfl⟩ := Prod.mk.inj (Option.some.inj h)
        omega

theorem attrLoop_more {top : Nat} {T : XmlTree} (h : ptr.length < fuel) (h' : ptr.length < fuel') :
    Parse.attrLoop top fuel T ptr = Parse.attrLoop top fuel' T ptr := by
  induction fuel generalizing T ptr fuel' with
  | zero => omega
  | succ fuel ih =>
    cases fuel' with
    | zero => omega
    | succ fuel' =>
      rw [Parse.attrLoop, Parse.attrLoop]
      split
      · rfl
      · rename_i name value after htext
        have hlt := attrText_lt htext
        have hskip := length_skip after
        dsimp only
        split
        · exact ih (by omega) (by omega)
        · rfl

theorem valueText_le {value : List Char} (h : Parse.valueText ptr = some (value, ptr')) : ptr'.length ≤ ptr.length := by
  have hskip := length_skip ptr
  unfold Parse.valueText at h
  split at h
  · cases h
  · rename_i c rest heq
    rw [heq, List.length_cons] at hskip
    split at h
    · split at h
      · rename_i q after hvalue
        split at h
        · obtain ⟨-, rfl⟩ := Prod.mk.inj (Option.some.inj h)
          have h₁ := List.length_dropWhile_le (· ≠ c) rest
          have h₂ := length_skip after
          rw [hvalue, List.length_cons] at h₁
          omega
        · cases h
      · cases h
    · have h₁ := List.length_dropWhile_le (· ≠ '<') (c :: rest)
      rw [List.length_cons] at h₁
      split at h
      · cases h
      · obtain ⟨-, rfl⟩ := Prod.mk.inj (Option.some.inj h)
        omega

end Text

namespace Parse

variable {P P' Q : Parse} {T : XmlTree}

theorem xmlMarkGetAttr_le (h : P.xmlMarkGetAttr = some P') : P'.ptr.length ≤ P.ptr.length := by
  unfold xmlMarkGetAttr at h
  split at h
  · cases h
  · split at h
    · cases h
    · rename_i hloop
      obtain rfl := Option.some.inj h
      exact attrLoop_le hloop

theorem markRest_le (h : P.markRest = some P') : P'.ptr.length ≤ P.ptr.length := by
  have hskip := length_skip P.ptr
  unfold markRest at h
  split at h
  · obtain rfl := Option.some.inj h
    simp only [List.length_drop]
    omega
  · split at h
    · rename_i ptr heq
      have hskip' := length_skip ptr
      rw [heq, List.length_cons] at hskip
      dsimp only at h
      split at h
      · obtain rfl := Option.some.inj h
        simp only
        omega
      · unfold xmlMarkGetValue at h
        split at h
        · cases h
        · split at h
          · cases h
          · rename_i htext
            obtain rfl := Option.some.inj h
            have hle := valueText_le htext
            simp only at hle ⊢
            omega
    · cases h

/-- A turn passes one character at least. -/
theorem turn_lt (h : P.turn = some P') : P'.ptr.length < P.ptr.length := by
  unfold turn at h
  split at h
  · obtain ⟨ptr, hv, rfl⟩ := Option.map_eq_some_iff.1 h
    unfold xmlParseVersion at hv
    split at hv
    · rename_i hpre
      have hlen := (List.isPrefixOf_iff_prefix.1 hpre).length_le
      split at hv
      · rename_i ptr' hloop
        obtain rfl := Option.some.inj hv
        have hle := versionLoop_le hloop
        have hskip := length_skip (P.ptr.drop 6)
        rw [List.length_drop] at hskip
        simp only [List.length_cons] at hle ⊢
        omega
      · cases hv
    · cases hv
  · obtain ⟨ptr, hv, rfl⟩ := Option.map_eq_some_iff.1 h
    unfold xmlParseNote at hv
    split at hv
    · rename_i hpre
      have hlen := (List.isPrefixOf_iff_prefix.1 hpre).length_le
      split at hv
      · rename_i ptr' hend
        obtain rfl := Option.some.inj hv
        have hle := findNoteEnd_le hend
        rw [List.length_drop, List.length_cons] at hle
        have hfour : "<!--".toList.length = 4 := rfl
        simp only
        omega
      · cases hv
    · cases hv
  · rename_i tail heq
    unfold xmlParseEnd at h
    dsimp only at h
    split at h
    · rename_i rest hname
      have hle := List.length_dropWhile_le xmlIsMarkChar (P.ptr.drop 2)
      rw [hname, List.length_cons, List.length_drop] at hle
      split at h
      · split at h
        · obtain rfl := Option.some.inj h
          simp only
          omega
        · cases h
      · cases h
    · cases h
  · rename_i tail h1 h2 h3 heq
    unfold xmlParseMark at h
    split at h
    · cases h
    · rename_i Q hname
      have hptr : Q.ptr.length ≤ (P.ptr.drop 1).length := by
        rw [(xmlMarkGetName_eq hname).2.2.1]
        exact List.length_dropWhile_le ..
      have hskip := length_skip Q.ptr
      have hlen : P.ptr.length = tail.length + 1 := by rw [heq, List.length_cons]
      rw [List.length_drop] at hptr
      dsimp only at h
      split at h
      · obtain ⟨Q', hget, hrest⟩ := Option.bind_eq_some_iff.1 h
        have h₁ := xmlMarkGetAttr_le hget
        have h₂ := markRest_le hrest
        simp only at h₁
        omega
      · have h₂ := markRest_le h
        simp only at h₂
        omega
  · cases h

theorem loopTree_ends {total len fuel : Nat} (h : P.ptr.length < fuel) : ∃ r, loopTree total len fuel P = some r := by
  induction fuel generalizing P with
  | zero => omega
  | succ fuel ih =>
    rw [loopTree]
    split
    · exact ⟨_, rfl⟩
    · dsimp only
      split
      · exact ⟨_, rfl⟩
      · split
        · exact ⟨_, rfl⟩
        · rename_i P' hturn
          have hlt := turn_lt hturn
          have hskip := length_skip P.ptr
          simp only at hlt
          exact ih (by omega)

theorem loop_eq_loopTree {total len fuel : Nat} :
    loop total len fuel P = some T ↔ loopTree total len fuel P = some (T, true) := by
  induction fuel generalizing P with
  | zero => simp [loop, loopTree]
  | succ fuel ih =>
    have hend : (if P.stack = [] then some P.xml else none) = some T ↔
        some (P.xml, decide (P.stack = [])) = some (T, true) := by
      by_cases hs : P.stack = [] <;> simp [hs]
    rw [loop, loopTree]
    split
    · exact hend
    · dsimp only
      split
      · exact hend
      · cases turn { P with ptr := skip P.ptr } with
        | none => simp
        | some P' => exact ih

/-- No pointer is moved past the NUL. -/
theorem passes_inside (P : Parse) : ∀ r ∈ P.passes, r.1 ≤ r.2.length := by
  intro r hr
  unfold passes at hr
  split at hr
  · split at hr
    · rename_i hpre
      rw [List.mem_singleton.1 hr]
      exact (List.isPrefixOf_iff_prefix.1 hpre).length_le
    · cases hr
  · split at hr
    · rename_i hpre
      rw [List.mem_singleton.1 hr]
      exact (List.isPrefixOf_iff_prefix.1 hpre).length_le
    · cases hr
  · rename_i heq
    rw [List.mem_singleton.1 hr]
    simp [heq]
  · rename_i ptr h1 h2 h3 heq
    rcases List.mem_cons.1 hr with rfl | hr
    · simp [heq]
    · split at hr
      · cases hr
      · dsimp only at hr
        split at hr
        · cases hr
        · rename_i Q hQ
          split at hr
          · rename_i hpre
            rw [List.mem_singleton.1 hr]
            exact Nat.le_trans (List.isPrefixOf_iff_prefix.1 hpre).length_le (length_skip Q.ptr)
          · cases hr
  · cases hr

end Parse

/-- The tree that is given out is that of the parse that succeeds. -/
theorem xmlScreat_eq_tree {str : List Char} {len : Nat} {T : XmlTree} :
    xmlScreat str len = some T ↔ xmlScreatTree str len = some (T, true) := by
  unfold xmlScreat xmlScreatTree
  split
  · simp
  · exact Parse.loop_eq_loopTree

end BeehiveIm.Xml
