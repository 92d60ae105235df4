/-
Attributes are added, and nodes are taken out of lists. The flag of a node's children is lost when
its only element is a child that is deleted, and that is the one step that keeps no exact flags.
-/
import Mathlib.Data.List.Perm.Subperm
import BeehiveIm.Xml.Tree

namespace BeehiveIm.Xml

namespace XmlTree

variable {T T₁ T' : XmlTree} {q q' : Prop} {opened : Option Nat} {n k x new : Nat} {l a b : List Nat}

/-! ## Attributes -/

/-- A list in which an attribute comes first: its attributes, and then no more of them. -/
theorem Kept.split (h : Kept q opened T x (k :: l)) (hattr : ∃ i ∈ k :: l, (T.mem i).type = .attr) :
    (T.mem k).type = .attr ∧ ∃ a b, l = a ++ b ∧ (∀ i ∈ a, (T.mem i).type = .attr) ∧
    ∀ i ∈ b, (T.mem i).type ≠ .attr := by
  obtain ⟨hhead, htail⟩ := List.pairwise_cons.1 h.order
  constructor
  · obtain ⟨i, hi, hattr⟩ := hattr
    rcases List.mem_cons.1 hi with rfl | hi
    · exact hattr
    · exact hhead i hi hattr
  · clear hhead h hattr
    induction l with
    | nil => exact ⟨[], [], rfl, by simp, by simp⟩
    | cons i l ih =>
      obtain ⟨hi, hl⟩ := List.pairwise_cons.1 htail
      by_cases hattr : (T.mem i).type = .attr
      · obtain ⟨a, b, rfl, ha, hb⟩ := ih hl
        exact ⟨i :: a, b, rfl, List.forall_mem_cons.2 ⟨hattr, ha⟩, hb⟩
      · exact ⟨[], i :: l, rfl, by simp, List.forall_mem_cons.2 ⟨hattr, fun j hj hja => hattr (hi j hj hja)⟩⟩

theorem Kept.length_le (h : Kept q opened T x l) : l.length ≤ T.num := by
  have := (h.chain.nodup.subperm fun k hk => List.mem_range.2 (h.ids k hk).2).length_le
  rwa [List.length_range] at this

/-- What the nodes of the list are, behind a creation. -/
theorem Inv.around (h : Inv q opened T) (hx : InTree T x) (hl : Kept q opened T x l) (hm : More T T₁)
    (hge : T.num ≤ new) : new ≠ x ∧ x ∉ l ∧ T₁.mem x = T.mem x ∧ ∀ k ∈ l, k ≠ x ∧ k ≠ new ∧ T₁.mem k = T.mem k := by
  have hxlt := h.inTree_lt hx
  have hkid : ∀ k ∈ l, k ≠ x ∧ k ≠ new ∧ T₁.mem k = T.mem k := fun k hk => by
    have := hl.ids k hk
    exact ⟨by omega, by omega, hm.mem k this.2⟩
  exact ⟨by omega, fun hk => (hkid x hk).1 rfl, hm.mem x hxlt, hkid⟩

/-- An attribute before all else. -/
theorem Inv.attr_front (h : Inv q none T) (hx : InTree T x) (hl : Kept q none T x l) (hm : More T T₁)
    (hge : T.num ≤ new)
    (hlt : new < T₁.num) (hf : Fresh q T₁ new .attr) {tail : Option Nat} (htail : tail = (new :: l).getLast?) :
    Inv q none ((T₁.set new { T₁.mem new with parent := some x, next := (T.mem x).child }).set x
      { T.mem x with child := some new, tail := tail, hasAttr := true }) := by
  obtain ⟨hne, hxl, hmx, hkid⟩ := h.around hx hl hm hge
  generalize hT' : (T₁.set new { T₁.mem new with parent := some x, next := (T.mem x).child }).set x
      { T.mem x with child := some new, tail := tail, hasAttr := true } = T'
  have hself : T'.mem x = { T.mem x with child := some new, tail := tail, hasChild := (T.mem x).hasChild, hasAttr := true } := by
    rw [← hT', set_mem, Function.update_self]
  have hnew : T'.mem new = { T₁.mem new with next := (T.mem x).child, parent := some x } := by
    rw [← hT', set_mem, Function.update_of_ne hne, set_mem, Function.update_self]
  have hmem : ∀ m, m ≠ x → m ≠ new → T'.mem m = T₁.mem m := fun m hmx hmn => by
    rw [← hT', set_mem, Function.update_of_ne hmx, set_mem, Function.update_of_ne hmn]
  have hold : ∀ k ∈ l, T'.mem k = T.mem k := fun k hk => by
    rw [hmem k (hkid k hk).1 (hkid k hk).2.1, (hkid k hk).2.2]
  have hlists : Lists T' x ([] ++ new :: l) := by
    refine ⟨?_, ?_, fun k hk => ?_⟩
    · rw [hself]
      refine ⟨rfl, ?_⟩
      rw [hnew]
      exact hl.chain.congr fun k hk => by rw [hold k hk]
    · rw [hself]
      exact htail
    · rcases List.mem_cons.1 hk with rfl | hk
      · rw [hnew]
      · rw [hold k hk]
        exact hl.parent k hk
  have hroot : T'.root = T.root := by rw [← hT', set_root, set_root, hm.root]
  have hnum : new < T'.num := by rwa [← hT']
  obtain ⟨hr, hk⟩ := h.gain (a := []) id hx hl hf hroot hge hnum
    (fun m hmlt hmx _ => (hmem m hmx (by omega)).trans (hm.mem m hmlt)) hself hnew
    (fun k hk => ⟨_, hold k hk⟩) hlists (.inl ⟨rfl, by simp⟩) (fun _ => by simp)
    (fun hc => hl.hasChild (hc.resolve_right (by simp))) (fun hq hc => .inl (hl.onlyChild hq hc))
  exact h.relink id hx hl hr hk

/-- An attribute behind one of the list, before others. -/
theorem Inv.attr_after (h : Inv q none T) (hx : InTree T x) {link i : Nat} (hl : Kept q none T x (a ++ link :: i :: b))
    (hm : More T T₁)
    (hge : T.num ≤ new) (hlt : new < T₁.num) (hf : Fresh q T₁ new .attr) (ha : ∀ k ∈ a, (T.mem k).type = .attr)
    (hlink : (T.mem link).type = .attr) :
    Inv q none (((T₁.set new { T₁.mem new with parent := some x, next := (T.mem link).next }).set link
      { T.mem link with next := some new }).set x { T.mem x with hasAttr := true }) := by
  obtain ⟨hne, hxl, hmx, hkid⟩ := h.around hx hl hm hge
  obtain ⟨hlx, hln, hlm⟩ := hkid link (by simp)
  generalize hT' : ((T₁.set new { T₁.mem new with parent := some x, next := (T.mem link).next }).set link
      { T.mem link with next := some new }).set x { T.mem x with hasAttr := true } = T'
  have hself : T'.mem x = { T.mem x with child := (T.mem x).child, tail := (T.mem x).tail, hasChild := (T.mem x).hasChild, hasAttr := true } := by
    rw [← hT', set_mem, Function.update_self]
  have hlink' : T'.mem link = { T.mem link with next := some new } := by
    rw [← hT', set_mem, Function.update_of_ne hlx, set_mem, Function.update_self]
  have hnew : T'.mem new = { T₁.mem new with next := (T.mem link).next, parent := some x } := by
    rw [← hT', set_mem, Function.update_of_ne hne, set_mem, Function.update_of_ne (Ne.symm hln), set_mem,
      Function.update_self]
  have hmem : ∀ m, m ≠ x → m ≠ new → m ≠ link → T'.mem m = T₁.mem m := fun m hmx hmn hml => by
    rw [← hT', set_mem, Function.update_of_ne hmx, set_mem, Function.update_of_ne hml, set_mem,
      Function.update_of_ne hmn]
  have hold : ∀ k ∈ a ++ link :: i :: b, ∃ next, T'.mem k = { T.mem k with next := next } := by
    intro k hk
    by_cases hkl : k = link
    · rw [hkl]
      exact ⟨_, hlink'⟩
    · obtain ⟨hkx, hkn, hkm⟩ := hkid k hk
      rw [hmem k hkx hkn hkl, hkm]
      exact ⟨_, rfl⟩
  have hlists : Lists T' x (a ++ link :: new :: i :: b) := by
    refine ⟨?_, ?_, fun k hk => ?_⟩
    · rw [hself]
      refine hl.chain.insert (by rw [hlink']) (by rw [hnew]) fun k hk => ?_
      have hnd := hl.chain.nodup
      have hkl : k ≠ link := by
        rintro rfl
        exact (List.nodup_middle.1 hnd).notMem hk
      have hk' : k ∈ a ++ link :: i :: b := by
        rcases List.mem_append.1 hk with hk | hk
        · exact List.mem_append_left _ hk
        · exact List.mem_append_right _ (.tail _ hk)
      rw [hmem k (hkid k hk').1 (hkid k hk').2.1 hkl, (hkid k hk').2.2]
    · rw [hself]
      have := hl.tail
      simpa [List.getLast?_append, List.getLast?_cons_cons] using this
    · by_cases hkn : k = new
      · rw [hkn, hnew]
      · have hk' : k ∈ a ++ link :: i :: b := by
          simp only [List.mem_append, List.mem_cons] at hk ⊢
          rcases hk with hk | rfl | rfl | hk
          · exact .inl hk
          · exact .inr (.inl rfl)
          · exact absurd rfl hkn
          · exact .inr (.inr hk)
        obtain ⟨next, hk''⟩ := hold k hk'
        rw [hk'']
        exact hl.parent k hk'
  have hroot : T'.root = T.root := by rw [← hT', set_root, set_root, set_root, hm.root]
  have hnum : new < T'.num := by rwa [← hT']
  have hassoc : ∀ c : List Nat, a ++ link :: c = (a ++ [link]) ++ c := fun c => by simp
  rw [hassoc] at hlists hold
  rw [hassoc] at hl
  obtain ⟨hr, hk⟩ := h.gain id hx hl hf hroot hge hnum
    (fun m hmlt hmx hml => (hmem m hmx (by omega) fun heq => hml (by simp [heq])).trans
    (hm.mem m hmlt)) hself hnew hold hlists
    (.inl ⟨rfl, List.forall_mem_append.2 ⟨ha, by simpa using hlink⟩⟩) (fun _ => by simp)
    (fun hc => hl.hasChild (hc.resolve_right (by simp))) (fun hq hc => .inl (hl.onlyChild hq hc))
  exact h.relink id hx hl hr hk

theorem Inv.xmlAddAttr (h : Inv q none T) (hx : InTree T x) (name : List Char) (value : Option (List Char))
    (al : Alloc) : Inv q none (T.xmlAddAttr x name value al).1 := by
  obtain ⟨l, hl⟩ := h.nodes x hx
  have hspec := xmlNodeCreatExt_spec q T .attr name value al
  unfold XmlTree.xmlAddAttr
  split
  · exact h
  split
  · exact h
  generalize T.xmlNodeCreatExt .attr name value al = r at hspec
  obtain ⟨T₁, new⟩ := r
  obtain ⟨hm, hnew⟩ := hspec
  dsimp only at hm hnew
  cases new with
  | none => exact h.more hm
  | some new =>
    obtain ⟨rfl, hlt, hf⟩ := hnew new rfl
    obtain ⟨hne, hxl, hmx, hkid⟩ := h.around hx hl hm (Nat.le_refl T.num)
    have hself : ∀ node, (T₁.set T.num node).mem x = T.mem x := fun node => by
      rw [set_mem, Function.update_of_ne (Ne.symm hne), hmx]
    cases l with
    | nil =>
      have hchild : (T.mem x).child = none := hl.chain
      simp only [hmx, hchild, hself]
      have hfront := h.attr_front hx hl hm (Nat.le_refl T.num) hlt hf rfl
      rw [hchild] at hfront
      have hnext : ({ T₁.mem T.num with parent := some x, next := none } : Node) =
          { T₁.mem T.num with parent := some x } := by
        rw [← hf.next]
      rwa [hnext] at hfront
    | cons link l =>
      have hchild : (T.mem x).child = some link := hl.chain.1
      simp only [hmx, hchild]
      split
      · rename_i hattr
        have hsome : ∃ i ∈ link :: l, (T.mem i).type = .attr := (hl.hasAttr (by simp)).1 hattr
        split
        · rename_i htail
          -- the last one is an attribute, so that all are
          have hall : ∀ k ∈ link :: l, (T.mem k).type = .attr := by
            obtain ⟨t, ht, hattr⟩ := (Option.any_eq_true _ _).1 htail
            have htl := hl.tail_mem ht
            have htattr : (T.mem t).type = .attr := by simpa [isAttr, (hkid t htl).2.2] using hattr
            obtain ⟨a, hat⟩ : ∃ a, link :: l = a ++ [t] := List.getLast?_eq_some_iff.1 (hl.tail.symm.trans ht)
            have horder := hl.order
            rw [hat] at horder ⊢
            intro k hk
            rcases List.mem_append.1 hk with hk | hk
            · exact (List.pairwise_append.1 horder).2.2 k hk t (.head _) htattr
            · rwa [List.mem_singleton.1 hk]
          have hflag : ((T₁.linkTail x T.num).mem x).hasChild = (T.mem x).hasChild := by
            rw [(linkTail_flags T₁ x T.num).2, hmx]
          obtain ⟨hr, hk⟩ := h.linkFlags id hx hl hm (Nat.le_refl _) hlt hf ((T₁.linkTail x T.num).mem x).hasChild true
            (.inl rfl)
            (fun _ => hall) (fun _ => by simp) (fun hc => hflag.trans (hl.hasChild (hc.resolve_right (by simp))))
            (fun hq hc => .inl (hl.onlyChild hq (hflag.symm.trans hc)))
          exact h.relink id hx hl hr hk
        · rename_i htail
          obtain ⟨hlink, a, b, rfl, ha, hb⟩ := hl.split hsome
          have hassoc : link :: (a ++ b) = link :: a ++ b := rfl
          have hchain₁ : Chain T₁.mem (some link) (link :: a ++ b) :=
            hchild ▸ hl.chain.congr fun k hk => by rw [(hkid k hk).2.2]
          have hlast : T₁.lastAttr T₁.num link = (link :: a).getLast (List.cons_ne_nil link a) := by
            refine lastAttr_eq hchain₁ (fun i hi => ?_) (fun i hi => ?_) ?_
            · rw [(hkid i (by simp [hi])).2.2]
              exact ha i hi
            · rw [(hkid i (by simp [List.mem_of_mem_head? hi])).2.2]
              exact hb i (List.mem_of_mem_head? hi)
            · have hlen := hl.length_le
              have := hm.num
              simp only [List.length_cons, List.length_append] at hlen
              omega
          obtain ⟨a', i, hai⟩ : ∃ a' i, link :: a = a' ++ [i] :=
            ⟨_, _, (List.dropLast_append_getLast (List.cons_ne_nil link a)).symm⟩
          have hi : (link :: a).getLast (List.cons_ne_nil link a) = i := by simp only [hai, List.getLast_concat]
          have hall : ∀ k ∈ a' ++ [i], (T.mem k).type = .attr := hai ▸ List.forall_mem_cons.2 ⟨hlink, ha⟩
          rw [hlast, hi]
          have hl' := hl
          rw [hassoc, hai, List.append_assoc] at hl'
          have hib := hkid i (by rw [hassoc, hai]; simp)
          cases b with
          | nil =>
            -- then an attribute is the last one
            refine absurd ?_ htail
            have : (T.mem x).tail = some i := by rw [hl'.tail]; simp
            simp [this, isAttr, hib.2.2, hall i (by simp)]
          | cons j b =>
            have hset : (T₁.set T.num { T₁.mem T.num with parent := some x, next := (T₁.mem i).next }).mem i =
                T.mem i := by
              rw [set_mem, Function.update_of_ne hib.2.1, hib.2.2]
            have hsetx : ∀ node node', ((T₁.set T.num node).set i node').mem x = T.mem x := fun node node' => by
              rw [set_mem, Function.update_of_ne (Ne.symm hib.1), hself]
            rw [hset, hsetx, hib.2.2]
            exact h.attr_after hx hl' hm (Nat.le_refl _) hlt hf (fun k hk => hall k (by simp [hk])) (hall i (by simp))
      · rename_i hattr
        split
        · rw [hself]
          have hfront := h.attr_front hx hl hm (Nat.le_refl T.num) hlt hf
            (by rw [hl.tail, List.getLast?_cons_cons] : (T.mem x).tail = _)
          exact hchild ▸ hfront
        · exact h.more ⟨hm.root, hm.num, hm.mem⟩

/-! ## Deletion -/

theorem Relink.mono {q'' : Prop} {l' : List Nat} (h : Relink q' opened T T' x l l') (hq : q'' → q') :
    Relink q'' opened T T' x l l' :=
  { h with new := fun k hk => (h.new k hk).imp_right fun hk => ⟨hk.1, hk.2.mono hq⟩ }

theorem exists_mem_middle {P : Nat → Prop} : (∃ i ∈ a ++ k :: b, P i) ↔ (∃ i ∈ a ++ b, P i) ∨ P k := by
  simp only [List.mem_append, List.mem_cons, or_and_right, exists_or, exists_eq_left]
  exact (or_congr_right or_comm).trans or_assoc.symm

/-- A node has left the list of `x`. -/
theorem Kept.lose (hl : Kept q none T x (a ++ k :: b)) (hq : q' → q) (hroot : T'.root = T.root)
    (hnum : T'.num = T.num) (hframe : ∀ m, m ≠ x → m ∉ a ++ b → T'.mem m = T.mem m) {child tail : Option Nat}
    {hasChild hasAttr : Bool}
    (hself : T'.mem x = { T.mem x with child := child, tail := tail, hasChild := hasChild, hasAttr := hasAttr })
    (hold : ∀ i ∈ a ++ b, ∃ next, T'.mem i = { T.mem i with next := next }) (hlists : Lists T' x (a ++ b))
    (hattr : hasAttr = true ↔ ∃ i ∈ a ++ b, (T.mem i).type = .attr)
    (hchild : (∃ i ∈ a ++ b, (T.mem i).type = .child) → hasChild = true)
    (honly : q' → hasChild = true → ∃ i ∈ a ++ b, (T.mem i).type = .child) :
    Relink q' none T T' x (a ++ k :: b) (a ++ b) ∧ Kept q' none T' x (a ++ b) := by
  have hsub : ∀ i ∈ a ++ b, i ∈ a ++ k :: b := fun i hi => by
    rcases List.mem_append.1 hi with hi | hi
    · exact List.mem_append_left _ hi
    · exact List.mem_append_right _ (.tail _ hi)
  have htype : ∀ i ∈ a ++ b, (T'.mem i).type = (T.mem i).type := fun i hi => by
    obtain ⟨next, hi'⟩ := hold i hi
    rw [hi']
  have hex : ∀ t, (∃ i ∈ a ++ b, (T'.mem i).type = t) ↔ ∃ i ∈ a ++ b, (T.mem i).type = t := fun t =>
    exists_congr fun i => and_congr_right fun hi => by rw [htype i hi]
  have hkx : k ≠ x := fun heq => by
    have := (hl.ids k (by simp)).1
    omega
  constructor
  · refine ⟨hroot, Nat.le_of_eq hnum.symm, fun m _ hmx hml => hframe m hmx fun hm => hml (hsub m hm), fun i hi => ?_,
      ?_, fun i hi => .inl (hsub i hi)⟩
    · by_cases hi' : i ∈ a ++ b
      · obtain ⟨next, hi''⟩ := hold i hi'
        rw [hi'']
      · have hix : i ≠ x := fun heq => Nat.lt_irrefl x (heq ▸ (hl.ids i hi).1)
        rw [hframe i hix hi']
    · rw [hself]
      exact ⟨rfl, rfl, rfl⟩
  · refine { hlists with
      kinds := ?_, order := ?_, ids := ?_, hasAttr := ?_, hasChild := ?_, hasValue := ?_, onlyChild := ?_, isValue :=
        ?_ }
    · intro i hi
      rw [htype i hi]
      exact hl.kinds i (hsub i hi)
    · have horder := hl.order.sublist (List.Sublist.append_left (List.sublist_cons_self k b) a)
      refine horder.imp_of_mem fun {i j} hi hj hij => ?_
      rw [htype i hi, htype j hj]
      exact hij
    · intro i hi
      rw [hnum]
      exact hl.ids i (hsub i hi)
    · rw [hself, hex]
      exact fun _ => hattr
    · rw [hself, hex]
      exact hchild
    · rw [hself]
      exact hl.hasValue
    · rw [hself, hex]
      exact honly
    · rw [hself]
      exact fun hq' => hl.isValue (hq hq')

/-- What `xml_delete_child` does to a list in which `p1` is in front of the node. -/
def unlink (T : XmlTree) (node child p1 : Nat) : XmlTree :=
  let T' := T.set p1 { T.mem p1 with next := (T.mem child).next }
  let T' := if (T.mem node).tail = some child then T'.set node { T'.mem node with tail := some p1 } else T'
  if (T.mem child).next = none ∧ (T.mem child).type = .child ∧ (T.mem p1).type ≠ .child then
    T'.set node { T'.mem node with hasChild := false }
  else T'

theorem deleteLoop_eq {node p : Nat} (hc : Chain T.mem (some p) (p :: a ++ k :: b)) (hk : k ∉ a) {fuel : Nat}
    (hfuel : a.length < fuel) :
    T.deleteLoop node k fuel p = T.unlink node k ((p :: a).getLast (List.cons_ne_nil p a)) := by
  induction a generalizing p fuel with
  | nil =>
    obtain ⟨fuel, rfl⟩ : ∃ f, fuel = f + 1 := ⟨fuel - 1, by omega⟩
    have hnext : (T.mem p).next = some k := hc.2.1
    rw [deleteLoop, hnext]
    simp only [if_true]
    rfl
  | cons i a ih =>
    obtain ⟨fuel, rfl⟩ : ∃ f, fuel = f + 1 := ⟨fuel - 1, by omega⟩
    have hnext : (T.mem p).next = some i := hc.2.1
    have hki : k ≠ i := fun heq => hk (heq ▸ .head _)
    rw [deleteLoop, hnext]
    simp only [if_neg hki]
    rw [List.getLast_cons (List.cons_ne_nil i a)]
    exact ih (hnext ▸ hc.2) (fun hka => hk (.tail _ hka)) (by simpa using hfuel)

theorem unlink_self {p : Nat} (hp : p ≠ x) :
    (T.unlink x k p).mem x = { T.mem x with
      tail := if (T.mem x).tail = some k then some p else (T.mem x).tail
      hasChild := if (T.mem k).next = none ∧ (T.mem k).type = .child ∧
        (T.mem p).type ≠ .child then false else (T.mem x).hasChild } := by
  unfold unlink
  dsimp only
  split_ifs <;> simp only [set_mem, Function.update_self, Function.update_of_ne (Ne.symm hp)]

theorem unlink_other {p m : Nat} (hm : m ≠ x) :
    (T.unlink x k p).mem m = if m = p then { T.mem p with next := (T.mem k).next } else T.mem m := by
  unfold unlink
  dsimp only
  by_cases hmp : m = p
  · subst hmp
    rw [if_pos rfl]
    split_ifs <;> simp only [set_mem, Function.update_self, Function.update_of_ne hm]
  · rw [if_neg hmp]
    split_ifs <;> simp only [set_mem, Function.update_of_ne hm, Function.update_of_ne hmp]

theorem unlink_root (T : XmlTree) (x k p : Nat) : (T.unlink x k p).root = T.root ∧ (T.unlink x k p).num = T.num := by
  unfold unlink
  dsimp only
  split_ifs <;> exact ⟨rfl, rfl⟩

/-- A list has lost its only child. -/
def Only (T : XmlTree) (k : Nat) (l : List Nat) : Prop := l = [k] ∧ (T.mem k).type = .child

theorem Kept.unlink {p : Nat} (hl : Kept q none T x (a ++ p :: k :: b)) :
    Relink q none T (T.unlink x k p) x (a ++ p :: k :: b) (a ++ p :: b) ∧
    Kept q none (T.unlink x k p) x (a ++ p :: b) := by
  have hassoc : ∀ c : List Nat, a ++ p :: c = (a ++ [p]) ++ c := fun c => by simp
  have hids := hl.ids
  have hpx : p ≠ x := fun heq => Nat.lt_irrefl x (heq ▸ (hids p (by simp)).1)
  have hnd := hl.chain.nodup
  have hself := unlink_self (T := T) (k := k) hpx
  have hmem : ∀ m, m ≠ x → m ≠ p → (T.unlink x k p).mem m = T.mem m := fun m hm hmp => by
    rw [unlink_other hm, if_neg hmp]
  have hp : (T.unlink x k p).mem p = { T.mem p with next := (T.mem k).next } := by rw [unlink_other hpx, if_pos rfl]
  have hnext : (T.mem k).next = b.head? := (Chain.after (a := a ++ [p]) (k := k) (hassoc (k :: b) ▸ hl.chain)).head.symm
  have hsub : ∀ i ∈ a ++ p :: b, i ∈ a ++ p :: k :: b := fun i hi => by
    simp only [List.mem_append, List.mem_cons] at hi ⊢
    rcases hi with hi | hi | hi
    · exact .inl hi
    · exact .inr (.inl hi)
    · exact .inr (.inr (.inr hi))
  have hix : ∀ i ∈ a ++ p :: b, i ≠ x := fun i hi heq => Nat.lt_irrefl x (heq ▸ (hids i (hsub i hi)).1)
  have hold : ∀ i ∈ a ++ p :: b, ∃ next, (T.unlink x k p).mem i = { T.mem i with next := next } := by
    intro i hi
    rw [unlink_other (hix i hi)]
    split
    · rename_i heq
      exact heq ▸ ⟨_, rfl⟩
    · exact ⟨_, rfl⟩
  have hlists : Lists (T.unlink x k p) x (a ++ p :: b) := by
    refine ⟨?_, ?_, fun i hi => ?_⟩
    · rw [hself]
      refine hl.chain.remove (by rw [hp]) fun i hi => ?_
      have hip : i ≠ p := by
        rintro rfl
        have := (List.nodup_middle.1 hnd).notMem
        exact this (by rcases List.mem_append.1 hi with hi | hi <;> simp [hi])
      rw [hmem i (hix i (by rcases List.mem_append.1 hi with hi | hi <;> simp [hi])) hip]
    · rw [hself]
      have htail := hl.tail
      cases hb : b.getLast? with
      | none =>
        obtain rfl : b = [] := List.getLast?_eq_none_iff.1 hb
        simp [htail]
      | some t =>
        have htl : (T.mem x).tail = some t := by rw [htail]; simp [List.getLast?_append, List.getLast?_cons, hb]
        have htk : t ≠ k := by
          rintro rfl
          have hnd' := (List.nodup_append.1 hnd).2.1
          exact (List.nodup_cons.1 (List.nodup_cons.1 hnd').2).1 (List.mem_of_getLast? hb)
        simp [htl, htk, List.getLast?_append, List.getLast?_cons, hb]
    · obtain ⟨next, hi'⟩ := hold i hi
      rw [hi']
      exact hl.parent i (hsub i hi)
  have hlast : (T.mem k).next = none → b = [] := fun hk => List.head?_eq_none_iff.1 (hnext.symm.trans hk)
  have hframe : ∀ m, m ≠ x → m ∉ a ++ p :: b → (T.unlink x k p).mem m = T.mem m :=
    fun m hmx hml => hmem m hmx fun heq => hml (by simp [heq])
  rw [hassoc (k :: b)] at hl ⊢
  rw [hassoc b] at hold hlists hframe ⊢
  obtain ⟨-, hkb, hak⟩ := List.pairwise_append.1 hl.order
  have hka : ∀ i ∈ a ++ [p], (T.mem k).type = .attr → (T.mem i).type = .attr := fun i hi => hak i hi k (.head _)
  refine hl.lose id (unlink_root T x k p).1 (unlink_root T x k p).2 hframe hself hold hlists ?_ ?_ ?_
  · rw [hl.hasAttr (by simp), exists_mem_middle]
    exact or_iff_left_of_imp fun hk => ⟨p, by simp, hka p (by simp) hk⟩
  · rintro ⟨i, hi, hchild⟩
    split
    · rename_i hcond
      obtain ⟨hknone, -, hpt⟩ := hcond
      rw [hlast hknone, List.append_nil] at hi
      have hpattr : (T.mem p).type = .attr := (hl.kinds p (by simp)).resolve_right hpt
      obtain ⟨hap, -⟩ := List.pairwise_append.1 hl.order
      rcases List.mem_append.1 hi with hi | hi
      · rw [(List.pairwise_append.1 hap).2.2 i hi p (by simp) hpattr] at hchild
        cases hchild
      · exact absurd (List.mem_singleton.1 hi ▸ hchild) hpt
    · exact hl.hasChild (exists_mem_middle.2 (.inl ⟨i, hi, hchild⟩))
  · intro hq hc
    split at hc
    · cases hc
    · rename_i hcond
      rcases exists_mem_middle.1 (hl.onlyChild hq hc) with hsome | hk
      · exact hsome
      by_cases hpt : (T.mem p).type = .child
      · exact ⟨p, by simp, hpt⟩
      · -- a node behind a child is a child
        cases b with
        | nil => exact absurd ⟨hnext, hk, hpt⟩ hcond
        | cons i b =>
          refine ⟨i, by simp, (hl.kinds i (by simp)).resolve_left fun hattr => ?_⟩
          rw [(List.pairwise_cons.1 hkb).1 i (.head _) hattr] at hk
          cases hk

theorem set_set (T : XmlTree) (n : Nat) (node node' : Node) : (T.set n node).set n node' = T.set n node' := by
  simp only [set, Function.update_idem]

theorem xmlDeleteChild_head (hparent : (T.mem k).parent = some x) (hchild : (T.mem x).child = some k) :
    T.xmlDeleteChild x k = (T.set x { T.mem x with
      child := (T.mem k).next
      tail := if (T.mem k).next = none then none else (T.mem x).tail
      hasAttr := if T.isAttr k ∧ (T.mem k).next.all (fun i => !T.isAttr i) then false else (T.mem x).hasAttr },
        true) := by
  unfold XmlTree.xmlDeleteChild
  rw [if_neg (not_not_intro hparent), if_pos hchild]
  cases (T.mem k).next with
  | none => by_cases hattr : T.isAttr k <;> simp [hattr, set_set]
  | some i => by_cases hattr : T.isAttr k <;> by_cases hi : T.isAttr i <;> simp [hattr, hi, set_set]

/-- The first node of a list is left out. -/
theorem Kept.unlinkHead (hl : Kept q none T x (k :: b)) {child tail : Option Nat} {hasAttr : Bool}
    (hT' : T' = T.set x { T.mem x with child := child, tail := tail, hasAttr := hasAttr }) (hchild : child = b.head?)
    (htail : tail = b.getLast?) (hattr : hasAttr = true ↔ ∃ i ∈ b, (T.mem i).type = .attr) :
    Relink (q ∧ ¬ Only T k (k :: b)) none T T' x (k :: b) b ∧ Kept (q ∧ ¬ Only T k (k :: b)) none T' x b := by
  have hix : ∀ i ∈ k :: b, i ≠ x := fun i hi heq => Nat.lt_irrefl x (heq ▸ (hl.ids i hi).1)
  have hmem : ∀ i, i ≠ x → T'.mem i = T.mem i := fun i hi => by rw [hT', set_mem, Function.update_of_ne hi]
  have hold : ∀ i ∈ b, T'.mem i = T.mem i := fun i hi => hmem i (hix i (.tail _ hi))
  have hself : T'.mem x = { T.mem x with child := child, tail := tail, hasChild := (T.mem x).hasChild, hasAttr := hasAttr } := by
    rw [hT', set_mem, Function.update_self]
  have hlists : Lists T' x b := by
    refine ⟨?_, ?_, fun i hi => ?_⟩
    · rw [hself, hchild, hl.chain.2.head]
      exact hl.chain.2.congr fun i hi => by rw [hold i hi]
    · rw [hself]
      exact htail
    · rw [hold i hi]
      exact hl.parent i (.tail _ hi)
  refine Kept.lose (a := []) hl And.left (by rw [hT', set_root]) (by rw [hT', set_num]) (fun m hm _ => hmem m hm) hself
    (fun i hi => ⟨_, hold i hi⟩) hlists hattr ?_ ?_
  · rintro ⟨i, hi, htype⟩
    exact hl.hasChild ⟨i, .tail _ hi, htype⟩
  · rintro ⟨hq, hnot⟩ hc
    obtain ⟨i, hi, htype⟩ := hl.onlyChild hq hc
    cases b with
    | nil => exact absurd ⟨rfl, List.mem_singleton.1 hi ▸ htype⟩ hnot
    | cons j b =>
      rcases List.mem_cons.1 hi with rfl | hi
      · -- a node behind a child is a child
        refine ⟨j, .head _, (hl.kinds j (by simp)).resolve_left fun hattr => ?_⟩
        rw [(List.pairwise_cons.1 hl.order).1 j (.head _) hattr] at htype
        cases htype
      · exact ⟨i, hi, htype⟩

theorem Kept.headFlag (hl : Kept q none T x (k :: b)) (hnext : (T.mem k).next = b.head?) :
    (if T.isAttr k ∧ (T.mem k).next.all (fun i => !T.isAttr i) then false else (T.mem x).hasAttr) = true ↔
      ∃ i ∈ b, (T.mem i).type = .attr := by
  obtain ⟨hbehind, horder⟩ := List.pairwise_cons.1 hl.order
  by_cases hk : (T.mem k).type = .attr
  · have hx : (T.mem x).hasAttr = true := (hl.hasAttr (by simp)).2 ⟨k, .head _, hk⟩
    rw [hnext, hx]
    cases b with
    | nil => simp [isAttr, hk]
    | cons i b =>
      by_cases hi : (T.mem i).type = .attr
      · simp [isAttr, hk, hi]
      · have hb : ∀ j ∈ b, (T.mem j).type ≠ .attr := fun j hj hattr => hi ((List.pairwise_cons.1 horder).1 j hj hattr)
        simp [isAttr, hk, hi]
        exact hb
  · have hx : ¬ (T.mem x).hasAttr = true := fun hx => by
      obtain ⟨i, hi, hattr⟩ := (hl.hasAttr (by simp)).1 hx
      rcases List.mem_cons.1 hi with rfl | hi
      · exact hk hattr
      · exact hk (hbehind i hi hattr)
    have hb : ∀ i ∈ b, (T.mem i).type ≠ .attr := fun i hi hattr => hk (hbehind i hi hattr)
    simp [isAttr, hk, hx]
    exact hb

theorem Kept.xmlDeleteChild (hl : Kept q none T x l) (hk : k ∈ l) :
    ∃ l', k ∉ l' ∧ (∀ i ∈ l', i ∈ l) ∧ Relink (q ∧ ¬ Only T k l) none T (T.xmlDeleteChild x k).1 x l l' ∧
      Kept (q ∧ ¬ Only T k l) none (T.xmlDeleteChild x k).1 x l' ∧ (T.xmlDeleteChild x k).1.mem k = T.mem k ∧
      (T.xmlDeleteChild x k).2 = true := by
  have hkx : k ≠ x := fun heq => Nat.lt_irrefl x (heq ▸ (hl.ids k hk).1)
  have hparent : (T.mem k).parent = some x := hl.parent k hk
  have hnd := hl.chain.nodup
  cases l with
  | nil => cases hk
  | cons p b =>
    have hchild : (T.mem x).child = some p := hl.chain.1
    rcases List.mem_cons.1 hk with rfl | hkb
    · have hnext : (T.mem k).next = b.head? := hl.chain.2.head.symm
      have hbehind := (List.pairwise_cons.1 hl.order).1
      rw [xmlDeleteChild_head hparent hchild]
      have htail : (if (T.mem k).next = none then none else (T.mem x).tail) = b.getLast? := by
        rw [hnext, hl.tail]
        cases b with
        | nil => rfl
        | cons i b => rw [List.head?_cons, if_neg (Option.some_ne_none i), List.getLast?_cons_cons]
      obtain ⟨hr, hk'⟩ := hl.unlinkHead rfl hnext htail (hl.headFlag hnext)
      exact ⟨b, (List.nodup_cons.1 hnd).1, fun i hi => .tail _ hi, hr, hk', Function.update_of_ne hkx _ _, rfl⟩
    · have hkp : p ≠ k := fun heq => (List.nodup_cons.1 hnd).1 (heq ▸ hkb)
      obtain ⟨a, c, rfl⟩ := List.append_of_mem hkb
      have hnone : ¬ (T.mem x).child = some k := fun heq => hkp (Option.some.inj (hchild.symm.trans heq))
      have hka : k ∉ a := fun hka => (List.nodup_middle.1 (List.nodup_cons.1 hnd).2).notMem (List.mem_append_left _ hka)
      have hlen := hl.length_le
      unfold XmlTree.xmlDeleteChild
      rw [if_neg (not_not_intro hparent), if_neg hnone, hchild]
      simp only
      rw [deleteLoop_eq (hchild ▸ hl.chain) hka (by simp only [List.length_cons, List.length_append] at hlen; omega)]
      obtain ⟨a', i, hai⟩ : ∃ a' i, p :: a = a' ++ [i] :=
        ⟨_, _, (List.dropLast_append_getLast (List.cons_ne_nil p a)).symm⟩
      have hi : (p :: a).getLast (List.cons_ne_nil p a) = i := by simp only [hai, List.getLast_concat]
      have hassoc : ∀ c : List Nat, p :: (a ++ c) = a' ++ i :: c := fun c => by
        rw [← List.cons_append, hai, List.append_assoc]
        rfl
      rw [hassoc] at hl hnd
      rw [hi, hassoc]
      obtain ⟨hr, hk'⟩ := hl.unlink
      have hnd' : (a' ++ [i] ++ k :: c).Nodup := by simpa using hnd
      have hnot := (List.nodup_middle.1 hnd').notMem
      have hki : k ≠ i := fun heq => hnot (by simp [heq])
      refine ⟨a' ++ i :: c, fun hk => hnot (by simpa using hk), fun m hm => ?_, hr.mono And.left, hk'.mono And.left, ?_,
        trivial⟩
      · simp only [List.mem_append, List.mem_cons] at hm ⊢
        rcases hm with hm | hm | hm
        · exact .inl hm
        · exact .inr (.inl hm)
        · exact .inr (.inr (.inr hm))
      · rw [unlink_other hkx, if_neg hki]

/-! ## Freeing -/

/-- A node, and the nodes that it comes to. -/
inductive Below (T : XmlTree) (k : Nat) : Nat → Prop
  | self : Below T k k
  | kid {m i : Nat} {l : List Nat} : Below T k m → Chain T.mem (T.mem m).child l → i ∈ l → Below T k i

/-- The loop of `xml_node_free` for `k` has changed the nodes of `D` alone, and its
pointers do not leave them. -/
structure Loose (D : Nat → Prop) (k : Nat) (T₀ T : XmlTree) : Prop where
  root : T.root = T₀.root
  num : T.num = T₀.num
  agree : ∀ m, ¬ D m → T.mem m = T₀.mem m
  child : ∀ m c, D m → (T.mem m).child = some c → D c ∧ c ≠ k
  next : ∀ m c, D m → m ≠ k → (T.mem m).next = some c → D c ∧ c ≠ k

namespace Loose

variable {D : Nat → Prop} {T₀ : XmlTree} {m : Nat} {s stack : List Nat} {curr : Nat}

theorem set (h : Loose D k T₀ T) (hm : D m) {node : Node} (hchild : ∀ c, node.child = some c → D c ∧ c ≠ k)
    (hnext : node.next = (T.mem m).next) : Loose D k T₀ (T.set m node) where
  root := h.root
  num := h.num
  agree i hi := by
    rw [set_mem, Function.update_of_ne fun heq : i = m => hi (heq ▸ hm)]
    exact h.agree i hi
  child i c hi hc := by
    by_cases him : i = m
    · rw [him, set_mem, Function.update_self] at hc
      exact hchild c hc
    · rw [set_mem, Function.update_of_ne him] at hc
      exact h.child i c hi hc
  next i c hi hik hc := by
    by_cases him : i = m
    · rw [him, set_mem, Function.update_self, hnext] at hc
      exact h.next m c hm (him ▸ hik) hc
    · rw [set_mem, Function.update_of_ne him] at hc
      exact h.next i c hi hik hc

theorem setTemp (h : Loose D k T₀ T) (hm : D m) (temp : Option Nat) :
    Loose D k T₀ (T.set m { T.mem m with temp := temp }) :=
  h.set hm (fun c hc => h.child m c hm hc) rfl

theorem freeOne (h : Loose D k T₀ T) (n : Nat) : Loose D k T₀ (T.xmlNodeFreeOne n) :=
  ⟨h.root, h.num, h.agree, h.child, h.next⟩

theorem attrFree (h : Loose D k T₀ T) (hm : D m) (htemp : ∀ c, (T.mem m).temp = some c → D c ∧ c ≠ k) (fuel : Nat) :
    Loose D k T₀ (T.xmlAttrFree m fuel) ∧ ∀ c, ((T.xmlAttrFree m fuel).mem m).temp = some c → D c ∧ c ≠ k := by
  induction fuel generalizing T with
  | zero => exact ⟨h, htemp⟩
  | succ fuel ih =>
    rw [xmlAttrFree]
    split
    · exact ⟨h, htemp⟩
    · rename_i child hchild
      obtain ⟨hD, hk⟩ := htemp child hchild
      split
      · refine ih ((h.setTemp hm _).freeOne child) fun c hc => ?_
        rw [xmlNodeFreeOne_mem, set_mem, Function.update_self] at hc
        exact h.next child c hD hk hc
      · refine ⟨h.set hm (fun c hc => Option.some.inj hc ▸ ⟨hD, hk⟩) rfl, fun c hc => ?_⟩
        rw [set_mem, Function.update_self] at hc
        exact htemp c hc

theorem freeUp (h : Loose D k T₀ T) (hs : ∀ m ∈ s, D m ∧ m ≠ k) :
    Loose D k T₀ (T.freeUp (s ++ [k])).1 ∧
      ∀ c, (T.freeUp (s ++ [k])).2.2 = some c → D c ∧ c ≠ k ∧ ∃ s', (T.freeUp (s ++ [k])).2.1 = s' ++ [k] ∧
      ∀ m ∈ s', D m ∧ m ≠ k := by
  induction s generalizing T with
  | nil =>
    rw [List.nil_append, XmlTree.freeUp, if_pos rfl]
    exact ⟨h.freeOne k, fun c hc => by cases hc⟩
  | cons top s ih =>
    have hs' : ∀ m ∈ s, D m ∧ m ≠ k := fun m hm => hs m (.tail _ hm)
    rw [List.cons_append, XmlTree.freeUp, if_neg (by simp)]
    split
    · rename_i c hc
      obtain ⟨hD, hk⟩ := hs top (.head _)
      obtain ⟨hDc, hck⟩ := h.next top c hD hk hc
      refine ⟨h.freeOne top, fun c' hc' => ?_⟩
      obtain rfl := Option.some.inj hc'
      exact ⟨hDc, hck, s, rfl, hs'⟩
    · exact ih (h.freeOne top) hs'

/-- The stack holds nodes of `D`, and `k` at its end alone. -/
theorem freeLoop (h : Loose D k T₀ T) (hk : D k) (hs : ∀ m ∈ s, D m ∧ m ≠ k) (heq : curr :: stack = s ++ [k])
    (fuel : Nat) : Loose D k T₀ (XmlTree.freeLoop fuel T stack curr).1 := by
  induction fuel generalizing T s stack curr with
  | zero => exact h
  | succ fuel ih =>
    have hcurr : D curr := by
      have hmem : curr ∈ s ++ [k] := heq ▸ .head _
      rcases List.mem_append.1 hmem with hm | hm
      · exact (hs curr hm).1
      · exact List.mem_singleton.1 hm ▸ hk
    rw [XmlTree.freeLoop]
    dsimp only
    split
    · exact h.setTemp hcurr _
    -- what the node's pointers come to, with its attributes and without
    have hattr : ∃ T₁, (if ((T.set curr { T.mem curr with temp := (T.mem curr).child }).mem curr).hasAttr = true then
        (T.set curr { T.mem curr with temp := (T.mem curr).child }).xmlAttrFree curr
          (T.set curr { T.mem curr with temp := (T.mem curr).child }).num
        else T.set curr { T.mem curr with temp := (T.mem curr).child }) = T₁ ∧
        Loose D k T₀ T₁ ∧ ∀ c, (T₁.mem curr).temp = some c → D c ∧ c ≠ k := by
      have htemp : ∀ c, ((T.set curr { T.mem curr with temp := (T.mem curr).child }).mem curr).temp = some c → D c ∧
          c ≠ k := by
        intro c hc
        rw [set_mem, Function.update_self] at hc
        exact h.child curr c hcurr hc
      split
      · exact ⟨_, rfl, (h.setTemp hcurr _).attrFree hcurr htemp _⟩
      · exact ⟨_, rfl, h.setTemp hcurr _, htemp⟩
    obtain ⟨T₁, hT₁, h₁, htemp₁⟩ := hattr
    rw [hT₁]
    have hnext : Loose D k T₀ (T₁.xmlFreeNext (curr :: stack) curr).1 ∧
        ∀ c, (T₁.xmlFreeNext (curr :: stack) curr).2.2 = some c →
          D c ∧ c ≠ k ∧ ∃ s', (T₁.xmlFreeNext (curr :: stack) curr).2.1 = s' ++ [k] ∧ ∀ m ∈ s', D m ∧ m ≠ k := by
      unfold xmlFreeNext
      split
      · rename_i child hchild
        refine ⟨h₁.setTemp hcurr _, fun c hc => ?_⟩
        obtain rfl := Option.some.inj hc
        exact ⟨(htemp₁ child hchild).1, (htemp₁ child hchild).2, s, heq, hs⟩
      · rw [heq]
        exact h₁.freeUp hs
    generalize T₁.xmlFreeNext (curr :: stack) curr = r at hnext
    obtain ⟨T₂, stack', next⟩ := r
    obtain ⟨h₂, hc⟩ := hnext
    cases next with
    | none => exact h₂
    | some c =>
      obtain ⟨hD, hck, s', rfl, hs'⟩ := hc c rfl
      exact ih h₂ (s := c :: s') (List.forall_mem_cons.2 ⟨⟨hD, hck⟩, hs'⟩) rfl

end Loose

theorem Inv.xmlNodeFree (h : Inv q none T) (hk : InTree T k) (hl : Kept q none T x l) (hx : InTree T x) (hkl : k ∈ l) :
    Inv (q ∧ ¬ Only T k l) none (T.xmlNodeFree k).1 := by
  obtain ⟨l', hkl', hsub, hr, hl', hkmem, hok⟩ := hl.xmlDeleteChild hkl
  have h' := h.relink And.left hx hl hr hl'
  have hparent : (T.mem k).parent = some x := hl.parent k hkl
  have hbelow : ∀ m, Below T k m → InTree T m ∧ k ≤ m := by
    intro m hm
    induction hm with
    | self => exact ⟨hk, Nat.le_refl k⟩
    | @kid m i li hm hc hi ih =>
      obtain ⟨lm, hlm⟩ := h.nodes m ih.1
      have hi' : i ∈ lm := hc.unique hlm.chain ▸ hi
      have := hlm.ids i hi'
      exact ⟨hlm.inTree ih.1 hi', by omega⟩
  have hup : ∀ m, Below T k m → m = k ∨ ∃ p lp, Below T k p ∧ Kept q none T p lp ∧ m ∈ lp := by
    intro m hm
    cases hm with
    | self => exact .inl rfl
    | @kid p m li hm hc hi =>
      obtain ⟨lp, hlp⟩ := h.nodes p (hbelow p hm).1
      exact .inr ⟨p, lp, hm, hlp, hc.unique hlp.chain ▸ hi⟩
  have hxk : x < k := (hl.ids k hkl).1
  have hxD : ¬ Below T k x := fun hm => by
    have := (hbelow x hm).2
    omega
  -- what is below the node has not changed
  have hsame : ∀ m, Below T k m → (T.xmlDeleteChild x k).1.mem m = T.mem m := by
    intro m hm
    by_cases hmk : m = k
    · rw [hmk, hkmem]
    · refine hr.frame m (h.inTree_lt (hbelow m hm).1) (fun heq => hxD (heq ▸ hm)) fun hml => ?_
      obtain ⟨p, lp, hp, hlp, hmp⟩ := (hup m hm).resolve_left hmk
      exact hxD (Option.some.inj ((hlp.parent m hmp).symm.trans (hl.parent m hml)) ▸ hp)
  -- and the tree does not come to it
  have hout : ∀ m, InTree (T.xmlDeleteChild x k).1 m → ¬ Below T k m := by
    intro m hm
    induction hm with
    | root =>
      intro hbm
      rw [hr.root] at hbm
      have hroot := h.root
      rcases hup T.root hbm with heq | ⟨p, lp, -, hlp, hmp⟩
      · rw [heq, hparent] at hroot
        cases hroot
      · rw [hlp.parent _ hmp] at hroot
        cases hroot
    | @kid p m lp hp hc hm ih =>
      intro hbm
      obtain ⟨lp', hlp'⟩ := h'.nodes p hp
      have hmp := hlp'.parent m (hc.unique hlp'.chain ▸ hm)
      rw [hsame m hbm] at hmp
      rcases hup m hbm with rfl | ⟨p', lp'', hbp, hlp'', hm''⟩
      · obtain rfl : x = p := Option.some.inj (hparent.symm.trans hmp)
        exact hkl' (hc.unique hl'.chain ▸ hm)
      · exact ih (Option.some.inj ((hlp''.parent m hm'').symm.trans hmp) ▸ hbp)
  have hloose : Loose (Below T k) k (T.xmlDeleteChild x k).1 (T.xmlDeleteChild x k).1 := by
    refine ⟨rfl, rfl, fun m _ => rfl, fun m c hm hc => ?_, fun m c hm hmk hc => ?_⟩
    · rw [hsame m hm] at hc
      obtain ⟨lm, hlm⟩ := h.nodes m (hbelow m hm).1
      have hcl : c ∈ lm := List.mem_of_head? (hlm.chain.head.trans hc)
      have := (hlm.ids c hcl).1
      have := (hbelow m hm).2
      exact ⟨.kid hm hlm.chain hcl, by omega⟩
    · rw [hsame m hm] at hc
      obtain ⟨p, lp, hp, hlp, hmp⟩ := (hup m hm).resolve_left hmk
      obtain ⟨a, b, rfl⟩ := List.append_of_mem hmp
      have hcb : c ∈ b := List.mem_of_head? (hlp.chain.after.head.trans hc)
      have hcl : c ∈ a ++ m :: b := by simp [hcb]
      have := (hlp.ids c hcl).1
      have := (hbelow p hp).2
      exact ⟨.kid hp hlp.chain hcl, by omega⟩
  unfold XmlTree.xmlNodeFree
  rw [hparent]
  dsimp only
  rw [if_pos hok]
  have hfree := hloose.freeLoop (s := []) .self (by simp) rfl (T.xmlDeleteChild x k).1.num
  exact (h'.of_agree hfree.root (Nat.le_of_eq hfree.num.symm) fun m hm => hfree.agree m (hout m hm)).1

end XmlTree

end BeehiveIm.Xml
