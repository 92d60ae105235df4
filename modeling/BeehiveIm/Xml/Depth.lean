/-
How deep a parse goes, and what it leaves of it. Each turn puts its node one level below the
node that is open, and an attribute below its node; the levels are those that
`xml_node_free` has on its stack.
-/
import BeehiveIm.Xml.Release

namespace BeehiveIm.Xml

open XmlTree

namespace XmlTree

variable {T T' T₁ : XmlTree} {lv : Nat → Nat} {o : Option Nat} {top x n : Nat} {type : NodeType}

/-! ## Levels -/

/-- A new node has come into the list of `top`. -/
structure Adds (T T' : XmlTree) (top : Nat) (type : NodeType) : Prop where
  root : T'.root = T.root
  num : T'.num = T.num + 1
  freed : T'.freed = T.freed
  new : (T'.mem T.num).type = type ∧ (T'.mem T.num).parent = some top ∧ (T'.mem T.num).child = none
  old : ∀ x < T.num, (T'.mem x).type = (T.mem x).type ∧ (T'.mem x).parent = (T.mem x).parent ∧
    (T'.mem x).hasAttr = (T.mem x).hasAttr ∧ (x ≠ top → (T'.mem x).child = (T.mem x).child)

/-- Nothing has changed that the levels depend on. -/
structure Alike (T T' : XmlTree) : Prop where
  root : T'.root = T.root
  num : T'.num = T.num
  freed : T'.freed = T.freed
  mem : ∀ x, (T'.mem x).type = (T.mem x).type ∧ (T'.mem x).parent = (T.mem x).parent ∧
    (T'.mem x).hasAttr = (T.mem x).hasAttr ∧ (T'.mem x).child = (T.mem x).child

theorem alike_set {node : Node} (htype : node.type = (T.mem n).type) (hparent : node.parent = (T.mem n).parent)
    (hattr : node.hasAttr = (T.mem n).hasAttr) (hchild : node.child = (T.mem n).child) : Alike T (T.set n node) := by
  refine ⟨rfl, rfl, rfl, fun x => ?_⟩
  by_cases hx : x = n
  · subst hx
    simp [htype, hparent, hattr, hchild]
  · simp [hx]

theorem Adds.alike (h : Adds T T₁ top type) (h' : Alike T₁ T') : Adds T T' top type where
  root := h'.root.trans h.root
  num := h'.num.trans h.num
  freed := h'.freed.trans h.freed
  new := by
    obtain ⟨htype, hparent, -, hchild⟩ := h'.mem T.num
    rw [htype, hparent, hchild]
    exact h.new
  old x hx := by
    obtain ⟨htype, hparent, hattr, hchild⟩ := h'.mem x
    rw [htype, hparent, hattr, hchild]
    exact h.old x hx

/-- The list of `top` gets a new node at its end. -/
theorem adds_linkTail (hm : More T T₁) (hnum : T₁.num = T.num + 1) (hfreed : T₁.freed = T.freed)
    (hnew : (T₁.mem T.num).type = type ∧ (T₁.mem T.num).child = none) (htop : top < T.num)
    (htail : ∀ t, (T.mem top).tail = some t → top < t ∧ t < T.num) : Adds T (T₁.linkTail top T.num) top type := by
  have hlink := linkTail_mem T₁ (Nat.ne_of_gt htop) fun t ht => by
    rw [hm.mem top htop] at ht
    have := htail t ht
    exact ⟨by omega, by omega⟩
  refine ⟨by rw [linkTail_root, hm.root], by rw [linkTail_num, hnum], ?_, ?_, fun x hx => ?_⟩
  · rw [← hfreed]
    unfold linkTail
    dsimp only
    split <;> rfl
  · rw [hlink, if_neg (Nat.ne_of_gt htop), if_pos rfl]
    exact ⟨hnew.1, rfl, hnew.2⟩
  · rw [hlink]
    by_cases hxt : x = top
    · subst hxt
      rw [if_pos rfl, hm.mem x hx]
      exact ⟨rfl, rfl, rfl, fun h => absurd rfl h⟩
    · rw [if_neg hxt, if_neg (Nat.ne_of_lt hx), hm.mem x hx]
      split <;> exact ⟨rfl, rfl, rfl, fun _ => rfl⟩

/-- A level for each node, one more than that of its parent; an attribute has no list, and its node
has a flag for it unless it is `o`. -/
structure Leveled (o : Option Nat) (T : XmlTree) (lv : Nat → Nat) : Prop where
  lt : T.root < T.num
  root : lv T.root = 0
  kind : (T.mem T.root).type ≠ .attr
  parent : ∀ x < T.num, ∀ p, (T.mem x).parent = some p → p < T.num ∧ lv x = lv p + 1
  attr : ∀ x < T.num, (T.mem x).type = .attr → (T.mem x).child = none ∧
    ∃ p, (T.mem x).parent = some p ∧ ((T.mem p).hasAttr = true ∨ o = some p)
  freed : T.freed = []

theorem Leveled.remains (hl : Leveled o T lv) : Remains T T :=
  ⟨rfl, fun _ _ => rfl, Nat.le_refl _, by rw [hl.freed, List.append_nil]⟩

theorem Leveled.alike (h : Leveled o T lv) (h' : Alike T T') : Leveled o T' lv where
  lt := by rw [h'.root, h'.num]; exact h.lt
  root := by rw [h'.root]; exact h.root
  kind := by rw [h'.root, (h'.mem _).1]; exact h.kind
  parent x hx p hp := by
    rw [h'.num] at hx ⊢
    exact h.parent x hx p ((h'.mem x).2.1 ▸ hp)
  attr x hx hattr := by
    rw [h'.num] at hx
    obtain ⟨hchild, p, hp, hf⟩ := h.attr x hx ((h'.mem x).1 ▸ hattr)
    rw [(h'.mem x).2.2.2, (h'.mem x).2.1]
    exact ⟨hchild, p, hp, by rwa [(h'.mem p).2.2.1]⟩
  freed := h'.freed.trans h.freed

theorem Leveled.adds (h : Leveled o T lv) (ha : Adds T T' top type) (htop : top < T.num)
    (hkind : (T.mem top).type ≠ .attr) (hnew : type = .attr → (T.mem top).hasAttr = true ∨ o = some top) :
    Leveled o T' (Function.update lv T.num (lv top + 1)) := by
  have hlt := h.lt
  have hlv : ∀ x < T.num, Function.update lv T.num (lv top + 1) x = lv x := fun x hx =>
    Function.update_of_ne (Nat.ne_of_lt hx) _ _
  refine ⟨by rw [ha.root, ha.num]; omega, by rw [ha.root, hlv _ hlt, h.root], ?_, fun x hx p hp => ?_,
    fun x hx hattr => ?_, ha.freed.trans h.freed⟩
  · rw [ha.root, (ha.old _ hlt).1]
    exact h.kind
  · rw [ha.num] at hx ⊢
    rcases Nat.lt_succ_iff_lt_or_eq.1 hx with hx | rfl
    · rw [(ha.old x hx).2.1] at hp
      obtain ⟨hpn, hxp⟩ := h.parent x hx p hp
      rw [hlv x hx, hlv p hpn]
      exact ⟨by omega, hxp⟩
    · rw [ha.new.2.1] at hp
      obtain rfl := Option.some.inj hp
      rw [Function.update_self, hlv _ htop]
      exact ⟨by omega, rfl⟩
  · rw [ha.num] at hx
    rcases Nat.lt_succ_iff_lt_or_eq.1 hx with hx | rfl
    · obtain ⟨htype, hparent, -, hchild⟩ := ha.old x hx
      rw [htype] at hattr
      obtain ⟨hc, p, hp, hf⟩ := h.attr x hx hattr
      have hxt : x ≠ top := by
        rintro rfl
        exact hkind hattr
      rw [hchild hxt, hparent]
      exact ⟨hc, p, hp, by rwa [(ha.old p (h.parent x hx p hp).1).2.2.1]⟩
    · rw [ha.new.2.1, ha.new.2.2]
      rw [ha.new.1] at hattr
      exact ⟨rfl, top, rfl, by rw [(ha.old top htop).2.2.1]; exact hnew hattr⟩

/-- The nodes that are pushed are above the level `h`, but for the attributes of `o`. -/
def Within (o : Option Nat) (T : XmlTree) (lv : Nat → Nat) (h : Nat) : Prop := ∀ x < T.num, x ≠ T.root →
  ((T.mem x).type = .attr → ∃ p, (T.mem x).parent = some p ∧ (T.mem p).hasAttr = false ∧ o ≠ some p) → lv x < h

variable {h : Nat} {o' : Option Nat}

theorem within_none : Within none T lv h ↔ ∀ x < T.num, x ≠ T.root → Pushed T x → lv x < h := by
  simp [Within, Pushed]

theorem Within.alike (h' : Alike T T') : Within o T' lv h ↔ Within o T lv h := by
  rw [Within, Within, h'.num, h'.root]
  refine forall_congr' fun x => imp_congr_right fun _ => imp_congr_right fun _ => ?_
  obtain ⟨htype, hparent, -, -⟩ := h'.mem x
  rw [htype, hparent]
  simp only [(h'.mem _).2.2.1]

/-- Where all flags are set, no attribute is pushed. -/
theorem Leveled.within_any (hl : Leveled none T lv) : Within o T lv h ↔ Within none T lv h := by
  have hnot : ∀ o' : Option Nat, ∀ x < T.num, (((T.mem x).type = .attr → ∃ p, (T.mem x).parent = some p ∧
      (T.mem p).hasAttr = false ∧ o' ≠ some p) ↔ (T.mem x).type ≠ .attr) := fun o' x hx => by
    refine ⟨fun hp hattr => ?_, fun hne hattr => absurd hattr hne⟩
    obtain ⟨p, hp, hf, -⟩ := hp hattr
    obtain ⟨-, p', hp', hf'⟩ := hl.attr x hx hattr
    obtain rfl : p = p' := Option.some.inj (hp.symm.trans hp')
    rw [hf] at hf'
    simp at hf'
  exact forall_congr' fun x => forall_congr' fun hx => by rw [hnot o x hx, hnot none x hx]

/-- A new node that is not pushed changes nothing, and one that is counts. -/
theorem Leveled.within_adds (hl : Leveled o T lv) (ha : Adds T T' top type) (htop : top < T.num) :
    Within o' T' (Function.update lv T.num (lv top + 1)) h ↔ Within o' T lv h ∧
      ((type = .attr → (T.mem top).hasAttr = false ∧ o' ≠ some top) → lv top + 1 < h) := by
  have hold : ∀ x < T.num, (((T'.mem x).type = .attr → ∃ p, (T'.mem x).parent = some p ∧ (T'.mem p).hasAttr = false ∧
      o' ≠ some p) ↔ ((T.mem x).type = .attr → ∃ p, (T.mem x).parent = some p ∧ (T.mem p).hasAttr = false ∧
        o' ≠ some p)) := fun x hx => by
    obtain ⟨htype, hparent, -, -⟩ := ha.old x hx
    rw [htype, hparent]
    refine imp_congr_right fun _ => exists_congr fun p => and_congr_right fun hp => ?_
    rw [(ha.old p (hl.parent x hx p hp).1).2.2.1]
  have hnew : ((T'.mem T.num).type = .attr → ∃ p, (T'.mem T.num).parent = some p ∧ (T'.mem p).hasAttr = false ∧
      o' ≠ some p) ↔ (type = .attr → (T.mem top).hasAttr = false ∧ o' ≠ some top) := by
    rw [ha.new.1, ha.new.2.1]
    simp [(ha.old top htop).2.2.1]
  have hlt := hl.lt
  constructor
  · intro hw
    refine ⟨fun x hx hne hp => ?_, fun hp => ?_⟩
    · have := hw x (by rw [ha.num]; omega) (by rwa [ha.root]) ((hold x hx).2 hp)
      rwa [Function.update_of_ne (Nat.ne_of_lt hx)] at this
    · have := hw T.num (by rw [ha.num]; omega) (by rw [ha.root]; omega) (hnew.2 hp)
      rwa [Function.update_self] at this
  · rintro ⟨hw, htop'⟩ x hx hne hp
    rw [ha.num] at hx
    rw [ha.root] at hne
    rcases Nat.lt_succ_iff_lt_or_eq.1 hx with hx | rfl
    · rw [Function.update_of_ne (Nat.ne_of_lt hx)]
      exact hw x hx hne ((hold x hx).1 hp)
    · rw [Function.update_self]
      exact htop' (hnew.1 hp)

/-- The flag for the attributes of a node is set. -/
theorem Leveled.close (hl : Leveled (some top) T lv) :
    Leveled none (T.set top { T.mem top with hasAttr := true }) lv ∧
      (Within none (T.set top { T.mem top with hasAttr := true }) lv h ↔ Within (some top) T lv h) := by
  obtain ⟨T', hT'⟩ : ∃ T', T' = T.set top { T.mem top with hasAttr := true } := ⟨_, rfl⟩
  have hmem : ∀ x, (T'.mem x).type = (T.mem x).type ∧ (T'.mem x).parent = (T.mem x).parent ∧
      (T'.mem x).child = (T.mem x).child ∧ (T'.mem x).hasAttr = if x = top then true else (T.mem x).hasAttr := by
    intro x
    by_cases hx : x = top
    · subst hx
      simp [hT']
    · simp [hT', hx]
  have hnum : T'.num = T.num := by rw [hT', set_num]
  have hroot : T'.root = T.root := by rw [hT', set_root]
  rw [← hT']
  constructor
  · refine ⟨by rw [hroot, hnum]; exact hl.lt, by rw [hroot]; exact hl.root, ?_, fun x hx p hp => ?_,
      fun x hx hattr => ?_, by rw [hT']; exact hl.freed⟩
    · rw [hroot, (hmem _).1]
      exact hl.kind
    · rw [hnum] at hx ⊢
      exact hl.parent x hx p ((hmem x).2.1 ▸ hp)
    · rw [hnum] at hx
      obtain ⟨hc, p, hp, hf⟩ := hl.attr x hx ((hmem x).1 ▸ hattr)
      rw [(hmem x).2.1, (hmem x).2.2.1]
      refine ⟨hc, p, hp, .inl ?_⟩
      rw [(hmem p).2.2.2]
      split
      · rfl
      · rename_i hne
        exact hf.resolve_right fun heq => hne (Option.some.inj heq).symm
  · rw [Within, Within, hnum, hroot]
    refine forall_congr' fun x => imp_congr_right fun hx => imp_congr_right fun hne => ?_
    rw [(hmem x).1, (hmem x).2.1]
    refine imp_congr_left (imp_congr_right fun _ => exists_congr fun p => and_congr_right fun _ => ?_)
    rw [(hmem p).2.2.2]
    by_cases hp : p = top
    · subst hp
      simp
    · simp [hp, Ne.symm hp]

end XmlTree

namespace Parse

variable {P P' Q : Parse} {T T' : XmlTree} {lv : Nat → Nat} {top : Nat} {l s : List Nat} {h : Nat}

/-- The open nodes are each one level below the one they are in. -/
def StackAt (lv : Nat → Nat) : List Nat → Prop
  | [] => True
  | n :: s => lv n = s.length + 1 ∧ StackAt lv s

theorem StackAt.congr {lv' : Nat → Nat} : ∀ {s : List Nat}, StackAt lv s → (∀ n ∈ s, lv' n = lv n) → StackAt lv' s
  | [], _, _ => trivial
  | n :: _, hs, heq => ⟨(heq n (.head _)).trans hs.1, hs.2.congr fun n hn => heq n (.tail _ hn)⟩

/-- What the parse keeps between two turns. -/
structure Ready (P : Parse) (lv : Nat → Nat) : Prop where
  good : Good False P
  all : ∀ x < P.xml.num, InTree P.xml x
  leveled : Leveled none P.xml lv
  stack : StackAt lv P.stack
  kinds : ∀ n ∈ P.stack, (P.xml.mem n).type ≠ .attr

/-- The node that is open, or the root. -/
theorem Ready.head (hr : Ready P lv) (htop : P.stack.headD P.xml.root = top) :
    InTree P.xml top ∧ top < P.xml.num ∧ (P.xml.mem top).type ≠ .attr ∧ lv top = P.stack.length := by
  subst htop
  have hin := hr.good.top_inTree
  refine ⟨hin, hr.good.inv.inTree_lt hin, ?_⟩
  cases hs : P.stack with
  | nil => exact ⟨hr.leveled.kind, hr.leveled.root⟩
  | cons n s =>
    have hstack := hr.stack
    rw [hs] at hstack
    exact ⟨hr.kinds n (hs ▸ .head _), hstack.1⟩

theorem Ready.adds_linked (hr : Ready P lv) : Adds P.xml P.linked (P.stack.headD P.xml.root) .child := by
  obtain ⟨hin, hlt, -, -⟩ := hr.head rfl
  obtain ⟨l, hl⟩ := hr.good.inv.nodes _ hin
  have hadds : Adds P.xml ((P.xml.xmlNodeCreat .child).linkTail (P.stack.headD P.xml.root) P.xml.num)
      (P.stack.headD P.xml.root) .child :=
    adds_linkTail (more_node P.xml .child) rfl rfl (by simp [xmlNodeCreat, xmlNodeInit]) hlt
      fun t ht => hl.ids t (hl.tail_mem ht)
  exact hadds.alike (alike_set rfl rfl rfl rfl)

/-- A tree in which the node that a mark makes is linked, where the levels of the others are as
before. -/
structure Made (P : Parse) (lv : Nat → Nat) (T : XmlTree) (lv' : Nat → Nat) : Prop where
  all : ∀ x < T.num, InTree T x
  leveled : Leveled none T lv'
  same : ∀ x < P.xml.num, lv' x = lv x ∧ (T.mem x).type = (P.xml.mem x).type
  new : lv' P.xml.num = P.stack.length + 1 ∧ (T.mem P.xml.num).type = .child

theorem grows_all (hall : ∀ x < T.num, InTree T x) (hg : Grows T T') : ∀ x < T'.num, InTree T' x := fun x hx => by
  by_cases hx' : x < T.num
  · exact hg.old x (hall x hx')
  · exact hg.new x (Nat.not_lt.1 hx') hx

/-- A new node is one level below the one that is open. -/
theorem Ready.linked (hr : Ready P lv) : ∃ lv', Made P lv P.linked lv' ∧
    (Within none P.linked lv' h ↔ Within none P.xml lv h ∧ P.stack.length + 1 < h) := by
  obtain ⟨-, hlt, hkind, hlv⟩ := hr.head rfl
  obtain ⟨-, hgrow, -⟩ := hr.good.linked
  have ha := hr.adds_linked
  have hw : Within none P.linked _ h ↔ _ := hr.leveled.within_adds ha hlt
  have hadd := hr.leveled.adds ha hlt hkind fun hc => by cases hc
  rw [hlv] at hw hadd
  refine ⟨_, ⟨grows_all hr.all hgrow, hadd, fun x hx => ?_, ?_, ha.new.1⟩,
    hw.trans (and_congr_right fun _ => ⟨fun hc => hc (fun hc => by cases hc), fun hc _ => hc⟩)⟩
  · exact ⟨Function.update_of_ne (Nat.ne_of_lt hx) _ _, (ha.old x hx).1⟩
  · rw [Function.update_self]

/-- So is one with a name. -/
theorem Ready.named (hr : Ready P lv) {name : List Char}
    (hT : T = P.linked.set P.xml.num { P.linked.mem P.xml.num with name := name }) : ∃ lv', Made P lv T lv' ∧
      (Within none T lv' h ↔ Within none P.xml lv h ∧ P.stack.length + 1 < h) := by
  obtain ⟨lv', hm, hw⟩ := hr.linked (h := h)
  have hal : Alike P.linked T := hT ▸ alike_set rfl rfl rfl rfl
  refine ⟨lv', ⟨grows_all hr.all (hr.good.named hT).2.1, hm.leveled.alike hal, fun x hx => ?_, ?_⟩,
    (Within.alike hal).trans hw⟩
  · rw [(hal.mem x).1]
    exact hm.same x hx
  · rw [(hal.mem _).1]
    exact hm.new

/-- The name has been read: the node that is open is new. -/
structure Named (P : Parse) (lv : Nat → Nat) (n : Nat) (s : List Nat) : Prop extends Ready P lv where
  open_eq : P.stack = n :: s
  nil : Kept False none P.xml n []

theorem Ready.xmlMarkGetName (hr : Ready P lv) (hget : P.xmlMarkGetName = some P') :
    ∃ lv', Named P' lv' P.xml.num P.stack ∧
      (Within none P'.xml lv' h ↔ Within none P.xml lv h ∧ P.stack.length + 1 < h) := by
  obtain ⟨hgood, -, hnil⟩ := hr.good.xmlMarkGetName hget
  obtain ⟨hxml, hstack, -, -⟩ := xmlMarkGetName_eq hget
  obtain ⟨lv', hm, hw⟩ := hr.named (h := h) hxml
  have hin : ∀ n ∈ P.stack, n < P.xml.num := fun n hn => hr.good.inv.inTree_lt (hr.good.stack n hn)
  refine ⟨lv', ⟨⟨hgood, hm.all, hm.leveled, ?_, fun n hn => ?_⟩, hstack, hnil⟩, hw⟩
  · rw [hstack]
    exact ⟨hm.new.1, hr.stack.congr fun n hn => (hm.same n (hin n hn)).1⟩
  · rw [hstack] at hn
    rcases List.mem_cons.1 hn with rfl | hn
    · rw [hm.new.2]
      simp
    · rw [(hm.same n (hin n hn)).2]
      exact hr.kinds n hn

/-- The attributes of a node are being read. -/
structure Attrs (T : XmlTree) (top : Nat) (l : List Nat) (lv : Nat → Nat) : Prop where
  reading : Reading T top l
  all : ∀ x < T.num, InTree T x
  leveled : Leveled (some top) T lv
  kind : (T.mem top).type ≠ .attr
  flag : (T.mem top).hasAttr = false

/-- A new attribute -/
theorem Attrs.add (ha : Attrs T top l lv) (name value : List Char)
    (hT' : T' = ((T.xmlNodeCreat .attr).set T.num { (T.xmlNodeCreat .attr).mem T.num with
      name := name, value := some value }).linkTail top T.num) :
    Attrs T' top (l ++ [T.num]) (Function.update lv T.num (lv top + 1)) ∧ Adds T T' top .attr ∧
      (Within (some top) T' (Function.update lv T.num (lv top + 1)) h ↔ Within (some top) T lv h) ∧
      (Within none T' (Function.update lv T.num (lv top + 1)) h ↔ Within none T lv h ∧ lv top + 1 < h) := by
  obtain ⟨hread, hgrow⟩ := ha.reading.add name value
  have htop := ha.reading.inv.inTree_lt ha.reading.inTree
  have hadds : Adds T T' top .attr := hT' ▸ adds_linkTail (more_creat T .attr _) rfl rfl
    (by simp [xmlNodeCreat, xmlNodeInit]) htop fun t ht => ha.reading.kept.ids t (ha.reading.kept.tail_mem ht)
  rw [← hT'] at hread hgrow
  refine ⟨⟨hread, grows_all ha.all hgrow, ha.leveled.adds hadds htop ha.kind fun _ => .inr rfl, ?_, ?_⟩, hadds,
    ?_, ?_⟩
  · rw [(hadds.old top htop).1]
    exact ha.kind
  · rw [(hadds.old top htop).2.2.1]
    exact ha.flag
  · rw [ha.leveled.within_adds hadds htop]
    simp
  · rw [ha.leveled.within_adds hadds htop]
    simp [ha.flag]

theorem Attrs.loop {fuel : Nat} {ptr ptr' : List Char} (ha : Attrs T top l lv)
    (hloop : attrLoop top fuel T ptr = some (T', ptr')) : ∃ l' lv', Attrs T' top l' lv' ∧
      (∀ x < T.num, lv' x = lv x ∧ (T'.mem x).type = (T.mem x).type) ∧
      (Within (some top) T' lv' h ↔ Within (some top) T lv h) := by
  induction fuel generalizing T l lv ptr with
  | zero => cases hloop
  | succ fuel ih =>
    rw [attrLoop] at hloop
    split at hloop
    · cases hloop
    rename_i name value rest htext
    dsimp only at hloop
    obtain ⟨hadd, hadds, hw, -⟩ := ha.add (h := h) name value rfl
    have hsame : ∀ x < T.num, Function.update lv T.num (lv top + 1) x = lv x := fun x hx =>
      Function.update_of_ne (Nat.ne_of_lt hx) _ _
    split at hloop
    · obtain ⟨l', lv', ha', hsame', hw'⟩ := ih hadd hloop
      refine ⟨l', lv', ha', fun x hx => ?_, hw'.trans hw⟩
      obtain ⟨hlv, htype⟩ := hsame' x (by rw [hadds.num]; omega)
      exact ⟨hlv.trans (hsame x hx), htype.trans (hadds.old x hx).1⟩
    · obtain ⟨rfl, -⟩ := Prod.mk.inj (Option.some.inj hloop)
      exact ⟨_, _, hadd, fun x hx => ⟨hsame x hx, (hadds.old x hx).1⟩, hw⟩

/-- The attribute that fails is freed. -/
theorem remains_failed (hfreed : T.freed = []) (name : List Char) :
    Remains T (((T.xmlNodeCreat .attr).set T.num { (T.xmlNodeCreat .attr).mem T.num with name := name }).xmlNodeFree
      T.num).1 := by
  obtain ⟨T₁, hT₁⟩ : ∃ T₁, T₁ = (T.xmlNodeCreat .attr).set T.num
    { (T.xmlNodeCreat .attr).mem T.num with name := name } := ⟨_, rfl⟩
  have hmem : ∀ x < T.num, T₁.mem x = T.mem x := fun x hx => by
    simp [hT₁, xmlNodeCreat, Nat.ne_of_lt hx]
  have hnew : T₁.mem T.num = { xmlNodeInit .attr with name := name } := by simp [hT₁, xmlNodeCreat]
  have hnum : T₁.num = T.num + 1 := by rw [hT₁]; rfl
  have hfree : T₁.xmlNodeFree T.num =
      ((T₁.set T.num { T₁.mem T.num with temp := none }).xmlNodeFreeOne T.num, true) := by
    rw [xmlNodeFree, hnew]
    simp only [xmlNodeInit, hnum, freeLoop, hnew, set_mem, Function.update_self, List.length_nil, XML_MAX_DEPTH]
    simp [xmlFreeNext, freeUp]
  rw [← hT₁, hfree]
  refine ⟨by rw [hT₁]; rfl, fun x hx => ?_, ?_, ?_⟩
  · simp [Nat.ne_of_lt hx, hmem x hx]
  · show T.num ≤ T₁.num
    omega
  · show (List.range T.num ++ T.num :: T₁.freed).Perm (List.range T₁.num)
    rw [show T₁.freed = T.freed by rw [hT₁]; rfl, hfreed, hnum, List.range_succ]

/-- What the loop over the attributes leaves where it fails. -/
theorem Attrs.left (ha : Attrs T top l lv) (h fuel : Nat) (ptr : List Char) : ∃ T₀ l' lv', Attrs T₀ top l' lv' ∧
    Remains T₀ (attrLeft top fuel T ptr) ∧
    (Within none T₀ lv' h ↔ Within none T lv h ∧ (fuel ≠ 0 → attrText ptr ≠ none → lv top + 1 < h)) := by
  induction fuel generalizing T l lv ptr with
  | zero =>
    refine ⟨T, l, lv, ha, ⟨rfl, fun _ _ => rfl, Nat.le_refl _, ?_⟩, by simp⟩
    rw [attrLeft, ha.leveled.freed, List.append_nil]
  | succ fuel ih =>
    rw [attrLeft]
    cases htext : attrText ptr with
    | none => exact ⟨T, l, lv, ha, remains_failed ha.leveled.freed _, by simp⟩
    | some r =>
      obtain ⟨name, value, rest⟩ := r
      have htop := ha.reading.inv.inTree_lt ha.reading.inTree
      obtain ⟨hadd, -, -, hw⟩ := ha.add (h := h) name value rfl
      have hsame : Function.update lv T.num (lv top + 1) top = lv top := Function.update_of_ne (Nat.ne_of_lt htop) _ _
      dsimp only
      split
      · obtain ⟨T₀, l', lv', ha', hT₀, hw'⟩ := ih hadd _
        refine ⟨T₀, l', lv', ha', hT₀, hw'.trans ?_⟩
        rw [hw, hsame]
        simp only [ne_eq, Nat.add_one_ne_zero, not_false_eq_true, reduceCtorEq, forall_const]
        tauto
      · refine ⟨_, _, _, hadd, ⟨rfl, fun _ _ => rfl, Nat.le_refl _, ?_⟩, ?_⟩
        · rw [hadd.leveled.freed, List.append_nil]
        · rw [hw]
          simp

theorem Named.attrs (hn : Named P lv top s) : Attrs P.xml top [] lv := by
  have hin := hn.good.stack top (hn.open_eq ▸ .head _)
  have hl := hn.leveled
  have hflag : (P.xml.mem top).hasAttr = false := by simpa using hn.nil.hasAttr (by simp)
  refine ⟨⟨hn.good.inv.opened _, hin, hn.nil.opened _, fun k hk => by cases hk⟩, hn.all,
    ⟨hl.lt, hl.root, hl.kind, hl.parent, fun x hx hattr => ?_, hl.freed⟩, hn.kinds top (hn.open_eq ▸ .head _), hflag⟩
  obtain ⟨hc, p, hp, hf⟩ := hl.attr x hx hattr
  exact ⟨hc, p, hp, .inl (hf.resolve_right (by simp))⟩

theorem xmlMarkGetAttr_eq (hs : P.stack = top :: s) (hget : P.xmlMarkGetAttr = some P') : ∃ T ptr,
    attrLoop top (P.ptr.length + 1) P.xml P.ptr = some (T, ptr) ∧
      P' = { P with xml := T.set top { T.mem top with hasAttr := true }, ptr := ptr } := by
  unfold Parse.xmlMarkGetAttr at hget
  split at hget
  · cases hget
  · rename_i top' s' hs'
    obtain ⟨rfl, -⟩ := List.cons.inj (hs'.symm.trans hs)
    split at hget
    · cases hget
    · rename_i T ptr hloop
      exact ⟨T, ptr, hloop, (Option.some.inj hget).symm⟩

theorem Named.xmlMarkGetAttr (hn : Named P lv top s) (hget : P.xmlMarkGetAttr = some P') : ∃ lv', Ready P' lv' ∧
    (Within none P'.xml lv' h ↔ Within none P.xml lv h) := by
  obtain ⟨hgood, hgrow⟩ := hn.good.xmlMarkGetAttr hn.open_eq hn.nil hget
  obtain ⟨T, ptr, hloop, rfl⟩ := xmlMarkGetAttr_eq hn.open_eq hget
  obtain ⟨l', lv', ha, hsame, hw⟩ := hn.attrs.loop (h := h) hloop
  obtain ⟨hclose, hw'⟩ := ha.leveled.close (h := h)
  have hin : ∀ n ∈ P.stack, n < P.xml.num := fun n hn' => hn.good.inv.inTree_lt (hn.good.stack n hn')
  refine ⟨lv', ⟨hgood, grows_all hn.all hgrow, hclose, hn.stack.congr fun n hn' => (hsame n (hin n hn')).1,
    fun n hn' => ?_⟩, (hw'.trans hw).trans hn.leveled.within_any⟩
  have htype : ((T.set top { T.mem top with hasAttr := true }).mem n).type = (T.mem n).type := by
    by_cases hnt : n = top
    · subst hnt
      simp
    · simp [hnt]
  rw [htype, (hsame n (hin n hn')).2]
  exact hn.kinds n hn'

theorem Ready.markRest (hr : Ready P lv) (hrest : P.markRest = some P') : Ready P' lv ∧
    (Within none P'.xml lv h ↔ Within none P.xml lv h) := by
  obtain ⟨hgood, hgrow⟩ := hr.good.markRest hrest
  have hall := grows_all hr.all hgrow
  unfold Parse.markRest at hrest
  split at hrest
  · obtain rfl := Option.some.inj hrest
    refine ⟨⟨hgood, hall, hr.leveled, ?_, fun n hn => hr.kinds n (List.mem_of_mem_tail hn)⟩, Iff.rfl⟩
    have hstack := hr.stack
    cases hs : P.stack with
    | nil => exact trivial
    | cons n s =>
      rw [hs] at hstack
      exact hstack.2
  · split at hrest
    · dsimp only at hrest
      split at hrest
      · obtain rfl := Option.some.inj hrest
        exact ⟨⟨hgood, hall, hr.leveled, hr.stack, hr.kinds⟩, Iff.rfl⟩
      · unfold Parse.xmlMarkGetValue at hrest
        split at hrest
        · cases hrest
        · split at hrest
          · cases hrest
          · obtain rfl := Option.some.inj hrest
            rename_i curr stack hs _ value ptr htext
            have hal : Alike P.xml (P.xml.set curr { P.xml.mem curr with value := some value, hasValue := true }) :=
              alike_set rfl rfl rfl rfl
            refine ⟨⟨hgood, hall, hr.leveled.alike hal, hr.stack, fun n hn => ?_⟩, Within.alike hal⟩
            rw [(hal.mem n).1]
            exact hr.kinds n hn
    · cases hrest

theorem Ready.with_ptr (hr : Ready P lv) (ptr : List Char) : Ready { P with ptr := ptr } lv :=
  ⟨⟨hr.good.inv, hr.good.stack⟩, hr.all, hr.leveled, hr.stack, hr.kinds⟩

theorem Named.with_ptr (hn : Named P lv top s) (ptr : List Char) : Named { P with ptr := ptr } lv top s :=
  ⟨hn.toReady.with_ptr ptr, hn.open_eq, hn.nil⟩

/-! ## What is left is released -/

variable {o : Option Nat} {T₀ : XmlTree}

/-- What is left of a tree with levels is released just if they are not too deep. -/
theorem releases_leveled (h : Inv False o T₀) (hall : ∀ x < T₀.num, InTree T₀ x) (hl : Leveled o T₀ lv)
    (hT : Remains T₀ T) : Releases T ↔ Within none T₀ lv XML_MAX_DEPTH := by
  rw [within_none]
  refine releases_iff h (fun x hx hattr => (hl.attr x (h.inTree_lt hx) hattr).1) hall hl.root (fun x hx p hp => ?_) hT
  exact (hl.parent x (h.inTree_lt hx) p hp).2

theorem Ready.releases (hr : Ready P lv) : Releases P.xml ↔ Within none P.xml lv XML_MAX_DEPTH :=
  releases_leveled hr.good.inv hr.all hr.leveled hr.leveled.remains

/-- A mark whose name fails leaves its node. -/
theorem Ready.nameLeft (hr : Ready P lv) :
    Releases P.nameLeft ↔ Within none P.xml lv XML_MAX_DEPTH ∧ P.stack.length + 1 < XML_MAX_DEPTH := by
  have hleft : P.nameLeft = P.linked ∨
      P.nameLeft = P.linked.set P.xml.num { P.linked.mem P.xml.num with name := P.ptr.takeWhile xmlIsMarkChar } := by
    unfold Parse.nameLeft
    dsimp only
    split
    · exact .inr rfl
    · exact .inl rfl
  rcases hleft with hleft | hleft
  · obtain ⟨lv', hm, hw⟩ := hr.linked (h := XML_MAX_DEPTH)
    rw [hleft, ← hw]
    exact releases_leveled hr.good.linked.1 hm.all hm.leveled hm.leveled.remains
  · obtain ⟨lv', hm, hw⟩ := hr.named (h := XML_MAX_DEPTH) hleft
    rw [← hw]
    exact releases_leveled (hr.good.named hleft).1 hm.all hm.leveled hm.leveled.remains

/-- A mark that fails behind its name leaves its node, and attributes. -/
theorem Named.namedLeft (hn : Named P lv top s) : Releases P.namedLeft ↔ Within none P.xml lv XML_MAX_DEPTH ∧
    (P.xmlMarkHasAttr ∧ { P with ptr := skip P.ptr }.xmlMarkGetAttr = none ∧ attrText (skip P.ptr) ≠ none →
      s.length + 2 < XML_MAX_DEPTH) := by
  unfold Parse.namedLeft
  dsimp only
  by_cases hattr : P.xmlMarkHasAttr
  · rw [if_pos hattr]
    cases hget : { P with ptr := skip P.ptr }.xmlMarkGetAttr with
    | none =>
      obtain ⟨T₀, l', lv', ha, hT, hw⟩ := hn.attrs.left XML_MAX_DEPTH ((skip P.ptr).length + 1) (skip P.ptr)
      have hlv : lv top + 1 = s.length + 2 := by
        have hstack := hn.stack
        rw [hn.open_eq] at hstack
        rw [hstack.1]
      rw [hn.open_eq]
      refine (releases_leveled ha.reading.inv ha.all ha.leveled hT).trans ?_
      rw [hw, hlv]
      simp [hattr]
    | some Q =>
      obtain ⟨lv', hQ, hw⟩ := (hn.with_ptr (skip P.ptr)).xmlMarkGetAttr (h := XML_MAX_DEPTH) hget
      refine (hQ.releases.trans hw).trans ?_
      simp
  · rw [if_neg hattr, hn.toReady.releases]
    simp [hattr]

/-- What a turn does: at a mark, a node comes in, and elsewhere none. -/
theorem turn_cases (P : Parse) :
    (P.level = 0 ∧ P.turnLeft = P.xml ∧ ∀ P', P.turn = some P' →
      P'.xml = P.xml ∧ (P'.stack = P.stack ∨ P'.stack = P.stack.tail)) ∨
    P.turn = P.xmlParseMark ∧
      ({ P with ptr := P.ptr.drop 1 }.xmlMarkGetName = none → P.level = P.stack.length + 1 ∧
        P.turnLeft = { P with ptr := P.ptr.drop 1 }.nameLeft) ∧
      ∀ Q, { P with ptr := P.ptr.drop 1 }.xmlMarkGetName = some Q →
        P.level = (if Q.xmlMarkHasAttr ∧ { Q with ptr := skip Q.ptr }.xmlMarkGetAttr = none ∧
          attrText (skip Q.ptr) ≠ none then P.stack.length + 2 else P.stack.length + 1) ∧ P.turnLeft = Q.namedLeft := by
  unfold level turnLeft
  split
  · rename_i heq
    refine .inl ⟨rfl, rfl, fun P' hturn => ?_⟩
    simp only [turn, heq] at hturn
    obtain ⟨ptr, -, rfl⟩ := Option.map_eq_some_iff.1 hturn
    exact ⟨rfl, .inl rfl⟩
  · rename_i heq
    refine .inl ⟨rfl, rfl, fun P' hturn => ?_⟩
    simp only [turn, heq] at hturn
    obtain ⟨ptr, -, rfl⟩ := Option.map_eq_some_iff.1 hturn
    exact ⟨rfl, .inl rfl⟩
  · rename_i heq
    refine .inl ⟨rfl, rfl, fun P' hturn => ?_⟩
    simp only [turn, heq] at hturn
    unfold Parse.xmlParseEnd at hturn
    dsimp only at hturn
    split at hturn
    · split at hturn
      · rename_i hs
        split at hturn
        · obtain rfl := Option.some.inj hturn
          exact ⟨rfl, .inr (by rw [hs, List.tail_cons])⟩
        · cases hturn
      · cases hturn
    · cases hturn
  · rename_i ptr h1 h2 h3 heq
    refine .inr ⟨?_, ?_⟩
    · unfold turn
      split
      · rename_i heq'
        exact (h1 _ (List.cons.inj (heq.symm.trans heq')).2).elim
      · rename_i heq'
        exact (h2 _ (List.cons.inj (heq.symm.trans heq')).2).elim
      · rename_i heq'
        exact (h3 _ (List.cons.inj (heq.symm.trans heq')).2).elim
      · rfl
      · rename_i hnot
        exact (hnot ptr heq).elim
    · have hdrop : P.ptr.drop 1 = ptr := by rw [heq, List.drop_succ_cons, List.drop_zero]
      rw [hdrop]
      cases hname : { P with ptr := ptr }.xmlMarkGetName with
      | none => simp [hname]
      | some Q => simp [hname]
  · rename_i h1 h2 h3 h4
    refine .inl ⟨rfl, rfl, fun P' hturn => ?_⟩
    unfold turn at hturn
    split at hturn <;> simp_all

/-- One turn: the levels of the tree, and how deep the turn goes. -/
theorem Ready.turn (hr : Ready P lv) (hturn : P.turn = some P') : ∃ lv', Ready P' lv' ∧
    (Within none P'.xml lv' XML_MAX_DEPTH ↔ Within none P.xml lv XML_MAX_DEPTH ∧ P.level < XML_MAX_DEPTH) := by
  obtain ⟨hgood, hgrow⟩ := hr.good.turn hturn
  rcases turn_cases P with ⟨hlevel, -, hsame⟩ | ⟨hmark, -, hnamed⟩
  · obtain ⟨hxml, hstack⟩ := hsame P' hturn
    have htail : StackAt lv P.stack.tail ∧ ∀ n ∈ P.stack.tail, (P.xml.mem n).type ≠ .attr := by
      have hs := hr.stack
      have hk := hr.kinds
      cases hP : P.stack with
      | nil => exact ⟨trivial, fun n hn => by cases hn⟩
      | cons n s =>
        rw [hP] at hs hk
        exact ⟨hs.2, fun m hm => hk m (.tail _ hm)⟩
    refine ⟨lv, ⟨hgood.mono False.elim, hxml ▸ hr.all, hxml ▸ hr.leveled, ?_, ?_⟩, ?_⟩
    · rcases hstack with hstack | hstack <;> rw [hstack]
      · exact hr.stack
      · exact htail.1
    · rcases hstack with hstack | hstack <;> rw [hstack, hxml]
      · exact hr.kinds
      · exact htail.2
    · rw [hxml, hlevel]
      simp [XML_MAX_DEPTH]
  · rw [hmark] at hturn
    unfold xmlParseMark at hturn
    split at hturn
    · cases hturn
    rename_i Q hname
    obtain ⟨lv₁, hn, hw⟩ := (hr.with_ptr (P.ptr.drop 1)).xmlMarkGetName (h := XML_MAX_DEPTH) hname
    have hlevel := (hnamed Q hname).1
    dsimp only at hturn hw
    split at hturn
    · obtain ⟨R, hget, hrest⟩ := Option.bind_eq_some_iff.1 hturn
      obtain ⟨lv₂, hR, hw'⟩ := (hn.with_ptr (skip Q.ptr)).xmlMarkGetAttr (h := XML_MAX_DEPTH) hget
      obtain ⟨hP', hw''⟩ := hR.markRest (h := XML_MAX_DEPTH) hrest
      rw [if_neg (by simp [hget])] at hlevel
      rw [hlevel]
      exact ⟨lv₂, hP', (hw''.trans hw').trans hw⟩
    · rename_i hattr
      obtain ⟨hP', hw'⟩ := (hn.toReady.with_ptr (skip Q.ptr)).markRest (h := XML_MAX_DEPTH) hturn
      rw [if_neg (by simp [hattr])] at hlevel
      rw [hlevel]
      exact ⟨lv₁, hP', hw'.trans hw⟩

/-- Where a turn fails, what is left is released just if it is not too deep. -/
theorem Ready.turnLeft (hr : Ready P lv) :
    Releases P.turnLeft ↔ Within none P.xml lv XML_MAX_DEPTH ∧ P.level < XML_MAX_DEPTH := by
  rcases turn_cases P with ⟨hlevel, hleft, -⟩ | ⟨hmark, hunnamed, hnamed⟩
  · rw [hleft, hlevel, hr.releases]
    simp [XML_MAX_DEPTH]
  · cases hname : { P with ptr := P.ptr.drop 1 }.xmlMarkGetName with
    | none =>
      obtain ⟨hlevel, hleft⟩ := hunnamed hname
      rw [hlevel, hleft]
      exact (hr.with_ptr (P.ptr.drop 1)).nameLeft
    | some Q =>
      obtain ⟨hlevel, hleft⟩ := hnamed Q hname
      obtain ⟨lv₁, hn, hw⟩ := (hr.with_ptr (P.ptr.drop 1)).xmlMarkGetName (h := XML_MAX_DEPTH) hname
      rw [hleft, hlevel, hn.namedLeft, hw, and_assoc]
      refine and_congr_right fun _ => ?_
      dsimp only
      split
      · rename_i hattr
        refine ⟨fun hc => hc.2 hattr, fun hc => ⟨?_, fun _ => hc⟩⟩
        omega
      · rename_i hattr
        exact ⟨And.left, fun hc => ⟨hc, fun hc' => absurd hc' hattr⟩⟩

/-- What a parse leaves is released just if no turn of it goes too deep. -/
theorem Ready.loop {total len fuel : Nat} {ok : Bool} (hr : Ready P lv)
    (hloop : loopTree total len fuel P = some (T, ok)) : Releases T ↔ Within none P.xml lv XML_MAX_DEPTH ∧
      ∀ Q ∈ turns total len fuel P, Q.level < XML_MAX_DEPTH := by
  induction fuel generalizing P lv with
  | zero => cases hloop
  | succ fuel ih =>
    rw [loopTree] at hloop
    rw [turns]
    split at hloop
    · rename_i hend
      obtain ⟨rfl, -⟩ := Prod.mk.inj (Option.some.inj hloop)
      rw [if_pos hend]
      simpa using hr.releases
    rename_i hmore
    rw [if_neg hmore]
    dsimp only at hloop ⊢
    split at hloop
    · rename_i hend
      obtain ⟨rfl, -⟩ := Prod.mk.inj (Option.some.inj hloop)
      rw [if_pos hend]
      simpa using hr.releases
    rename_i hchar
    rw [if_neg hchar, List.forall_mem_cons]
    have hr' := hr.with_ptr (skip P.ptr)
    split at hloop
    · rename_i hturn
      obtain ⟨rfl, -⟩ := Prod.mk.inj (Option.some.inj hloop)
      rw [hr'.turnLeft]
      simp
    · rename_i P' hturn
      obtain ⟨lv', hP', hw⟩ := hr'.turn hturn
      rw [ih hP' hloop, hw, and_assoc]

end Parse

/-- Before the first turn there is the root alone. -/
theorem ready_xmlInit (str : List Char) : Parse.Ready ⟨xmlInit, [], str⟩ fun _ => 0 := by
  have hinv : Inv False none xmlInit := inv_new _ _ rfl rfl rfl ⟨rfl, rfl, rfl, rfl⟩
  have hone : ∀ x < xmlInit.num, x = 0 := fun x hx => Nat.lt_one_iff.1 hx
  refine ⟨⟨hinv, fun n hn => by cases hn⟩, fun x hx => ?_, ⟨Nat.one_pos, rfl, ?_, fun x _ p hp => ?_,
    fun x _ hattr => ?_, rfl⟩, trivial, fun n hn => by cases hn⟩
  · rw [hone x hx]
    exact .root
  · simp [xmlInit, xmlNodeInit]
  · cases hp
  · cases hattr

/-- What `xml_screat` leaves is released just if the parse goes no deeper than the
stack of `xml_node_free`. -/
theorem releases_iff_shallow {str : List Char} {len : Nat} {T : XmlTree} {ok : Bool}
    (h : xmlScreatTree str len = some (T, ok)) : Releases T ↔ Shallow str len := by
  unfold xmlScreatTree at h
  rw [Shallow, parseTurns]
  split at h
  · rename_i hlen
    obtain ⟨rfl, -⟩ := Prod.mk.inj (Option.some.inj h)
    rw [if_pos hlen]
    exact iff_of_true (by unfold Releases; decide) fun P hP => by cases hP
  · rename_i hlen
    rw [if_neg hlen, (ready_xmlInit str).loop h]
    refine and_iff_right fun x hx hne => ?_
    exact absurd (Nat.lt_one_iff.1 hx) hne

/-- A parse ends, reads nothing behind the NUL, and what it leaves is released just if it goes no
deeper than the stack of `xml_node_free`, on which the root is as well. -/
theorem xml_destroy_iff (str : List Char) (len : Nat) :
    ∃ T ok, xmlScreatTree str len = some (T, ok) ∧ (∀ T', xmlScreat str len = some T' ↔ T' = T ∧ ok = true) ∧
      (∀ P ∈ parseTurns str len, ∀ r ∈ P.passes, r.1 ≤ r.2.length) ∧
      (∀ (fuel : Nat) (ptr : List Char), ptr.length < fuel →
        versionLoop fuel ptr = versionLoop (ptr.length + 1) ptr ∧
        ∀ top T, Parse.attrLoop top fuel T ptr = Parse.attrLoop top (ptr.length + 1) T ptr) ∧
      (Releases T ↔ Shallow str len) := by
  obtain ⟨⟨T, ok⟩, hT⟩ : ∃ r, xmlScreatTree str len = some r := by
    unfold xmlScreatTree
    split
    · exact ⟨_, rfl⟩
    · exact Parse.loopTree_ends (Nat.lt_succ_self _)
  refine ⟨T, ok, hT, fun T' => ?_, fun P _ => P.passes_inside, fun fuel ptr hfuel => ?_, releases_iff_shallow hT⟩
  · rw [xmlScreat_eq_tree, hT]
    simp [eq_comm]
  · exact ⟨versionLoop_more hfuel (Nat.lt_succ_self _), fun top T => attrLoop_more hfuel (Nat.lt_succ_self _)⟩

/-- `n` marks, each in the one before -/
def nested (n : Nat) : List Char :=
  (List.replicate n "<a>".toList).flatten ++ "<b/>".toList ++ (List.replicate n "</a>".toList).flatten

/-- The parser takes 32 levels, and the root is one more. -/
theorem xml_destroy_nested :
    (∃ T, xmlScreat (nested 31) (nested 31).length = some T ∧ ¬ Releases T) ∧
      ∃ T, xmlScreat (nested 30) (nested 30).length = some T ∧ Releases T := by
  constructor
  · obtain ⟨T, hT⟩ := Option.isSome_iff_exists.1
      (show (xmlScreat (nested 31) (nested 31).length).isSome by decide +kernel)
    exact ⟨T, hT, fun hr => absurd ((releases_iff_shallow (xmlScreat_eq_tree.1 hT)).1 hr) (by decide +kernel)⟩
  · obtain ⟨T, hT⟩ := Option.isSome_iff_exists.1
      (show (xmlScreat (nested 30) (nested 30).length).isSome by decide +kernel)
    exact ⟨T, hT, (releases_iff_shallow (xmlScreat_eq_tree.1 hT)).2 (by decide +kernel)⟩

end BeehiveIm.Xml
