/-
`xml_destroy` on the trees that a parse leaves (`xml_node_free`, `xml_free_next`): it has a stack as
deep as the parser's, but the root is on it as well. So it frees a tree of 31 levels, and of a
deeper one it leaves what it has not come to.
-/
import BeehiveIm.Xml.Left
import BeehiveIm.Xml.Prune.Walk

namespace BeehiveIm.Xml

open Forest

namespace Forest

/-- The nodes that `xml_node_free` pushes. -/
def nodes : Forest → List Nat
  | nil => []
  | cons n _ kids rest => n :: (kids.nodes ++ rest.nodes)

theorem nodes_length : ∀ f : Forest, f.nodes.length ≤ f.addrs.length
  | nil => Nat.le_refl 0
  | cons n a k rest => by
    have hk := nodes_length k
    have hr := nodes_length rest
    simp only [nodes, addrs, List.length_cons, List.length_append]
    omega

end Forest

theorem Chain.behind {mem : Nat → Node} {c : Option Nat} {a ks : List Nat} (h : Chain mem c (a ++ ks)) :
    Chain mem ks.head? ks := by
  induction a generalizing c with
  | nil => exact h.head ▸ h
  | cons i a ih => exact ih h.2

namespace XmlTree

variable {mem mem' : Nat → Node} {T T' T₁ T₂ : XmlTree} {n x p : Nat} {a ks s : List Nat} {f k rest : Forest}

/-! ## Freeing siblings -/

/-- The lists of the nodes as `xml_node_free` sees them: `a` are the attributes of a node that
has the flag for them. -/
def Seen (mem : Nat → Node) : Forest → Prop
  | .nil => True
  | .cons n a kids rest => Chain mem (mem n).child (a ++ kids.roots) ∧
      (∀ x ∈ a ++ kids.roots, (mem x).parent = some n) ∧ (∀ x ∈ a, (mem x).type = .attr) ∧
      ((mem n).hasAttr = true → ∀ x ∈ kids.roots, (mem x).type ≠ .attr) ∧ ((mem n).hasAttr = false → a = []) ∧
      Seen mem kids ∧ Seen mem rest

theorem Seen.congr : ∀ {f : Forest}, Seen mem f → (∀ x ∈ f.addrs, mem' x = mem x) → Seen mem' f
  | .nil, _, _ => trivial
  | .cons n a k rest, h, heq => by
    obtain ⟨hchain, hparent, hattr, hflag, hnone, hk, hrest⟩ := h
    simp only [addrs, List.forall_mem_cons, List.forall_mem_append] at heq
    obtain ⟨hn, ⟨ha, hkin⟩, hrin⟩ := heq
    have hlist : ∀ x ∈ a ++ k.roots, mem' x = mem x := fun x hx =>
      (List.mem_append.1 hx).elim (ha x) fun hx => hkin x (roots_subset k x hx)
    refine ⟨?_, fun x hx => ?_, fun x hx => ?_, fun hf x hx => ?_, ?_, hk.congr hkin, hrest.congr hrin⟩
    · rw [hn]
      exact hchain.congr fun x hx => by rw [hlist x hx]
    · rw [hlist x hx]
      exact hparent x hx
    · rw [ha x hx]
      exact hattr x hx
    · rw [hlist x (List.mem_append_right _ hx)]
      exact hflag (hn ▸ hf) x hx
    · rw [hn]
      exact hnone

/-- Of the nodes that are not freed, only the pointers of `n` that the destructor keeps its
place in have changed. -/
structure Touch (T T' : XmlTree) (n : Nat) : Prop where
  other : ∀ x, x ≠ n → T'.mem x = T.mem x
  next : (T'.mem n).next = (T.mem n).next
  num : T'.num = T.num

theorem Touch.trans (h : Touch T T₁ n) (h' : Touch T₁ T₂ n) : Touch T T₂ n :=
  ⟨fun x hx => (h'.other x hx).trans (h.other x hx), h'.next.trans h.next, h'.num.trans h.num⟩

theorem touch_set {node : Node} (h : node.next = (T.mem n).next) : Touch T (T.set n node) n :=
  ⟨fun x hx => by simp [hx], by simp [h], rfl⟩

/-- `xml_attr_free` frees the attributes in front of the children. -/
theorem xmlAttrFree_spec {fuel : Nat} (h : Chain T.mem (T.mem n).temp (a ++ ks)) (ha : ∀ x ∈ a, (T.mem x).type = .attr)
    (hks : ∀ x ∈ ks, (T.mem x).type ≠ .attr) (hn : n ∉ a ++ ks) (hf : a.length ≤ fuel) :
    Touch T (T.xmlAttrFree n fuel) n ∧ ((T.xmlAttrFree n fuel).mem n).temp = ks.head? ∧
      (T.xmlAttrFree n fuel).freed = a.reverse ++ T.freed := by
  induction a generalizing T fuel with
  | nil =>
    have htemp : (T.mem n).temp = ks.head? := h.head.symm
    cases fuel with
    | zero => exact ⟨⟨fun _ _ => rfl, rfl, rfl⟩, htemp, rfl⟩
    | succ fuel =>
      rw [xmlAttrFree, htemp]
      cases ks with
      | nil => exact ⟨⟨fun _ _ => rfl, rfl, rfl⟩, htemp, rfl⟩
      | cons m ks =>
        have hm : T.isAttr m = false := by simpa [isAttr] using hks m (.head _)
        simp only [List.head?_cons, hm, Bool.false_eq_true, if_false]
        exact ⟨touch_set rfl, by simpa using htemp, rfl⟩
  | cons i a ih =>
    cases fuel with
    | zero => cases hf
    | succ fuel =>
      have htemp : (T.mem n).temp = some i := h.1
      have hi : T.isAttr i = true := by simpa [isAttr] using ha i (.head _)
      have hin : i ≠ n := by
        rintro rfl
        exact hn (.head _)
      rw [xmlAttrFree, htemp]
      simp only [hi, if_true]
      have hmem : ∀ x, x ≠ n → ((T.set n { T.mem n with temp := (T.mem i).next }).xmlNodeFreeOne i).mem x = T.mem x :=
        fun x hx => by simp [hx]
      have hnot : ∀ x ∈ a ++ ks, x ≠ n := by
        rintro x hx rfl
        exact hn (.tail _ hx)
      obtain ⟨ht, htemp', hfreed⟩ := @ih ((T.set n { T.mem n with temp := (T.mem i).next }).xmlNodeFreeOne i) fuel
        (by
          have hback : (((T.set n { T.mem n with temp := (T.mem i).next }).xmlNodeFreeOne i).mem n).temp =
            (T.mem i).next := by simp
          rw [hback]
          exact h.2.congr fun x hx => by rw [hmem x (hnot x hx)])
        (fun x hx => by
          rw [hmem x (hnot x (List.mem_append_left _ hx))]
          exact ha x (.tail _ hx))
        (fun x hx => by
          rw [hmem x (hnot x (List.mem_append_right _ hx))]
          exact hks x hx)
        (fun hx => hn (.tail _ hx)) (Nat.le_of_succ_le_succ hf)
      have htouch : Touch T ((T.set n { T.mem n with temp := (T.mem i).next }).xmlNodeFreeOne i) n :=
        ⟨hmem, by simp, rfl⟩
      refine ⟨htouch.trans ht, htemp', ?_⟩
      rw [hfreed, List.reverse_cons, List.append_assoc]
      rfl

/-- Where the top of the stack is done, `xml_node_free` goes on behind it. -/
def freeDone (fuel : Nat) (T : XmlTree) (s : List Nat) : XmlTree × Bool :=
  match T.freeUp s with
  | (T, stack, none) => (T, stack = [])
  | (T, stack, some curr) => freeLoop fuel T stack curr

/-- `xml_node_free` at the first of siblings -/
def freeAt (fuel : Nat) (T : XmlTree) (s : List Nat) : Forest → XmlTree × Bool
  | .nil => freeDone fuel T s
  | .cons n _ _ _ => freeLoop fuel T s n

/-- A node is pushed: `temp` is at the first of its list. -/
def pushed (T : XmlTree) (n : Nat) : XmlTree := T.set n { T.mem n with temp := (T.mem n).child }

/-- The attributes of a node are freed. -/
def attrsFreed (T : XmlTree) (n : Nat) : XmlTree :=
  if ((T.pushed n).mem n).hasAttr then (T.pushed n).xmlAttrFree n T.num else T.pushed n

theorem attrsFreed_spec (h : Seen T.mem (.cons n a k rest)) (hn : n ∉ a ++ k.roots) (ha : a.length ≤ T.num) :
    Touch T (T.attrsFreed n) n ∧ ((T.attrsFreed n).mem n).temp = k.roots.head? ∧
      (T.attrsFreed n).freed = a.reverse ++ T.freed := by
  obtain ⟨hchain, -, hattr, hflag, hnone, -, -⟩ := h
  have hpush : Touch T (T.pushed n) n := touch_set rfl
  have htemp : ((T.pushed n).mem n).temp = (T.mem n).child := by simp [pushed]
  have hhas : ((T.pushed n).mem n).hasAttr = (T.mem n).hasAttr := by simp [pushed]
  have hlist : ∀ x ∈ a ++ k.roots, (T.pushed n).mem x = T.mem x := fun x hx => hpush.other x <| by
    rintro rfl
    exact hn hx
  by_cases hf : (T.mem n).hasAttr = true
  · rw [attrsFreed, hhas, if_pos hf]
    obtain ⟨ht, htemp', hfreed⟩ := xmlAttrFree_spec (htemp ▸ hchain.congr fun x hx => by rw [hlist x hx])
      (fun x hx => by
        rw [hlist x (List.mem_append_left _ hx)]
        exact hattr x hx)
      (fun x hx => by
        rw [hlist x (List.mem_append_right _ hx)]
        exact hflag hf x hx) hn ha
    exact ⟨hpush.trans ht, htemp', hfreed⟩
  · rw [attrsFreed, hhas, if_neg hf]
    obtain rfl := hnone (by simpa using hf)
    exact ⟨hpush, htemp.trans hchain.head.symm, rfl⟩

/-- A turn of `xml_node_free`: the attributes of a node are freed, and its first child is next. -/
theorem freeLoop_node (h : Seen T.mem (.cons n a k rest)) (hn : n ∉ a ++ k.roots) (hs : s.length < XML_MAX_DEPTH)
    (ha : a.length ≤ T.num) : ∃ T₁, Touch T T₁ n ∧ T₁.freed = a.reverse ++ T.freed ∧
      ∀ fuel, freeLoop (fuel + 1) T s n = freeAt fuel T₁ (n :: s) k := by
  obtain ⟨ht, htemp, hfreed⟩ := attrsFreed_spec h hn ha
  have hloop : ∀ fuel, freeLoop (fuel + 1) T s n =
      match (T.attrsFreed n).xmlFreeNext (n :: s) n with
      | (T, stack, none) => (T, decide (stack = []))
      | (T, stack, some curr) => freeLoop fuel T stack curr := fun fuel => by
    rw [freeLoop, attrsFreed]
    simp only [if_neg (Nat.not_le.2 hs)]
    rfl
  cases k with
  | nil =>
    refine ⟨_, ht, hfreed, fun fuel => ?_⟩
    rw [hloop, xmlFreeNext, htemp]
    rfl
  | cons m a' k' rest' =>
    refine ⟨(T.attrsFreed n).set n { (T.attrsFreed n).mem n with temp := ((T.attrsFreed n).mem m).next },
      ht.trans (touch_set rfl), hfreed, fun fuel => ?_⟩
    rw [hloop, xmlFreeNext, htemp]
    rfl

/-- The siblings `f` have been freed, with all that is below them. -/
structure Freed (T T₁ : XmlTree) (f : Forest) : Prop where
  perm : T₁.freed.Perm (f.addrs ++ T.freed)
  other : ∀ x ∉ f.addrs, T₁.mem x = T.mem x
  next : ∀ x, (T₁.mem x).next = (T.mem x).next
  num : T₁.num = T.num

theorem Freed.node (ht : Touch T T₁ n) (hfreed : T₁.freed = a.reverse ++ T.freed) (hk : Freed T₁ T₂ k) :
    Freed T (T₂.xmlNodeFreeOne n) (.cons n a k .nil) where
  perm := by
    have hperm : T₂.freed.Perm (a ++ k.addrs ++ T.freed) := by
      refine hk.perm.trans ?_
      rw [hfreed, ← List.append_assoc]
      refine List.Perm.append_right _ ?_
      exact List.perm_append_comm.trans ((List.reverse_perm a).append_right _)
    simpa [xmlNodeFreeOne, addrs] using hperm.cons n
  other x hx := by
    simp only [addrs, List.append_nil, List.mem_cons, List.mem_append, not_or] at hx
    rw [xmlNodeFreeOne_mem, hk.other x hx.2.2, ht.other x hx.1]
  next x := by
    rw [xmlNodeFreeOne_mem, hk.next x]
    by_cases hx : x = n
    · subst hx
      exact ht.next
    · rw [ht.other x hx]
  num := hk.num.trans ht.num

theorem Freed.append (h₁ : Freed T T₁ (.cons n a k .nil)) (h₂ : Freed T₁ T₂ rest) : Freed T T₂ (.cons n a k rest) where
  perm := by
    have hperm := h₂.perm.trans (h₁.perm.append_left _)
    refine hperm.trans ?_
    rw [← List.append_assoc]
    refine List.Perm.append_right _ (List.perm_append_comm.trans ?_)
    simp [addrs]
  other x hx := by
    simp only [addrs, List.mem_cons, List.mem_append, not_or] at hx
    rw [h₂.other x hx.2.2, h₁.other x]
    simp only [addrs, List.append_nil, List.mem_cons, List.mem_append, not_or]
    exact ⟨hx.1, hx.2.1⟩
  next x := (h₂.next x).trans (h₁.next x)
  num := h₂.num.trans h₁.num

/-- A node at the top of the stack is done: it is freed, and its sibling is next. -/
theorem freeDone_cons (fuel : Nat) (hs : s ≠ []) (hnext : (T.mem n).next = rest.roots.head?) :
    freeDone fuel T (n :: s) = freeAt fuel (T.xmlNodeFreeOne n) s rest := by
  rw [freeDone, freeUp, if_neg hs, hnext]
  cases rest <;> rfl

/-- `xml_node_free` frees siblings with all below them, unless the stack gets full. -/
theorem free_walk {f : Forest} (fuel : Nat) (h : Seen T.mem f) (hnd : f.addrs.Nodup)
    (hsib : Chain T.mem f.roots.head? f.roots) (hlen : f.addrs.length ≤ T.num) (hs : s ≠ [])
    (hroom : s.length ≤ XML_MAX_DEPTH) :
    (s.length + f.height ≤ XML_MAX_DEPTH →
      ∃ T₁, Freed T T₁ f ∧ freeAt (f.nodes.length + fuel) T s f = freeDone fuel T₁ s) ∧
    (XML_MAX_DEPTH < s.length + f.height → (freeAt (f.nodes.length + fuel) T s f).2 = false) := by
  induction f generalizing T s fuel with
  | nil =>
    rw [nodes, List.length_nil, Nat.zero_add, height]
    exact ⟨fun _ => ⟨T, ⟨.refl _, fun _ _ => rfl, fun _ => rfl, rfl⟩, rfl⟩, fun hd => by omega⟩
  | cons n a k rest ihk ih =>
    have hfuel : (cons n a k rest).nodes.length + fuel = k.nodes.length + (rest.nodes.length + fuel) + 1 := by
      simp only [nodes, List.length_cons, List.length_append]
      omega
    rw [hfuel, freeAt, height]
    by_cases hfull : s.length < XML_MAX_DEPTH
    · have hnd' := hnd
      simp only [addrs, List.nodup_cons, List.nodup_append, List.mem_append] at hnd'
      simp only [addrs, List.length_cons, List.length_append] at hlen
      have hroots := roots_subset k
      obtain ⟨T₁, ht, hfreed, hloop⟩ := freeLoop_node h (by
        rw [List.mem_append]
        rintro (hn | hn)
        · exact hnd'.1 (.inl (.inl hn))
        · exact hnd'.1 (.inl (.inr (hroots n hn)))) hfull (by omega)
      obtain ⟨hchain, -, -, -, -, hk, hrest⟩ := h
      rw [hloop]
      have hkin : ∀ x ∈ k.addrs, T₁.mem x = T.mem x := fun x hx => ht.other x <| by
        rintro rfl
        exact hnd'.1 (.inl (.inr hx))
      obtain ⟨hgood, hbad⟩ := @ihk T₁ (n :: s) (rest.nodes.length + fuel) (hk.congr hkin) hnd'.2.1.2.1
        (hchain.behind.congr fun x hx => by rw [hkin x (hroots x hx)]) (by rw [ht.num]; omega) (List.cons_ne_nil _ _)
        hfull
      rw [List.length_cons] at hgood hbad
      by_cases hdeep : s.length + 1 + k.height ≤ XML_MAX_DEPTH
      · obtain ⟨T₂, hT₂, hloop₂⟩ := hgood hdeep
        have hnode := Freed.node ht hfreed hT₂
        have hnext : (T₂.mem n).next = rest.roots.head? := by
          rw [hT₂.next, ht.next]
          exact hsib.2.head.symm
        have hrin : ∀ x ∈ rest.addrs, (T₂.xmlNodeFreeOne n).mem x = T.mem x := fun x hx => hnode.other x <| by
          simp only [addrs, List.append_nil, List.mem_cons, List.mem_append]
          grind
        rw [hloop₂, freeDone_cons _ hs hnext]
        obtain ⟨hgood', hbad'⟩ := @ih (T₂.xmlNodeFreeOne n) s fuel (hrest.congr hrin) hnd'.2.2.1
          (by
            have hc := hsib.2
            rw [← hc.head] at hc
            exact hc.congr fun x hx => by rw [hrin x (roots_subset rest x hx)])
          (by rw [hnode.num]; omega) hs hroom
        refine ⟨fun hd => ?_, fun hd => hbad' (by omega)⟩
        obtain ⟨T₃, hT₃, hloop₃⟩ := hgood' (by omega)
        exact ⟨T₃, hnode.append hT₃, hloop₃⟩
      · exact ⟨fun hd => absurd hd (by omega), fun _ => hbad (by omega)⟩
    · refine ⟨fun hd => absurd hd (by omega), fun _ => ?_⟩
      rw [freeLoop]
      simp only [if_pos (Nat.not_lt.1 hfull)]

/-- `xml_destroy` on a tree -/
theorem xmlNodeFree_root (hparent : (T.mem T.root).parent = none) (h : Seen T.mem (.cons T.root a k .nil))
    (hnd : (cons T.root a k nil).addrs.Nodup) (hlen : (cons T.root a k nil).addrs.length ≤ T.num) :
    (k.height < XML_MAX_DEPTH → ∃ T', T.xmlNodeFree T.root = (T', true) ∧
      T'.freed.Perm ((cons T.root a k nil).addrs ++ T.freed)) ∧
    (XML_MAX_DEPTH ≤ k.height → (T.xmlNodeFree T.root).2 = false) := by
  have hnd' := hnd
  simp only [addrs, List.append_nil, List.nodup_cons, List.nodup_append, List.mem_append] at hnd'
  have hlen' := hlen
  simp only [addrs, List.append_nil, List.length_cons, List.length_append] at hlen'
  have hroots := roots_subset k
  have hnodes := nodes_length k
  obtain ⟨T₁, ht, hfreed, hloop⟩ := freeLoop_node (s := []) h (by
    rw [List.mem_append]
    rintro (hn | hn)
    · exact hnd'.1 (.inl hn)
    · exact hnd'.1 (.inr (hroots _ hn))) (by decide) (by omega)
  obtain ⟨hchain, -, -, -, -, hk, -⟩ := h
  have hkin : ∀ x ∈ k.addrs, T₁.mem x = T.mem x := fun x hx => ht.other x <| by
    rintro rfl
    exact hnd'.1 (.inr hx)
  obtain ⟨fuel, hfuel⟩ : ∃ fuel, T.num = k.nodes.length + fuel + 1 := ⟨T.num - k.nodes.length - 1, by omega⟩
  have hfree : T.xmlNodeFree T.root = freeAt (k.nodes.length + fuel) T₁ [T.root] k := by
    rw [xmlNodeFree, hparent, ← hloop, ← hfuel]
  obtain ⟨hgood, hbad⟩ := @free_walk T₁ [T.root] k fuel (hk.congr hkin) hnd'.2.2.1
    (hchain.behind.congr fun x hx => by rw [hkin x (hroots x hx)]) (by rw [ht.num]; omega) (List.cons_ne_nil _ _)
    (by simp [XML_MAX_DEPTH])
  rw [List.length_singleton] at hgood hbad
  rw [hfree]
  refine ⟨fun hd => ?_, fun hd => hbad (by omega)⟩
  obtain ⟨T₂, hT₂, hloop₂⟩ := hgood (by omega)
  exact ⟨T₂.xmlNodeFreeOne T.root, hloop₂, (Freed.node ht hfreed hT₂).perm⟩

/-! ## The forest of a tree -/

variable {q : Prop} {o : Option Nat}

/-- From a node to its parent -/
def Up (T : XmlTree) (x p : Nat) : Prop := InTree T x ∧ (T.mem x).parent = some p

theorem up_rightUnique (T : XmlTree) : Relator.RightUnique (Up T) := fun _ _ _ h h' =>
  Option.some.inj (h.2.symm.trans h'.2)

theorem Inv.up (h : Inv q o T) (hx : Up T x p) : InTree T p ∧ p < x := by
  obtain ⟨hp, l, hl, hmem⟩ := h.listed hx.1 hx.2
  exact ⟨hp, (hl.ids x hmem).1⟩

theorem Inv.ups (h : Inv q o T) (hx : Relation.ReflTransGen (Up T) x p) : p ≤ x := by
  induction hx with
  | refl => exact Nat.le_refl _
  | tail _ hup ih => exact Nat.le_of_lt (Nat.lt_of_lt_of_le (h.up hup).2 ih)

/-- A node is below one sibling only. -/
theorem Inv.one_sibling (h : Inv q o T) {i j : Nat} (hi : Up T i n) (hj : Up T j n)
    (hxi : Relation.ReflTransGen (Up T) x i) (hxj : Relation.ReflTransGen (Up T) x j) : i = j := by
  have hne : ∀ {i j}, Up T i n → Up T j n → Relation.ReflTransGen (Up T) i j → i = j := by
    intro i j hi hj hij
    rcases hij.cases_head with heq | ⟨p, hup, hpj⟩
    · exact heq
    · -- above `i` is the parent of `j`, and what is above that is smaller
      obtain rfl : n = p := up_rightUnique T hi hup
      exact absurd (h.ups hpj) (Nat.not_le.2 (h.up hj).2)
  rcases Relation.ReflTransGen.total_of_right_unique (up_rightUnique T) hxi hxj with hij | hji
  · exact hne hi hj hij
  · exact (hne hj hi hji).symm

/-- Attributes are in front. -/
theorem split_attrs : ∀ {l : List Nat}, (l.Pairwise fun i j => (mem j).type = .attr → (mem i).type = .attr) →
    ∃ a ks, l = a ++ ks ∧ (∀ x ∈ a, (mem x).type = .attr) ∧ ∀ x ∈ ks, (mem x).type ≠ .attr
  | [], _ => ⟨[], [], rfl, by simp, by simp⟩
  | i :: l, h => by
    obtain ⟨hi, hl⟩ := List.pairwise_cons.1 h
    by_cases hattr : (mem i).type = .attr
    · obtain ⟨a, ks, rfl, ha, hks⟩ := split_attrs hl
      exact ⟨i :: a, ks, rfl, List.forall_mem_cons.2 ⟨hattr, ha⟩, hks⟩
    · exact ⟨[], i :: l, rfl, by simp, List.forall_mem_cons.2 ⟨hattr, fun j hj hj' => hattr (hi j hj hj')⟩⟩

/-- What there is of a node: its attributes and its children. -/
structure Grown (T : XmlTree) (n : Nat) (a : List Nat) (k : Forest) : Prop where
  seen : Seen T.mem (.cons n a k .nil)
  nodup : (cons n a k nil).addrs.Nodup
  below : ∀ x ∈ (cons n a k nil).addrs, InTree T x ∧ Relation.ReflTransGen (Up T) x n

/-- Siblings, of each of which there is something. -/
theorem Inv.grown_list (h : Inv q o T) {ks : List Nat} (hup : ∀ k ∈ ks, Up T k n) (hnd : ks.Nodup)
    (hks : ∀ k ∈ ks, ∃ a f, Grown T k a f) : ∃ f, f.roots = ks ∧ Seen T.mem f ∧ f.addrs.Nodup ∧
      ∀ x ∈ f.addrs, InTree T x ∧ ∃ k ∈ ks, Relation.ReflTransGen (Up T) x k := by
  induction ks with
  | nil => exact ⟨.nil, rfl, trivial, List.nodup_nil, fun x hx => nomatch hx⟩
  | cons i ks ih =>
    simp only [List.forall_mem_cons] at hup hks
    obtain ⟨hi, hnd⟩ := List.nodup_cons.1 hnd
    obtain ⟨f, rfl, hseen, hfnd, hbelow⟩ := ih hup.2 hnd hks.2
    obtain ⟨a, k, hg⟩ := hks.1
    obtain ⟨hchain, hparent, hattr, hflag, hnone, hk, -⟩ := hg.seen
    have haddrs : (cons i a k f).addrs = (cons i a k nil).addrs ++ f.addrs := by simp [addrs]
    refine ⟨.cons i a k f, rfl, ⟨hchain, hparent, hattr, hflag, hnone, hk, hseen⟩, ?_, fun x hx => ?_⟩
    · rw [haddrs, List.nodup_append]
      refine ⟨hg.nodup, hfnd, ?_⟩
      rintro x hx y hy rfl
      obtain ⟨-, j, hj, hxj⟩ := hbelow x hy
      have heq := h.one_sibling hup.1 (hup.2 j hj) (hg.below x hx).2 hxj
      exact hi (heq ▸ hj)
    · rw [haddrs, List.mem_append] at hx
      rcases hx with hx | hx
      · exact ⟨(hg.below x hx).1, i, .head _, (hg.below x hx).2⟩
      · obtain ⟨hin, j, hj, hxj⟩ := hbelow x hx
        exact ⟨hin, j, .tail _ hj, hxj⟩

/-- There is something of every node of a tree. -/
theorem Inv.grown (h : Inv q o T) (hn : InTree T n) : ∃ a k, Grown T n a k := by
  obtain ⟨d, hd⟩ : ∃ d, d = T.num - n := ⟨_, rfl⟩
  induction d using Nat.strong_induction_on generalizing n with
  | _ d ih =>
    subst hd
    obtain ⟨l, hl⟩ := h.nodes n hn
    have hup : ∀ k ∈ l, Up T k n := fun k hk => ⟨hl.inTree hn hk, hl.parent k hk⟩
    have hgrown : ∀ k ∈ l, ∃ a f, Grown T k a f := fun k hk => by
      have hids := hl.ids k hk
      exact ih _ (by omega) (hup k hk).1 rfl
    -- with the flag, the attributes are apart
    obtain ⟨a, ks, rfl, hattr, hflag, hnone⟩ : ∃ a ks, l = a ++ ks ∧ (∀ x ∈ a, (T.mem x).type = .attr) ∧
        ((T.mem n).hasAttr = true → ∀ x ∈ ks, (T.mem x).type ≠ .attr) ∧ ((T.mem n).hasAttr = false → a = []) := by
      by_cases hf : (T.mem n).hasAttr = true
      · obtain ⟨a, ks, hsplit, ha, hks⟩ := split_attrs hl.order
        exact ⟨a, ks, hsplit, ha, fun _ => hks, fun hf' => by simp [hf] at hf'⟩
      · exact ⟨[], l, rfl, by simp, fun hf' => absurd hf' hf, fun _ => rfl⟩
    have hnd := hl.chain.nodup
    obtain ⟨hand, hksnd, hdisj⟩ := List.nodup_append.1 hnd
    obtain ⟨f, rfl, hseen, hfnd, hbelow⟩ := h.grown_list (fun k hk => hup k (List.mem_append_right _ hk)) hksnd
      fun k hk => hgrown k (List.mem_append_right _ hk)
    have hbig : ∀ x ∈ f.addrs, n < x := fun x hx => by
      obtain ⟨-, k, hk, hxk⟩ := hbelow x hx
      exact Nat.lt_of_lt_of_le (hl.ids k (List.mem_append_right _ hk)).1 (h.ups hxk)
    refine ⟨a, f, ⟨hl.chain, hl.parent, hattr, hflag, hnone, hseen, trivial⟩, ?_, fun x hx => ?_⟩
    · simp only [addrs, List.append_nil, List.nodup_cons, List.nodup_append, List.mem_append, not_or]
      refine ⟨⟨fun hna => ?_, fun hnf => absurd (hbig n hnf) (Nat.lt_irrefl n)⟩, hand, hfnd, ?_⟩
      · exact absurd (hl.ids n (List.mem_append_left _ hna)).1 (Nat.lt_irrefl n)
      · rintro x hxa y hy rfl
        obtain ⟨-, k, hk, hxk⟩ := hbelow x hy
        have heq := h.one_sibling (hup x (List.mem_append_left _ hxa)) (hup k (List.mem_append_right _ hk)) .refl hxk
        exact hdisj x hxa k hk heq
    · simp only [addrs, List.append_nil, List.mem_cons, List.mem_append] at hx
      rcases hx with rfl | hx | hx
      · exact ⟨hn, .refl⟩
      · have hxup := hup x (List.mem_append_left _ hx)
        exact ⟨hxup.1, .single hxup⟩
      · obtain ⟨hin, k, hk, hxk⟩ := hbelow x hx
        exact ⟨hin, hxk.tail (hup k (List.mem_append_right _ hk))⟩

/-- The list of a node of a forest is in the forest. -/
theorem Seen.closed {l : List Nat} {y : Nat} : ∀ {f : Forest}, Seen mem f → x ∈ f.addrs →
    ((mem x).type = .attr → l = []) → Chain mem (mem x).child l → y ∈ l → y ∈ f.addrs
  | .cons n a k rest, h, hx, hattr, hc, hy => by
    obtain ⟨hchain, -, ha, -, -, hk, hrest⟩ := h
    have hroots := roots_subset k y
    simp only [addrs, List.mem_cons, List.mem_append] at hx ⊢
    rcases hx with rfl | (hx | hx) | hx
    · rw [hc.unique hchain, List.mem_append] at hy
      tauto
    · rw [hattr (ha x hx)] at hy
      cases hy
    · exact .inr (.inl (.inr (hk.closed hx hattr hc hy)))
    · exact .inr (.inr (hrest.closed hx hattr hc hy))

/-- Of a tree whose attributes have no lists, the forest has all nodes. -/
theorem Inv.forest (h : Inv q o T) (hbare : ∀ x, InTree T x → (T.mem x).type = .attr → (T.mem x).child = none) :
    ∃ a k, Grown T T.root a k ∧ ∀ x, x ∈ (cons T.root a k nil).addrs ↔ InTree T x := by
  obtain ⟨a, k, hg⟩ := h.grown .root
  refine ⟨a, k, hg, fun x => ⟨fun hx => (hg.below x hx).1, fun hx => ?_⟩⟩
  induction hx with
  | root => exact List.mem_cons_self ..
  | @kid n x l hn hc hx ih =>
    refine hg.seen.closed ih (fun hattr => ?_) hc hx
    exact hc.unique (show Chain T.mem (T.mem n).child [] from hbare n hn hattr)

/-! ## How deep a tree is -/

/-- A node that `xml_node_free` pushes. -/
def Pushed (T : XmlTree) (x : Nat) : Prop :=
  (T.mem x).type = .attr → ∃ p, (T.mem x).parent = some p ∧ (T.mem p).hasAttr = false

theorem Seen.mem_nodes : ∀ {f : Forest}, Seen T.mem f → (∀ x ∈ f.roots, Pushed T x) →
    (x ∈ f.nodes ↔ x ∈ f.addrs ∧ Pushed T x)
  | .nil, _, _ => by simp [nodes, addrs]
  | .cons n a k rest, h, hroots => by
    obtain ⟨-, hparent, hattr, hflag, hnone, hk, hrest⟩ := h
    simp only [roots, List.forall_mem_cons] at hroots
    have hkroots : ∀ y ∈ k.roots, Pushed T y := fun y hy hy' =>
      ⟨n, hparent y (List.mem_append_right _ hy), by
        by_contra hf
        exact hflag (by simpa using hf) y hy hy'⟩
    have hout : x ∈ a → ¬ Pushed T x := fun hx hp => by
      obtain ⟨p, hp, hf⟩ := hp (hattr x hx)
      obtain rfl : n = p := Option.some.inj ((hparent x (List.mem_append_left _ hx)).symm.trans hp)
      rw [hnone hf] at hx
      cases hx
    have hn : x = n → Pushed T x := fun hx => hx ▸ hroots.1
    simp only [nodes, addrs, List.mem_cons, List.mem_append, hk.mem_nodes hkroots, hrest.mem_nodes hroots.2]
    tauto

/-- The height of a forest is the level of its deepest node. -/
theorem Seen.height_le {lv : Nat → Nat} : ∀ {f : Forest} {d h : Nat}, Seen mem f → (∀ x ∈ f.roots, lv x = d + 1) →
    (∀ x ∈ f.addrs, ∀ p, (mem x).parent = some p → lv x = lv p + 1) →
    (f.height ≤ h ↔ ∀ x ∈ f.nodes, lv x ≤ d + h)
  | .nil, d, h, _, _, _ => by simp [height, nodes]
  | .cons n a k rest, d, h, hseen, hroots, hlv => by
    obtain ⟨-, hparent, -, -, -, hk, hrest⟩ := hseen
    simp only [roots, List.forall_mem_cons] at hroots
    simp only [addrs, List.forall_mem_cons, List.forall_mem_append] at hlv
    obtain ⟨hn, ⟨-, hkin⟩, hrin⟩ := hlv
    have hkroots : ∀ x ∈ k.roots, lv x = d + 1 + 1 := fun x hx => by
      rw [hkin x (roots_subset k x hx) n (hparent x (List.mem_append_right _ hx)), hroots.1]
    simp only [nodes, height, List.forall_mem_cons, List.forall_mem_append, hroots.1, Nat.max_le,
      hrest.height_le hroots.2 hrin]
    cases h with
    | zero => simp
    | succ h =>
      rw [Nat.succ_le_succ_iff, hk.height_le hkroots hkin]
      have hle : d + 1 ≤ d + (h + 1) := by omega
      have heq : d + 1 + h = d + (h + 1) := by omega
      rw [and_iff_right hle, heq]

/-- `T` is the tree `T₀` with nodes that have been freed already. -/
structure Remains (T₀ T : XmlTree) : Prop where
  root : T.root = T₀.root
  mem : ∀ x < T₀.num, T.mem x = T₀.mem x
  num : T₀.num ≤ T.num
  freed : (List.range T₀.num ++ T.freed).Perm (List.range T.num)

/-- A tree is released just if it has at most 31 levels below its root. -/
theorem releases_iff {T₀ : XmlTree} {lv : Nat → Nat} (h : Inv q o T₀)
    (hbare : ∀ x, InTree T₀ x → (T₀.mem x).type = .attr → (T₀.mem x).child = none) (hall : ∀ x < T₀.num, InTree T₀ x)
    (hroot : lv T₀.root = 0) (hlv : ∀ x, InTree T₀ x → ∀ p, (T₀.mem x).parent = some p → lv x = lv p + 1)
    (hT : Remains T₀ T) :
    Releases T ↔ ∀ x < T₀.num, x ≠ T₀.root → Pushed T₀ x → lv x < XML_MAX_DEPTH := by
  obtain ⟨a, k, hg, haddrs⟩ := h.forest hbare
  have hlt : ∀ x ∈ (cons T₀.root a k nil).addrs, x < T₀.num := fun x hx => h.inTree_lt ((haddrs x).1 hx)
  have hperm : (cons T₀.root a k nil).addrs.Perm (List.range T₀.num) := by
    refine (List.perm_ext_iff_of_nodup hg.nodup List.nodup_range).2 fun x => ?_
    rw [List.mem_range]
    exact ⟨hlt x, fun hx => (haddrs x).2 (hall x hx)⟩
  have hseen : Seen T.mem (.cons T.root a k .nil) := hT.root ▸ hg.seen.congr fun x hx => hT.mem x (hlt x hx)
  have hparent : (T.mem T.root).parent = none := by
    rw [hT.root, hT.mem _ h.lt, h.root]
  obtain ⟨hgood, hbad⟩ := xmlNodeFree_root hparent hseen (hT.root ▸ hg.nodup) (by
    rw [hT.root, hperm.length_eq, List.length_range]
    exact hT.num)
  -- the levels of the nodes that are pushed
  obtain ⟨-, hkparent, -, hflag, -, hk, -⟩ := hg.seen
  have hroots : ∀ x ∈ k.roots, Pushed T₀ x := fun x hx hattr =>
    ⟨T₀.root, hkparent x (List.mem_append_right _ hx), by
      by_contra hf
      exact hflag (by simpa using hf) x hx hattr⟩
  have hin : ∀ x ∈ k.addrs, InTree T₀ x := fun x hx => (haddrs x).1 (by simp [addrs, hx])
  have hheight : k.height < XML_MAX_DEPTH ↔ ∀ x < T₀.num, x ≠ T₀.root → Pushed T₀ x → lv x < XML_MAX_DEPTH := by
    have hle : k.height ≤ 31 ↔ ∀ x ∈ k.nodes, lv x ≤ 0 + 31 := hk.height_le (fun x hx => by
      rw [hlv x (hin x (roots_subset k x hx)) _ (hkparent x (List.mem_append_right _ hx)), hroot])
      fun x hx p hp => hlv x (hin x hx) p hp
    rw [show (k.height < XML_MAX_DEPTH) = (k.height ≤ 31) from propext Nat.lt_succ_iff, hle]
    constructor
    · intro hdeep x hx hne hp
      have hxk : x ∈ k.addrs := by
        have hmem := (haddrs x).2 (hall x hx)
        simp only [addrs, List.append_nil, List.mem_cons, List.mem_append] at hmem
        rcases hmem with hmem | hmem | hmem
        · exact absurd hmem hne
        · obtain ⟨p, hp', hf⟩ := hp (hg.seen.2.2.1 x hmem)
          obtain rfl : T₀.root = p := Option.some.inj ((hkparent x (List.mem_append_left _ hmem)).symm.trans hp')
          rw [hg.seen.2.2.2.2.1 hf] at hmem
          cases hmem
        · exact hmem
      have := hdeep x ((hk.mem_nodes hroots).2 ⟨hxk, hp⟩)
      simp only [XML_MAX_DEPTH]
      omega
    · intro hdeep x hx
      obtain ⟨hxk, hp⟩ := (hk.mem_nodes hroots).1 hx
      have hne : x ≠ T₀.root := by
        rintro rfl
        have hnd := hg.nodup
        simp only [addrs, List.append_nil, List.nodup_cons, List.mem_append] at hnd
        exact hnd.1 (.inr hxk)
      have := hdeep x (h.inTree_lt (hin x hxk)) hne hp
      simp only [XML_MAX_DEPTH] at this
      omega
  rw [← hheight, Releases]
  by_cases hd : k.height < XML_MAX_DEPTH
  · obtain ⟨T', hfree, hfreed⟩ := hgood hd
    rw [hfree]
    refine iff_of_true ⟨rfl, hfreed.trans ?_⟩ hd
    rw [hT.root]
    exact (hperm.append_right _).trans hT.freed
  · refine iff_of_false (fun hr => ?_) hd
    rw [hbad (Nat.not_lt.1 hd)] at hr
    cases hr.1

end XmlTree

end BeehiveIm.Xml
