/-
The list of a node's attributes and children: the nodes that the pointers from its first one on come
to. What the links that the code sets do to such a list, and what they leave alone.
-/
import Mathlib.Data.List.Nodup
import BeehiveIm.Xml.Parse

namespace BeehiveIm.Xml

/-- The nodes from `p` on, up to a NULL. -/
def Chain (mem : Nat → Node) : Option Nat → List Nat → Prop
  | p, [] => p = none
  | p, k :: l => p = some k ∧ Chain mem (mem k).next l

instance instDecidableChain (mem : Nat → Node) : (p : Option Nat) → (l : List Nat) → Decidable (Chain mem p l)
  | p, [] => inferInstanceAs (Decidable (p = none))
  | p, k :: l =>
    have := instDecidableChain mem (mem k).next l
    inferInstanceAs (Decidable (p = some k ∧ Chain mem (mem k).next l))

namespace Chain

variable {mem mem' : Nat → Node} {p : Option Nat} {l l' a b : List Nat} {k link new : Nat}

theorem congr (h : Chain mem p l) (hnext : ∀ k ∈ l, (mem' k).next = (mem k).next) : Chain mem' p l := by
  induction l generalizing p with
  | nil => exact h
  | cons k l ih =>
    refine ⟨h.1, ?_⟩
    rw [hnext k (.head _)]
    exact ih h.2 fun k' hk => hnext k' (.tail _ hk)

theorem unique (h : Chain mem p l) (h' : Chain mem p l') : l = l' := by
  induction l generalizing p l' with
  | nil =>
    cases l' with
    | nil => rfl
    | cons k' l' =>
      obtain rfl : p = none := h
      cases h'.1
  | cons k l ih =>
    cases l' with
    | nil =>
      obtain rfl : p = none := h'
      cases h.1
    | cons k' l' =>
      obtain rfl : k = k' := Option.some.inj (h.1.symm.trans h'.1)
      rw [ih h.2 h'.2]

/-- What is behind a node of the list. -/
theorem after (h : Chain mem p (a ++ k :: b)) : Chain mem (mem k).next b := by
  induction a generalizing p with
  | nil => exact h.2
  | cons k' a ih => exact ih h.2

theorem nodup (h : Chain mem p l) : l.Nodup := by
  induction l generalizing p with
  | nil => exact List.nodup_nil
  | cons k l ih =>
    refine List.nodup_cons.2 ⟨fun hk => ?_, ih h.2⟩
    -- a node that comes again would have two lists behind it
    obtain ⟨a, b, rfl⟩ := List.append_of_mem hk
    have heq := h.2.unique h.2.after
    have hlen := congrArg List.length heq
    simp only [List.length_append, List.length_cons] at hlen
    omega

theorem head (h : Chain mem p l) : l.head? = p := by
  cases l with
  | nil => exact h.symm
  | cons k l => exact h.1.symm

/-- The node behind the last one is NULL. -/
theorem last (h : Chain mem p (a ++ [k])) : (mem k).next = none := h.after

/-- A new node behind one of the list. -/
theorem insert (h : Chain mem p (a ++ link :: b)) (hlink : (mem' link).next = some new)
    (hnew : (mem' new).next = (mem link).next)
    (hother : ∀ k ∈ a ++ b, (mem' k).next = (mem k).next) : Chain mem' p (a ++ link :: new :: b) := by
  induction a generalizing p with
  | nil =>
    refine ⟨h.1, hlink, ?_⟩
    rw [hnew]
    exact h.2.congr hother
  | cons k a ih =>
    refine ⟨h.1, ?_⟩
    rw [hother k (.head _)]
    exact ih h.2 fun k' hk => hother k' (.tail _ hk)

/-- A node is passed over. -/
theorem remove (h : Chain mem p (a ++ link :: k :: b)) (hlink : (mem' link).next = (mem k).next)
    (hother : ∀ k ∈ a ++ b, (mem' k).next = (mem k).next) : Chain mem' p (a ++ link :: b) := by
  induction a generalizing p with
  | nil =>
    refine ⟨h.1, ?_⟩
    rw [hlink]
    exact h.2.2.congr hother
  | cons k' a ih =>
    refine ⟨h.1, ?_⟩
    rw [hother k' (.head _)]
    exact ih h.2 fun k'' hk => hother k'' (.tail _ hk)

end Chain

namespace XmlTree

@[simp] theorem set_mem (T : XmlTree) (n : Nat) (node : Node) : (T.set n node).mem = Function.update T.mem n node := rfl
@[simp] theorem set_root (T : XmlTree) (n : Nat) (node : Node) : (T.set n node).root = T.root := rfl
@[simp] theorem set_num (T : XmlTree) (n : Nat) (node : Node) : (T.set n node).num = T.num := rfl
@[simp] theorem xmlNodeCreat_root (T : XmlTree) (type : NodeType) : (T.xmlNodeCreat type).root = T.root := rfl
@[simp] theorem xmlNodeCreat_num (T : XmlTree) (type : NodeType) : (T.xmlNodeCreat type).num = T.num + 1 := rfl
@[simp] theorem xmlNodeFreeOne_mem (T : XmlTree) (n : Nat) : (T.xmlNodeFreeOne n).mem = T.mem := rfl
@[simp] theorem xmlNodeFreeOne_root (T : XmlTree) (n : Nat) : (T.xmlNodeFreeOne n).root = T.root := rfl
@[simp] theorem xmlNodeFreeOne_num (T : XmlTree) (n : Nat) : (T.xmlNodeFreeOne n).num = T.num := rfl

/-- The list of a node, with its end, and each of its nodes knows its parent. -/
structure Lists (T : XmlTree) (n : Nat) (l : List Nat) : Prop where
  chain : Chain T.mem (T.mem n).child l
  tail : (T.mem n).tail = l.getLast?
  parent : ∀ k ∈ l, (T.mem k).parent = some n

variable {T T' : XmlTree} {n new link : Nat} {l a b : List Nat}

/-- What a new node at the end changes: the links of the node, of its last one and of the new
one. -/
theorem linkTail_mem (T : XmlTree) (hne : new ≠ n) (htail : ∀ t, (T.mem n).tail = some t → t ≠ n ∧ t ≠ new) (m : Nat) :
    (T.linkTail n new).mem m =
      if m = n then { T.mem n with child := if (T.mem n).tail = none then some new else (T.mem n).child, tail := some new }
      else if m = new then { T.mem new with parent := some n }
      else if (T.mem n).tail = some m then { T.mem m with next := some new }
      else T.mem m := by
  cases ht : (T.mem n).tail with
  | none =>
    by_cases hn : m = n
    · subst hn
      simp [linkTail, hne.symm, ht]
    · by_cases hnew : m = new
      · subst hnew
        simp [linkTail, hne.symm, ht, hn]
      · simp [linkTail, hne.symm, ht, hn, hnew]
  | some t =>
    obtain ⟨htn, htnew⟩ := htail t ht
    by_cases hn : m = n
    · subst hn
      simp [linkTail, Function.update_apply, hne.symm, ht, htn.symm]
    · by_cases hnew : m = new
      · subst hnew
        simp [linkTail, Function.update_apply, hne.symm, ht, hn, htnew.symm]
      · by_cases hmt : m = t
        · subst hmt
          simp [linkTail, Function.update_apply, hne.symm, ht, hn, hnew]
        · simp [linkTail, Function.update_apply, hne.symm, ht, hn, hnew, hmt, Ne.symm hmt]

theorem Lists.tail_mem (h : Lists T n l) {t : Nat} (ht : (T.mem n).tail = some t) : t ∈ l :=
  List.mem_of_getLast? (h.tail.symm.trans ht)

/-- A new node at the end of the list. -/
theorem Lists.linkTail (h : Lists T n l) (hn : n ∉ l) (hne : new ≠ n) (hnew : new ∉ l)
    (hnext : (T.mem new).next = none) : Lists (T.linkTail n new) n (l ++ [new]) := by
  have hmem := linkTail_mem T hne fun t ht =>
    ⟨fun heq => hn (heq ▸ h.tail_mem ht), fun heq => hnew (heq ▸ h.tail_mem ht)⟩
  have hkid : ∀ k ∈ l, k ≠ n ∧ k ≠ new := fun k hk => ⟨fun heq => hn (heq ▸ hk), fun heq => hnew (heq ▸ hk)⟩
  refine ⟨?_, by simp [hmem], fun k hk => ?_⟩
  · rw [hmem n, if_pos rfl]
    rcases List.eq_nil_or_concat' l with rfl | ⟨a, t, rfl⟩
    · have htail : (T.mem n).tail = none := h.tail
      rw [htail]
      refine ⟨rfl, ?_⟩
      rw [hmem new, if_neg hne, if_pos rfl]
      exact hnext
    · have htail : (T.mem n).tail = some t := by rw [h.tail, List.getLast?_concat]
      have hlast := h.chain.last
      simp only [htail, reduceCtorEq, if_false]
      rw [List.append_assoc]
      refine Chain.insert h.chain ?_ ?_ fun k hk => ?_
      · rw [hmem t, if_neg (hkid t (by simp)).1, if_neg (hkid t (by simp)).2, if_pos htail]
      · rw [hmem new, if_neg hne, if_pos rfl, hlast]
        exact hnext
      · have hka : k ∈ a := by simpa using hk
        have hnd := (List.nodup_append.1 h.chain.nodup).2.2 k hka t (.head _)
        rw [hmem k, if_neg (hkid k (by simp [hka])).1, if_neg (hkid k (by simp [hka])).2, htail,
          if_neg (by simpa using Ne.symm hnd)]
  · rcases List.mem_append.1 hk with hk | hk
    · obtain ⟨hkn, hknew⟩ := hkid k hk
      rw [hmem k, if_neg hkn, if_neg hknew]
      split
      · exact h.parent k hk
      · exact h.parent k hk
    · rw [List.mem_singleton.1 hk, hmem new, if_neg hne, if_pos rfl]

@[simp] theorem linkTail_root (T : XmlTree) (n new : Nat) : (T.linkTail n new).root = T.root := by
  unfold linkTail
  simp only
  split <;> rfl

@[simp] theorem linkTail_num (T : XmlTree) (n new : Nat) : (T.linkTail n new).num = T.num := by
  unfold linkTail
  simp only
  split <;> rfl

theorem linkTail_flags (T : XmlTree) (n new : Nat) :
    ((T.linkTail n new).mem n).hasAttr = (T.mem n).hasAttr ∧
    ((T.linkTail n new).mem n).hasChild = (T.mem n).hasChild := by
  unfold linkTail
  simp only
  split <;> simp [Function.update_apply] <;> split_ifs <;> simp_all

/-- A list does not depend on what else is known of its node. -/
theorem Lists.set (h : Lists T n l) (hn : n ∉ l) {node : Node} (hchild : node.child = (T.mem n).child)
    (htail : node.tail = (T.mem n).tail) : Lists (T.set n node) n l := by
  have hkid : ∀ k ∈ l, (T.set n node).mem k = T.mem k := fun k hk =>
    Function.update_of_ne (fun heq : k = n => hn (heq ▸ hk)) _ _
  refine ⟨?_, ?_, fun k hk => ?_⟩
  · rw [set_mem, Function.update_self, hchild]
    exact h.chain.congr fun k hk => by rw [← set_mem, hkid k hk]
  · rw [set_mem, Function.update_self, htail]
    exact h.tail
  · rw [hkid k hk]
    exact h.parent k hk

theorem Lists.congr (h : Lists T n l) (hn : T'.mem n = T.mem n) (hl : ∀ k ∈ l, T'.mem k = T.mem k) : Lists T' n l where
  chain := by
    rw [hn]
    exact h.chain.congr fun k hk => by rw [hl k hk]
  tail := by rw [hn, h.tail]
  parent k hk := by rw [hl k hk, h.parent k hk]

end XmlTree

end BeehiveIm.Xml
