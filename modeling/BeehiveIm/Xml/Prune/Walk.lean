/-
The walk of `xml_delete_empty` over the siblings of a tree: which of its loops it is in when it has
passed the last of them, and what it leaves; and from that the trees it is right for.
-/
import BeehiveIm.Xml.Prune

namespace BeehiveIm.Xml

open Forest

namespace Forest

variable {hv : Nat → Bool} {f k rest : Forest} {n x : Nat} {a : List Nat} {top : Bool}

theorem roots_sublist : ∀ f : Forest, f.roots.Sublist f.addrs
  | .nil => .slnil
  | .cons n _ _ rest => ((roots_sublist rest).trans (List.sublist_append_right _ _)).cons_cons n

theorem roots_subset (f : Forest) (x : Nat) (hx : x ∈ f.roots) : x ∈ f.addrs := (roots_sublist f).subset hx

theorem under_subset : ∀ f : Forest, ∀ x ∈ f.under, x ∈ f.addrs
  | .cons n a k rest, x, hx => by
    rw [under, List.mem_append] at hx
    rw [addrs, List.mem_cons, List.mem_append]
    exact .inr (hx.imp_right (under_subset rest x))

theorem roots_ne_nil (h : f ≠ nil) : f.roots ≠ [] := by
  cases f with
  | nil => exact absurd rfl h
  | cons n a k rest => exact List.cons_ne_nil _ _

theorem prune_cons_gone (h : Gone hv n a k) : (cons n a k rest).prune hv = rest.prune hv := if_pos h

theorem prune_cons_stay (h : ¬ Gone hv n a k) :
    (cons n a k rest).prune hv = cons n a (k.prune hv) (rest.prune hv) := if_neg h

theorem addrs_prune : ∀ f : Forest, (f.prune hv).addrs.Sublist f.addrs
  | .nil => .slnil
  | .cons n a k rest => by
    by_cases h : Gone hv n a k
    · rw [prune_cons_gone h, addrs]
      exact ((addrs_prune rest).trans (List.sublist_append_right _ _)).cons _
    · rw [prune_cons_stay h, addrs, addrs]
      exact (((List.Sublist.refl a).append (addrs_prune k)).append (addrs_prune rest)).cons_cons n

theorem prune_ne_nil_of_last (h : f ≠ nil) (hl : ¬ f.LastGone hv) : f.prune hv ≠ nil := by
  induction f with
  | nil => exact absurd rfl h
  | cons n a k rest ihk ih =>
    by_cases hg : Gone hv n a k
    · rw [prune_cons_gone hg]
      cases rest with
      | nil => exact absurd hg hl
      | cons => exact ih (by simp) hl
    · rw [prune_cons_stay hg]
      simp

/-- Where a node that stays loses its last child, something stays. -/
theorem prune_ne_nil_of_unsettled (h : ¬ f.Settled hv top) : f.prune hv ≠ nil := by
  induction f generalizing top with
  | nil => exact absurd trivial h
  | cons n a k rest ihk ih =>
    by_cases hg : Gone hv n a k
    · rw [prune_cons_gone hg]
      have hk : k.Settled hv false := by
        by_contra hk
        exact ihk hk hg.2.2
      refine @ih top fun hr => h ⟨hk, hr, fun _ _ hg' => absurd hg hg'⟩
    · rw [prune_cons_stay hg]
      simp

theorem lastGone_cons (h : rest ≠ nil) : (cons n a k rest).LastGone hv ↔ rest.LastGone hv := by
  cases rest with
  | nil => exact absurd rfl h
  | cons => exact Iff.rfl

theorem endsGone_cons (h : rest ≠ nil) : (cons n a k rest).EndsGone hv ↔ rest.EndsGone hv := by
  cases rest with
  | nil => exact absurd rfl h
  | cons => exact Iff.rfl

/-- The turns of the walk over the siblings: one for each node, and one for each
attribute in front of a child. -/
def turns : Forest → Nat
  | nil => 0
  | cons _ a k rest => 1 + (if k = nil then 0 else a.length + k.turns) + rest.turns

theorem EndsGone.of_last (h : f.LastGone hv) : f.EndsGone hv := by
  induction f with
  | nil => exact h
  | cons n a k rest _ ih =>
    cases rest with
    | nil => exact .inl h
    | cons => exact ih h

end Forest

namespace XmlTree

variable {hv : Nat → Bool} {mem mem' : Nat → Node} {T T' T₁ T₂ : XmlTree} {x p n q : Nat} {a a' pre ks rs s : List Nat}
  {f k rest : Forest}

/-! ## Lists -/

theorem Owns.congr (h : Owns mem x a ks) (hchild : (mem' x).child = (mem x).child)
    (hattr : (mem' x).hasAttr = (mem x).hasAttr) (hflag : (mem' x).hasChild = (mem x).hasChild)
    (hlist : ∀ k ∈ a ++ ks, (mem' k).next = (mem k).next ∧ (mem' k).type = (mem k).type ∧
      (mem' k).parent = (mem k).parent) : Owns mem' x a ks where
  chain := by
    rw [hchild]
    exact h.chain.congr fun k hk => (hlist k hk).1
  attr k hk := by
    rw [(hlist k (List.mem_append_left _ hk)).2.1]
    exact h.attr k hk
  kid k hk := by
    obtain ⟨-, htype, hparent⟩ := hlist k (List.mem_append_right _ hk)
    rw [htype, hparent]
    exact h.kid k hk
  hasAttr := by rw [hattr, h.hasAttr]
  hasChild := by rw [hflag, h.hasChild]

/-- Of the siblings themselves, the lists need what their own lists need, but not what is behind
them. -/
theorem Draws.congr : ∀ {f : Forest}, Draws mem f → (∀ x ∈ f.roots, mem' x = { mem x with next := (mem' x).next }) →
    (∀ x ∈ f.under, mem' x = mem x) → Draws mem' f
  | .nil, _, _, _ => trivial
  | .cons n a k rest, h, hroots, hunder => by
    obtain ⟨howns, hk, hrest⟩ := h
    simp only [roots, List.forall_mem_cons] at hroots
    simp only [under, List.forall_mem_append] at hunder
    obtain ⟨⟨ha, hkin⟩, hrin⟩ := hunder
    refine ⟨howns.congr (by rw [hroots.1]) (by rw [hroots.1]) (by rw [hroots.1]) fun x hx => ?_, ?_,
      hrest.congr hroots.2 hrin⟩
    · have heq : mem' x = mem x := by
        rcases List.mem_append.1 hx with hx | hx
        · exact ha x hx
        · exact hkin x (roots_subset k x hx)
      rw [heq]
      exact ⟨rfl, rfl, rfl⟩
    · exact hk.congr (fun x hx => by rw [hkin x (roots_subset k x hx)]) fun x hx => hkin x (under_subset k x hx)

theorem Draws.of_eq (h : Draws mem f) (heq : ∀ x ∈ f.addrs, mem' x = mem x) : Draws mem' f :=
  h.congr (fun x hx => by rw [heq x (roots_subset f x hx)]) fun x hx => heq x (under_subset f x hx)

/-- The search for the node in front of one of the list. -/
theorem findPrev_eq : ∀ {c : List Nat} {fuel k : Nat}, Chain T.mem (some k) (c ++ q :: n :: rs) →
    n ∉ c ++ [q] → c.length < fuel → T.findPrev n fuel k = some q
  | c, 0, _, _, _, hf => by omega
  | [], fuel + 1, k, h, _, _ => by
    obtain rfl : k = q := Option.some.inj h.1
    simp [findPrev, h.2.1]
  | i :: c, fuel + 1, k, h, hn, hf => by
    obtain rfl : k = i := Option.some.inj h.1
    have hnext : (T.mem k).next = some ((c ++ [q]).head (by simp)) := by
      have := h.2.head
      rw [← this]
      cases c <;> rfl
    rw [findPrev, hnext]
    have hne : (c ++ [q]).head (by simp) ≠ n := by
      intro heq
      exact hn (List.mem_cons_of_mem _ (heq ▸ List.head_mem _))
    simp only
    rw [if_neg hne]
    refine findPrev_eq (c := c) ?_ (fun h' => hn (List.mem_cons_of_mem _ h')) (by simpa using hf)
    rw [← hnext]
    exact h.2

/-! ## A node is taken out -/

/-- The node `n` has been taken out of the list of `p`, from between `pre` and `rs`. -/
structure Unlinked (T T₂ : XmlTree) (p : Nat) (a pre : List Nat) (n : Nat) (rs : List Nat) : Prop where
  owns : Owns T₂.mem p a (pre ++ rs)
  same : SameContent T T₂
  self : (T₂.mem p).next = (T.mem p).next
  before : ∀ x ∈ a ++ pre, T₂.mem x = { T.mem x with next := (T₂.mem x).next }
  frame : ∀ x, x ∉ a ++ pre → x ≠ p → T₂.mem x = T.mem x
  freed : T₂.freed = n :: T.freed
  num : T₂.num = T.num
  root : T₂.root = T.root

/-- What the list of `p` becomes when its first node is taken out. -/
theorem unlinked_first (ho : Owns T.mem p [] (n :: rs)) (hp : p ∉ n :: rs)
    (hself : T₂.mem p = { T.mem p with child := rs.head?, hasChild := decide (rs ≠ []) })
    (hother : ∀ x, x ≠ p → T₂.mem x = T.mem x) (hfreed : T₂.freed = n :: T.freed) (hnum : T₂.num = T.num)
    (hroot : T₂.root = T.root) : Unlinked T T₂ p [] [] n rs := by
  have hlist : ∀ x ∈ rs, x ≠ p := by
    rintro x hx rfl
    exact hp (List.mem_cons_of_mem _ hx)
  refine ⟨⟨?_, by simp, fun k hk => ?_, ?_, ?_⟩, fun x => ?_, ?_, by simp, fun x _ hx => hother x hx, hfreed, hnum,
    hroot⟩
  · rw [hself]
    have hchain : Chain T.mem rs.head? rs := by
      have h := ho.chain.2
      rwa [← h.head] at h
    exact hchain.congr fun k hk => by rw [hother k (hlist k hk)]
  · rw [hother k (hlist k hk)]
    exact ho.kid k (List.mem_cons_of_mem _ hk)
  · rw [hself]
    exact ho.hasAttr
  · rw [hself]
    simp
  · by_cases hx : x = p
    · subst hx
      rw [hself]
    · rw [hother x hx]
  · rw [hself]

/-- What the list of `p` becomes when a node behind another is taken out. -/
theorem unlinked_behind {c : List Nat} (hc : a ++ pre = c ++ [q]) (ho : Owns T.mem p a (pre ++ n :: rs))
    (hnd : (p :: (a ++ pre ++ n :: rs)).Nodup)
    (hself : T₂.mem p = { T.mem p with hasChild := decide (pre ++ rs ≠ []) })
    (hprev : T₂.mem q = { T.mem q with next := rs.head? })
    (hother : ∀ x, x ≠ q → x ≠ p → T₂.mem x = T.mem x) (hfreed : T₂.freed = n :: T.freed) (hnum : T₂.num = T.num)
    (hroot : T₂.root = T.root) : Unlinked T T₂ p a pre n rs := by
  have hq : q ∈ a ++ pre := by rw [hc]; simp
  have hpl : p ∉ a ++ pre ++ n :: rs := (List.nodup_cons.1 hnd).1
  have hnext : ∀ x, x ≠ p → T₂.mem x = { T.mem x with next := (T₂.mem x).next } := by
    intro x hx
    by_cases hxq : x = q
    · subst hxq
      rw [hprev]
    · rw [hother x hxq hx]
  have hin : ∀ x ∈ a ++ (pre ++ rs), x ≠ p := by
    rintro x hx rfl
    refine hpl ?_
    simp only [List.mem_append, List.mem_cons] at hx ⊢
    tauto
  have hchain : Chain T.mem (T.mem p).child (c ++ q :: n :: rs) := by
    have h := ho.chain
    rwa [← List.append_assoc, hc, List.append_assoc] at h
  have hhead : (T.mem n).next = rs.head? := hchain.after.2.head.symm
  have hcq : q ∉ c ++ rs := by
    intro hmem
    refine (List.nodup_cons.1 (List.nodup_middle.1 hchain.nodup)).1 ?_
    simp only [List.mem_append, List.mem_cons] at hmem ⊢
    tauto
  refine ⟨⟨?_, fun k hk => ?_, fun k hk => ?_, ?_, ?_⟩, fun x => ?_, ?_, fun x hx => hnext x (hin x ?_), ?_, hfreed, hnum,
    hroot⟩
  · rw [hself, ← List.append_assoc, hc, List.append_assoc]
    refine hchain.remove (by rw [hprev, hhead]) fun k hk => ?_
    rw [hother k]
    · rintro rfl
      exact hcq hk
    · refine hin k ?_
      rw [← List.append_assoc, hc]
      simp only [List.mem_append, List.mem_singleton] at hk ⊢
      tauto
  · rw [hnext k (hin k (List.mem_append_left _ hk))]
    exact ho.attr k hk
  · rw [hnext k (hin k (List.mem_append_right _ hk))]
    refine ho.kid k ?_
    simp only [List.mem_append, List.mem_cons] at hk ⊢
    tauto
  · rw [hself]
    exact ho.hasAttr
  · rw [hself]
    exact decide_eq_true_iff
  · by_cases hx : x = p
    · subst hx
      rw [hself]
    · rw [hnext x hx]
  · rw [hself]
  · simp only [List.mem_append] at hx ⊢
    tauto
  · intro x hx hxp
    exact hother x (fun h => hx (h ▸ hq)) hxp

/-- Behind a node that has been taken out, the walk goes on with its sibling, or at its parent. -/
def after (d : Nat) (T₂ : XmlTree) (s : List Nat) (p : Nat) : List Nat → Option (XmlTree × List Nat × Option Nat)
  | [] => parentDone (xmlDeleteEmptyUp d) T₂ s p
  | m :: _ => some (T₂, s, some m)

theorem flag_eq (h : (mem p).hasChild = true) : mem p = { mem p with hasChild := true } := by rw [← h]

theorem xmlDeleteEmptyUp_first (ho : Owns T.mem p [] (n :: rs)) (hp : p ∉ n :: rs) (d : Nat) (s : List Nat) :
    ∃ T₂, Unlinked T T₂ p [] [] n rs ∧ xmlDeleteEmptyUp (d + 1) T s n = after d T₂ s p rs := by
  have hparent : (T.mem n).parent = some p := (ho.kid n (.head _)).2
  have hnext : (T.mem n).next = rs.head? := ho.chain.2.head.symm
  have hflag : (T.mem p).hasChild = true := ho.hasChild.2 (List.cons_ne_nil _ _)
  have hfirst : (T.mem p).child = some n := ho.chain.1
  cases rs with
  | nil =>
    refine ⟨((T.set p { T.mem p with child := none }).xmlNodeFreeOne n).unsetChild p,
      unlinked_first ho hp ?_ ?_ rfl rfl rfl, ?_⟩
    · simp [unsetChild]
    · rintro x hx
      simp [unsetChild, hx]
    · simp only [xmlDeleteEmptyUp, hparent, hfirst, if_true, hnext, List.head?_nil, after]
  | cons m rs =>
    refine ⟨(T.set p { T.mem p with child := some m }).xmlNodeFreeOne n, unlinked_first ho hp ?_ ?_ rfl rfl rfl, ?_⟩
    · simp [hflag]
    · rintro x hx
      simp [hx]
    · simp only [xmlDeleteEmptyUp, hparent, hfirst, if_true, hnext, List.head?_cons, after]

theorem xmlDeleteEmptyUp_behind {c : List Nat} (hc : a ++ pre = c ++ [q]) (ho : Owns T.mem p a (pre ++ n :: rs))
    (hnd : (p :: (a ++ pre ++ n :: rs)).Nodup) (hlt : ∀ x ∈ a ++ pre ++ n :: rs, x < T.num) (d : Nat) (s : List Nat) :
    ∃ T₂, Unlinked T T₂ p a pre n rs ∧ xmlDeleteEmptyUp (d + 1) T s n = after d T₂ s p rs := by
  have hparent : (T.mem n).parent = some p := (ho.kid n (by simp)).2
  have hflag : (T.mem p).hasChild = true := ho.hasChild.2 (by simp)
  have hpl : p ∉ a ++ pre ++ n :: rs := (List.nodup_cons.1 hnd).1
  have hq : q ∈ a ++ pre := by rw [hc]; simp
  have hqp : q ≠ p := by
    rintro rfl
    exact hpl (List.mem_append_left _ hq)
  have hnq : n ∉ c ++ [q] := by
    intro h
    have hnd' : (c ++ [q] ++ n :: rs).Nodup := hc ▸ (List.nodup_cons.1 hnd).2
    exact (List.nodup_append.1 hnd').2.2 n h n (.head _) rfl
  have hchain : Chain T.mem (T.mem p).child (c ++ q :: n :: rs) := by
    have h := ho.chain
    rwa [← List.append_assoc, hc, List.append_assoc] at h
  have hnext : (T.mem n).next = rs.head? := hchain.after.2.head.symm
  obtain ⟨k, hk, hkc⟩ : ∃ k, (T.mem p).child = some k ∧ k ∈ c ++ [q] := by
    have h := hchain.head
    cases c with
    | nil => exact ⟨q, h.symm, .head _⟩
    | cons i c => exact ⟨i, h.symm, .head _⟩
  have hkn : some k ≠ some n := fun h => hnq (Option.some.inj h ▸ hkc)
  have hlen : c.length < T.num := by
    have hsub : (a ++ pre ++ n :: rs).length ≤ (List.range T.num).length :=
      (List.nodup_cons.1 hnd).2.length_le_of_subset fun x hx => List.mem_range.2 (hlt x hx)
    rw [hc, List.length_range] at hsub
    simp only [List.length_append, List.length_cons] at hsub
    omega
  have hfind : T.findPrev n T.num k = some q := findPrev_eq (hk ▸ hchain) hnq hlen
  -- the node in front is an attribute if it is the last of them
  have hattr : T.isAttr q = true ↔ pre = [] := by
    rcases List.eq_nil_or_concat pre with rfl | ⟨pre', q', rfl⟩
    · simp [isAttr, ho.attr q (by simpa using hq)]
    · have heq : q' = q := by
        rw [List.concat_eq_append, ← List.append_assoc] at hc
        simpa using (List.append_inj' hc rfl).2
      subst heq
      simp [isAttr, (ho.kid q' (by simp)).1]
  cases rs with
  | nil =>
    have hattr' : ((T.set q { T.mem q with next := none }).xmlNodeFreeOne n).isAttr q = T.isAttr q := by simp [isAttr]
    refine ⟨if T.isAttr q then ((T.set q { T.mem q with next := none }).xmlNodeFreeOne n).unsetChild p
      else (T.set q { T.mem q with next := none }).xmlNodeFreeOne n, unlinked_behind hc ho hnd ?_ ?_ ?_ ?_ ?_ ?_, ?_⟩
    · split
      · simp [unsetChild, hqp.symm, hattr.1 ‹_›]
      · simpa [hqp.symm, mt hattr.2 ‹_›] using flag_eq hflag
    · split <;> simp [unsetChild, hqp]
    · intro x hxq hxp
      split <;> simp [unsetChild, hxq, hxp]
    · split <;> rfl
    · split <;> rfl
    · split <;> rfl
    · simp only [xmlDeleteEmptyUp, hparent, hk, if_neg hkn, Option.bind_some, hfind, hnext, List.head?_nil, hattr', after]
  | cons m rs =>
    refine ⟨(T.set q { T.mem q with next := some m }).xmlNodeFreeOne n,
      unlinked_behind hc ho hnd ?_ ?_ ?_ rfl rfl rfl, ?_⟩
    · simpa [hqp.symm] using flag_eq hflag
    · simp
    · intro x hxq hxp
      simp [hxq]
    · simp only [xmlDeleteEmptyUp, hparent, hk, if_neg hkn, Option.bind_some, hfind, hnext, List.head?_cons, after]

theorem xmlDeleteEmptyUp_unlink (ho : Owns T.mem p a (pre ++ n :: rs)) (hnd : (p :: (a ++ pre ++ n :: rs)).Nodup)
    (hlt : ∀ x ∈ a ++ pre ++ n :: rs, x < T.num) (d : Nat) (s : List Nat) :
    ∃ T₂, Unlinked T T₂ p a pre n rs ∧ xmlDeleteEmptyUp (d + 1) T s n = after d T₂ s p rs := by
  rcases List.eq_nil_or_concat (a ++ pre) with hnil | ⟨c, q, hc⟩
  · obtain ⟨rfl, rfl⟩ := List.append_eq_nil_iff.1 hnil
    exact xmlDeleteEmptyUp_first ho (List.nodup_cons.1 hnd).1 d s
  · rw [List.concat_eq_append] at hc
    exact xmlDeleteEmptyUp_behind hc ho hnd hlt d s

/-! ## What the walk leaves of siblings -/

/-- The siblings `f` behind `pre` have been passed, and the siblings `rs` follow: the list of their
parent and their own are those of the pruned trees, and nothing else has changed. -/
structure Passed (hv : Nat → Bool) (T T₁ : XmlTree) (p : Nat) (a pre : List Nat) (f : Forest) (rs : List Nat) :
    Prop where
  owns : Owns T₁.mem p a (pre ++ (f.prune hv).roots ++ rs)
  draws : Draws T₁.mem (f.prune hv)
  same : SameContent T T₁
  self : (T₁.mem p).next = (T.mem p).next
  before : ∀ x ∈ a ++ pre, T₁.mem x = { T.mem x with next := (T₁.mem x).next }
  frame : ∀ x ∉ p :: (a ++ pre ++ f.addrs), T₁.mem x = T.mem x
  freed : ∀ x ∈ T₁.freed, x ∈ T.freed ∨ x ∈ f.addrs ∧ x ∉ (f.prune hv).addrs
  num : T₁.num = T.num
  root : T₁.root = T.root

/-- The walk is at the siblings `f`, behind `pre`. -/
structure Here (hv : Nat → Bool) (T : XmlTree) (p : Nat) (a pre : List Nat) (f : Forest) (s : List Nat) : Prop where
  owns : Owns T.mem p a (pre ++ f.roots)
  draws : Draws T.mem f
  nodup : (p :: (a ++ pre ++ f.addrs)).Nodup
  lt : ∀ x ∈ a ++ pre ++ f.addrs, x < T.num
  value : ∀ n, (T.mem n).hasValue = hv n
  room : s.length + f.height ≤ XML_MAX_DEPTH

theorem SameContent.refl (T : XmlTree) : SameContent T T := fun _ => rfl

theorem SameContent.trans (h : SameContent T T₁) (h' : SameContent T₁ T₂) : SameContent T T₂ := fun n => by
  rw [h' n, h n]

theorem SameContent.value (h : SameContent T T₁) (n : Nat) : (T₁.mem n).hasValue = (T.mem n).hasValue := by rw [h n]

/-- The part of `Here` about the children of the first node. -/
theorem Here.kids (h : Here hv T p a pre (cons n a' k rest) s) : Here hv T n a' [] k (n :: s) where
  owns := h.draws.1
  draws := h.draws.2.1
  nodup := by
    refine (h.nodup.sublist ?_)
    refine List.Sublist.cons _ (List.Sublist.trans ?_ (List.sublist_append_right _ _))
    rw [addrs, List.append_nil]
    exact (List.sublist_append_left _ _).cons_cons n
  lt x hx := h.lt x <| by
    simp only [List.append_nil, List.mem_append] at hx
    simp only [addrs, List.mem_append, List.mem_cons]
    tauto
  value := h.value
  room := by
    have hroom := h.room
    simp only [height] at hroom
    simp only [List.length_cons]
    omega

/-- The list of the parent, when nothing of it but the children of its nodes has changed. -/
theorem Here.owns_of_kids (h : Here hv T p a pre (cons n a' k rest) s) (hp : Passed hv T T₁ n a' [] k []) :
    Owns T₁.mem p a (pre ++ n :: rest.roots) := by
  have hnd := h.nodup
  simp only [addrs, List.nodup_cons, List.nodup_append, List.mem_append, List.mem_cons] at hnd
  have hpar : T₁.mem p = T.mem p := hp.frame p fun hx => by
    simp only [List.append_nil, List.mem_cons, List.mem_append] at hx
    tauto
  refine h.owns.congr (by rw [hpar]) (by rw [hpar]) (by rw [hpar]) fun x hx => ?_
  by_cases hxn : x = n
  · subst hxn
    exact ⟨hp.self, by rw [hp.same x], by rw [hp.same x]⟩
  · have heq : T₁.mem x = T.mem x := hp.frame x fun hx' => by
      simp only [roots, List.append_nil, List.mem_cons, List.mem_append] at hx hx'
      have hr := roots_subset rest x
      grind
    rw [heq]
    exact ⟨rfl, rfl, rfl⟩

/-- A node with what is left of its children stays. -/
theorem Passed.stay (h : Here hv T p a pre (cons n a' k rest) s) (hp : Passed hv T T₁ n a' [] k [])
    (hg : ¬ Gone hv n a' k) : Passed hv T T₁ p a pre (cons n a' k nil) rest.roots := by
  have hprune : (cons n a' k nil).prune hv = cons n a' (k.prune hv) nil := prune_cons_stay hg
  have hnd := h.nodup
  simp only [addrs, List.nodup_cons, List.nodup_append, List.mem_append, List.mem_cons] at hnd
  have hout : ∀ x, x = p ∨ x ∈ a ++ pre → x ∉ n :: (a' ++ [] ++ k.addrs) := fun x hx hx' => by
    simp only [List.append_nil, List.mem_cons, List.mem_append] at hx hx'
    grind
  refine ⟨?_, ?_, hp.same, ?_, fun x hx => ?_, fun x hx => hp.frame x fun hx' => hx ?_, fun x hx => ?_, hp.num, hp.root⟩
  · rw [hprune, roots, roots, List.append_assoc, List.singleton_append]
    exact h.owns_of_kids hp
  · rw [hprune]
    have howns := hp.owns
    rw [List.nil_append, List.append_nil] at howns
    exact ⟨howns, hp.draws, trivial⟩
  · rw [hp.frame p (hout p (.inl rfl))]
  · rw [hp.frame x (hout x (.inr hx))]
  · simp only [addrs, List.append_nil, List.mem_cons, List.mem_append] at hx' ⊢
    tauto
  · refine (hp.freed x hx).imp_right fun ⟨hxk, hxp⟩ => ?_
    rw [hprune]
    simp only [addrs, List.append_nil, List.mem_cons, List.mem_append]
    grind

/-- A node of which nothing is left is taken out. -/
theorem Passed.gone (h : Here hv T p a pre (cons n a' k rest) s) (hp : Passed hv T T₁ n a' [] k [])
    (hg : Gone hv n a' k) (hu : Unlinked T₁ T₂ p a pre n rest.roots) :
    Passed hv T T₂ p a pre (cons n a' k nil) rest.roots := by
  have hprune : (cons n a' k nil).prune hv = nil := prune_cons_gone hg
  have hnd := h.nodup
  simp only [addrs, List.nodup_cons, List.nodup_append, List.mem_append, List.mem_cons] at hnd
  have hout : ∀ x, x = p ∨ x ∈ a ++ pre → x ∉ n :: (a' ++ [] ++ k.addrs) := fun x hx hx' => by
    simp only [List.append_nil, List.mem_cons, List.mem_append] at hx hx'
    grind
  refine ⟨?_, ?_, hp.same.trans hu.same, ?_, fun x hx => ?_, fun x hx => ?_, fun x hx => ?_, hu.num.trans hp.num,
    hu.root.trans hp.root⟩
  · rw [hprune, roots, List.append_nil]
    exact hu.owns
  · rw [hprune]
    trivial
  · rw [hu.self, hp.frame p (hout p (.inl rfl))]
  · rw [hu.before x hx, hp.frame x (hout x (.inr hx))]
  · simp only [addrs, List.append_nil, List.mem_cons, List.mem_append] at hx
    rw [hu.frame x (by simp only [List.mem_append]; tauto) (by tauto), hp.frame x]
    simp only [List.append_nil, List.mem_cons, List.mem_append]
    tauto
  · rw [hu.freed, List.mem_cons] at hx
    rw [hprune]
    simp only [addrs, List.append_nil, List.mem_cons, List.mem_append, List.not_mem_nil, not_false_eq_true, and_true]
    rcases hx with rfl | hx
    · exact .inr (.inl rfl)
    · exact (hp.freed x hx).imp_right fun hx => .inr (.inr hx.1)

/-- The first sibling has been passed, and the walk is at the others. -/
theorem Here.others (h : Here hv T p a pre (cons n a' k rest) s)
    (hp : Passed hv T T₂ p a pre (cons n a' k nil) rest.roots) :
    Here hv T₂ p a (pre ++ ((cons n a' k nil).prune hv).roots) rest s := by
  have hsub : (p :: (a ++ (pre ++ ((cons n a' k nil).prune hv).roots) ++ rest.addrs)).Sublist
      (p :: (a ++ pre ++ (cons n a' k rest).addrs)) := by
    refine List.Sublist.cons_cons p ?_
    rw [← List.append_assoc, List.append_assoc]
    refine (List.Sublist.refl _).append ?_
    by_cases hg : Gone hv n a' k
    · rw [prune_cons_gone hg, prune, roots, List.nil_append, addrs]
      exact (List.sublist_append_right _ _).cons n
    · rw [prune_cons_stay hg, prune, roots, roots, addrs, List.singleton_append]
      exact (List.sublist_append_right _ _).cons_cons n
  have hnd := h.nodup
  simp only [addrs, List.nodup_cons, List.nodup_append, List.mem_append, List.mem_cons] at hnd
  refine ⟨hp.owns, ?_, h.nodup.sublist hsub, fun x hx => ?_, fun n => ?_, ?_⟩
  · refine h.draws.2.2.of_eq fun x hx => hp.frame x fun hx' => ?_
    simp only [addrs, List.append_nil, List.mem_cons, List.mem_append] at hx'
    grind
  · rw [hp.num]
    have hx' := hsub.subset (List.mem_cons_of_mem p hx)
    rcases List.mem_cons.1 hx' with rfl | hx'
    · exact absurd hx (List.nodup_cons.1 (h.nodup.sublist hsub)).1
    · exact h.lt x hx'
  · rw [hp.same.value, h.value]
  · have hroom := h.room
    simp only [height] at hroom
    omega

/-! ## One sibling after the other -/

theorem roots_prune_cons :
    ((cons n a' k rest).prune hv).roots = ((cons n a' k nil).prune hv).roots ++ (rest.prune hv).roots := by
  by_cases hg : Gone hv n a' k
  · rw [prune_cons_gone hg, prune_cons_gone hg]
    rfl
  · rw [prune_cons_stay hg, prune_cons_stay hg]
    rfl

theorem mem_addrs_prune_cons : x ∈ ((cons n a' k rest).prune hv).addrs ↔
    x ∈ ((cons n a' k nil).prune hv).addrs ∨ x ∈ (rest.prune hv).addrs := by
  by_cases hg : Gone hv n a' k
  · rw [prune_cons_gone hg, prune_cons_gone hg]
    simp [prune, addrs]
  · rw [prune_cons_stay hg, prune_cons_stay hg]
    simp [prune, addrs, or_assoc]

theorem draws_prune_cons : Draws mem ((cons n a' k rest).prune hv) ↔
    Draws mem ((cons n a' k nil).prune hv) ∧ Draws mem (rest.prune hv) := by
  by_cases hg : Gone hv n a' k
  · rw [prune_cons_gone hg, prune_cons_gone hg]
    simp [prune, Draws]
  · rw [prune_cons_stay hg, prune_cons_stay hg]
    simp [prune, Draws, and_assoc]

theorem roots_prune_single (hx : x ∈ ((cons n a' k nil).prune hv).roots) : x = n := by
  by_cases hg : Gone hv n a' k
  · rw [prune_cons_gone hg] at hx
    cases hx
  · rw [prune_cons_stay hg] at hx
    exact List.mem_singleton.1 hx

theorem under_prune_single (hx : x ∈ ((cons n a' k nil).prune hv).under) : x ∈ a' ∨ x ∈ k.addrs := by
  by_cases hg : Gone hv n a' k
  · rw [prune_cons_gone hg] at hx
    cases hx
  · rw [prune_cons_stay hg] at hx
    simp only [under, prune, List.append_nil, List.mem_append] at hx
    exact hx.imp_right fun hx => (addrs_prune k).subset hx

theorem Passed.append (h : Here hv T p a pre (cons n a' k rest) s)
    (h₁ : Passed hv T T₁ p a pre (cons n a' k nil) rest.roots)
    (h₂ : Passed hv T₁ T₂ p a (pre ++ ((cons n a' k nil).prune hv).roots) rest []) :
    Passed hv T T₂ p a pre (cons n a' k rest) [] := by
  have hnd := h.nodup
  simp only [addrs, List.nodup_cons, List.nodup_append, List.mem_append, List.mem_cons] at hnd
  refine ⟨?_, ?_, h₁.same.trans h₂.same, h₂.self.trans h₁.self, fun x hx => ?_, fun x hx => ?_, fun x hx => ?_,
    h₂.num.trans h₁.num, h₂.root.trans h₁.root⟩
  · rw [roots_prune_cons, ← List.append_assoc]
    exact h₂.owns
  · -- behind the others, the first sibling has its list, and all below it, as before
    refine draws_prune_cons.2 ⟨h₁.draws.congr (fun x hx => ?_) fun x hx => h₂.frame x fun hx' => ?_, h₂.draws⟩
    · exact h₂.before x (List.mem_append_right _ (List.mem_append_right _ hx))
    · have hxn : x ∈ ((cons n a' k nil).prune hv).roots → x = n := roots_prune_single
      have hxu := under_prune_single hx
      simp only [List.mem_cons, List.mem_append] at hx'
      grind
  · rw [h₂.before x (by rw [← List.append_assoc]; exact List.mem_append_left _ hx), h₁.before x hx]
  · simp only [addrs, List.mem_cons, List.mem_append] at hx
    rw [h₂.frame x fun hx' => ?_, h₁.frame x fun hx' => ?_]
    · simp only [addrs, List.append_nil, List.mem_cons, List.mem_append] at hx'
      tauto
    · have hxn : x ∈ ((cons n a' k nil).prune hv).roots → x = n := roots_prune_single
      simp only [List.mem_cons, List.mem_append] at hx'
      tauto
  · have hr : x ∈ (rest.prune hv).addrs → x ∈ rest.addrs := fun hx => (addrs_prune rest).subset hx
    have hk : x ∈ ((cons n a' k nil).prune hv).addrs → x ∈ (cons n a' k nil).addrs := fun hx => (addrs_prune _).subset hx
    have h₁' := h₁.freed x
    have h₂' := h₂.freed x hx
    rw [mem_addrs_prune_cons]
    simp only [addrs, List.append_nil, List.mem_cons, List.mem_append] at h₁' hk ⊢
    grind

/-! ## The loops -/

/-- The loop behind a node that stays and has no sibling behind it. -/
def climbStack (T : XmlTree) : List Nat → Option (Nat × List Nat)
  | [] => none
  | top :: s => T.climb s top

theorem climb_eq (T : XmlTree) (s : List Nat) (n : Nat) : T.climb s n =
    match (T.mem n).next with
    | some m => some (m, s)
    | none => climbStack T s := by
  cases s with
  | nil =>
    rw [climb]
    cases (T.mem n).next <;> rfl
  | cons top s =>
    rw [climb]
    cases (T.mem n).next <;> rfl

/-- Behind a parent that stays when its last child is taken out. -/
def behind (d : Nat) (T : XmlTree) (s : List Nat) (n : Nat) : Option (XmlTree × List Nat × Option Nat) :=
  match (T.mem n).next with
  | some m => some (T, s, some m)
  | none =>
    match s with
    | [] => some (T, [], none)
    | top :: s => xmlDeleteEmptyUp d T s top

theorem parentDone_cons (d : Nat) (T : XmlTree) (s : List Nat) (n : Nat) :
    parentDone (xmlDeleteEmptyUp d) T (n :: s) n = if T.isBare n then xmlDeleteEmptyUp d T s n else behind d T s n := rfl

/-- The walk goes on. -/
def goOn (fuel : Nat) (r : XmlTree × List Nat × Option Nat) : Option (XmlTree × Bool) :=
  deleteEmptyLoop fuel r.1 r.2.1 r.2.2

theorem loop_skip_attrs : ∀ {a ks : List Nat} {c : Option Nat} (fuel : Nat), Chain T.mem c (a ++ ks) →
    (∀ x ∈ a, (T.mem x).type = .attr) → ks ≠ [] →
    deleteEmptyLoop (a.length + fuel) T s c = deleteEmptyLoop fuel T s ks.head?
  | [], ks, c, fuel, h, _, _ => by
    rw [List.length_nil, Nat.zero_add, ← h.head, List.nil_append]
  | i :: a, ks, c, fuel, h, ha, hks => by
    have hi : T.isAttr i = true := by simp [isAttr, ha i (.head _)]
    obtain ⟨rfl, htail⟩ := h
    have hnext : (T.mem i).next = (a ++ ks).head? := htail.head.symm
    obtain ⟨m, hm⟩ : ∃ m, (a ++ ks).head? = some m := by
      cases a with
      | nil =>
        cases ks with
        | nil => exact absurd rfl hks
        | cons m ks => exact ⟨m, rfl⟩
      | cons m a => exact ⟨m, rfl⟩
    rw [show (i :: a).length + fuel = a.length + fuel + 1 by simp; omega, deleteEmptyLoop, if_pos hi, hnext, hm]
    show deleteEmptyLoop (a.length + fuel) T s (some m) = _
    rw [← hm, ← hnext]
    exact loop_skip_attrs fuel htail (fun x hx => ha x (.tail _ hx)) hks

theorem loop_none (fuel : Nat) (T : XmlTree) (s : List Nat) : deleteEmptyLoop fuel T s none = some (T, true) := by
  cases fuel <;> rfl

theorem behind_next {d m : Nat} (h : (T.mem n).next = some m) : behind d T s n = some (T, s, some m) := by
  rw [behind.eq_def, h]

theorem behind_none {d : Nat} (h : (T.mem n).next = none) : behind d T [] n = some (T, [], none) := by
  rw [behind, h]

/-- How the walk goes on behind the last of the siblings `f`. -/
structure Ends (hv : Nat → Bool) (T₁ : XmlTree) (p : Nat) (f : Forest) (s : List Nat) (fuel : Nat)
    (o : Option (XmlTree × Bool)) : Prop where
  gone : f.LastGone hv → o = (parentDone (xmlDeleteEmptyUp s.length) T₁ s p).bind (goOn fuel)
  stays : ¬ f.LastGone hv → ¬ (s = [] ∧ f.EndsGone hv) →
    o = (climbStack T₁ s).bind fun r => deleteEmptyLoop fuel T₁ r.2 (some r.1)
  ended : ¬ f.LastGone hv → s = [] ∧ f.EndsGone hv → o = some (T₁, true)

/-- How the walk goes on when the children of a node have been passed. -/
structure Kids (hv : Nat → Bool) (T₁ : XmlTree) (n : Nat) (a : List Nat) (k : Forest) (s : List Nat) (fuel : Nat)
    (o : Option (XmlTree × Bool)) : Prop where
  gone : Gone hv n a k → o = (xmlDeleteEmptyUp (s.length + 1) T₁ s n).bind (goOn fuel)
  lost : ¬ Gone hv n a k → k.LastGone hv → o = (behind (s.length + 1) T₁ s n).bind (goOn fuel)
  stays : ¬ Gone hv n a k → ¬ k.LastGone hv →
    o = (T₁.climb s n).bind fun r => deleteEmptyLoop fuel T₁ r.2 (some r.1)

theorem roots_eq_nil : f.roots = [] ↔ f = nil := by
  cases f <;> simp [roots]

/-- What the code looks at to know whether anything is left of a node. -/
theorem Passed.isBare (h : Here hv T p a pre (cons n a' k rest) s) (hp : Passed hv T T₁ n a' [] k []) :
    T₁.isBare n = true ↔ Gone hv n a' k := by
  have hattr := hp.owns.hasAttr
  have hchild := hp.owns.hasChild
  rw [List.nil_append, List.append_nil] at hchild
  rw [XmlTree.isBare, Gone, ← roots_eq_nil (f := k.prune hv), ← h.value n, ← hp.same.value n]
  simp only [Bool.and_eq_true, Bool.not_eq_true', ← Bool.not_eq_true, hattr, hchild, not_not, and_assoc]

theorem Here.isAttr (h : Here hv T p a pre (cons n a' k rest) s) : T.isAttr n = false := by
  have htype := (h.owns.kid n (by simp [roots])).1
  simp [XmlTree.isAttr, htype]

/-- The walk goes to the children of a node. -/
theorem loop_enter (fuel : Nat) (h : Here hv T p a pre (cons n a' k rest) s) (hk : k ≠ nil) :
    deleteEmptyLoop (1 + (if k = nil then 0 else a'.length + k.turns) + fuel) T s (some n) =
      deleteEmptyLoop (k.turns + fuel) T (n :: s) k.roots.head? := by
  have howns := h.draws.1
  have hchild : (T.mem n).hasChild = true := howns.hasChild.2 (roots_ne_nil hk)
  have hroom : s.length < XML_MAX_DEPTH := by
    have hroom := h.room
    simp only [height] at hroom
    omega
  rw [if_neg hk, show 1 + (a'.length + k.turns) + fuel = a'.length + (k.turns + fuel) + 1 by omega, deleteEmptyLoop]
  simp only [h.isAttr, hchild, Bool.false_eq_true, if_false, if_true, if_neg (Nat.not_le.2 hroom)]
  exact loop_skip_attrs _ howns.chain howns.attr (roots_ne_nil hk)

/-- The walk passes the children of a node. -/
theorem walk_kids (fuel : Nat) (h : Here hv T p a pre (cons n a' k rest) s)
    (ih : k ≠ nil → ∃ T₁, Passed hv T T₁ n a' [] k [] ∧
      Ends hv T₁ n k (n :: s) fuel (deleteEmptyLoop (k.turns + fuel) T (n :: s) k.roots.head?)) :
    ∃ T₁, Passed hv T T₁ n a' [] k [] ∧ Kids hv T₁ n a' k s fuel
      (deleteEmptyLoop (1 + (if k = nil then 0 else a'.length + k.turns) + fuel) T s (some n)) := by
  by_cases hk : k = nil
  · subst hk
    have howns := h.draws.1
    have hchild : (T.mem n).hasChild = false := by
      have hchild := howns.hasChild
      simpa [roots] using hchild
    have hp : Passed hv T T n a' [] nil [] :=
      ⟨by simpa [prune, roots] using howns, trivial, .refl T, rfl, fun _ _ => rfl, fun _ _ => rfl, fun _ => .inl,
        rfl, rfl⟩
    have hgone := hp.isBare h
    refine ⟨T, hp, fun hg => ?_, fun _ hl => absurd hl id, fun hg _ => ?_⟩
    · have hbare := hgone.2 hg
      simp only [XmlTree.isBare, hchild, Bool.not_false, Bool.and_true, Bool.and_eq_true, Bool.not_eq_true'] at hbare
      rw [if_pos rfl, Nat.add_zero, Nat.add_comm, deleteEmptyLoop]
      simp only [h.isAttr, hchild, hbare, Bool.false_eq_true, if_false, Bool.or_self]
      rfl
    · have hbare := mt hgone.1 hg
      have hkeep : ((T.mem n).hasValue || (T.mem n).hasAttr) = true := by
        simp only [XmlTree.isBare, hchild] at hbare
        cases hval : (T.mem n).hasValue <;> cases hatt : (T.mem n).hasAttr <;> simp_all
      rw [if_pos rfl, Nat.add_zero, Nat.add_comm, deleteEmptyLoop]
      simp only [h.isAttr, hchild, hkeep, Bool.false_eq_true, if_false, if_true]
  · obtain ⟨T₁, hp, he⟩ := ih hk
    have hgone := hp.isBare h
    rw [loop_enter fuel h hk]
    refine ⟨T₁, hp, fun hg => ?_, fun hg hl => ?_, fun _ hl => he.stays hl fun h' => absurd h'.1 (List.cons_ne_nil _ _)⟩
    · have hl : k.LastGone hv := by
        by_contra hl
        exact prune_ne_nil_of_last hk hl hg.2.2
      rw [he.gone hl, parentDone_cons, if_pos (hgone.2 hg)]
      rfl
    · rw [he.gone hl, parentDone_cons, if_neg (mt hgone.1 hg)]
      rfl

/-- The walk passes a node; behind the last of the siblings, it goes on in one of the loops. -/
theorem walk_node {fuel : Nat} {o : Option (XmlTree × Bool)} (h : Here hv T p a pre (cons n a' k rest) s)
    (hp : Passed hv T T₁ n a' [] k []) (ho : Kids hv T₁ n a' k s fuel o)
    (hset : s ≠ [] → rest = nil → ¬ Gone hv n a' k → ¬ k.LastGone hv) :
    ∃ T₂, Passed hv T T₂ p a pre (cons n a' k nil) rest.roots ∧
      (rest = nil → Ends hv T₂ p (cons n a' k nil) s fuel o) ∧
      (rest ≠ nil → o = deleteEmptyLoop fuel T₂ s rest.roots.head?) := by
  have howns := h.owns_of_kids hp
  have hnext : (T₁.mem n).next = rest.roots.head? := by
    have hc := howns.chain
    rw [← List.append_assoc] at hc
    exact hc.after.head.symm
  by_cases hg : Gone hv n a' k
  · have hsub : (p :: (a ++ pre ++ n :: rest.roots)).Sublist (p :: (a ++ pre ++ (cons n a' k rest).addrs)) := by
      refine List.Sublist.cons_cons p ((List.Sublist.refl _).append ?_)
      rw [addrs]
      exact ((roots_sublist rest).trans (List.sublist_append_right _ _)).cons_cons n
    have hlt : ∀ x ∈ a ++ pre ++ n :: rest.roots, x < T₁.num := fun x hx => by
      rw [hp.num]
      rcases List.mem_cons.1 (hsub.subset (.tail p hx)) with rfl | hx'
      · exact absurd hx (List.nodup_cons.1 (h.nodup.sublist hsub)).1
      · exact h.lt x hx'
    obtain ⟨T₂, hu, hup⟩ := xmlDeleteEmptyUp_unlink howns (h.nodup.sublist hsub) hlt s.length s
    refine ⟨T₂, hp.gone h hg hu, fun hr => ⟨fun _ => ?_, fun hl => absurd hg hl, fun hl => absurd hg hl⟩, fun hr => ?_⟩
    · subst hr
      rw [ho.gone hg, hup]
      rfl
    · obtain ⟨m, l, hm⟩ := List.exists_cons_of_ne_nil (roots_ne_nil hr)
      rw [ho.gone hg, hup, hm]
      rfl
  · refine ⟨T₁, hp.stay h hg, fun hr => ⟨fun hl => absurd hl hg, fun _ hl => ?_, fun _ hl => ?_⟩, fun hr => ?_⟩
    · subst hr
      by_cases hlast : k.LastGone hv
      · have hs : s ≠ [] := fun hs => hl ⟨hs, .inr hlast⟩
        exact absurd hlast (hset hs rfl hg)
      · rw [ho.stays hg hlast, climb_eq, hnext]
        rfl
    · subst hr
      have hlast : k.LastGone hv := hl.2.resolve_left hg
      obtain ⟨rfl, -⟩ := hl
      rw [ho.lost hg hlast, behind_none hnext]
      exact loop_none fuel T₁ []
    · obtain ⟨m, l, hm⟩ := List.exists_cons_of_ne_nil (roots_ne_nil hr)
      by_cases hlast : k.LastGone hv
      · rw [ho.lost hg hlast, behind_next (hnext.trans (by rw [hm, List.head?_cons])), hm]
        rfl
      · rw [ho.stays hg hlast, climb_eq, hnext, hm]
        rfl

/-- The walk passes siblings. -/
theorem walk (fuel : Nat) (h : Here hv T p a pre f s) (hf : f ≠ nil) (hset : f.Settled hv s.isEmpty) :
    ∃ T₁, Passed hv T T₁ p a pre f [] ∧ Ends hv T₁ p f s fuel (deleteEmptyLoop (f.turns + fuel) T s f.roots.head?) := by
  induction f generalizing T p a pre s fuel with
  | nil => exact absurd rfl hf
  | cons n a' k rest ihk ih =>
    obtain ⟨hk, hrest, hset⟩ := hset
    have hturns : (cons n a' k rest).turns + fuel =
        1 + (if k = nil then 0 else a'.length + k.turns) + (rest.turns + fuel) := by
      rw [turns, Nat.add_assoc]
    obtain ⟨T₁, hp, ho⟩ := walk_kids (rest.turns + fuel) h fun hk' => ihk _ h.kids hk' hk
    obtain ⟨T₂, hp₂, hlast, hmore⟩ := walk_node h hp ho fun hs => hset (by simpa using hs)
    rw [hturns, roots, List.head?_cons]
    by_cases hr : rest = nil
    · subst hr
      exact ⟨T₂, hp₂, by simpa only [turns, Nat.zero_add] using hlast rfl⟩
    · obtain ⟨T₃, hp₃, he⟩ := ih _ (h.others hp₂) hr hrest
      refine ⟨T₃, hp₂.append h hp₃, ?_⟩
      rw [hmore hr]
      exact ⟨fun hl => he.gone ((lastGone_cons hr).1 hl), fun hl hs =>
        he.stays (mt (lastGone_cons hr).2 hl) fun hs' => hs ⟨hs'.1, (endsGone_cons hr).2 hs'.2⟩,
        fun hl hs => he.ended (mt (lastGone_cons hr).2 hl) ⟨hs.1, (endsGone_cons hr).1 hs.2⟩⟩

/-! ## Where it goes wrong -/

theorem xmlDeleteEmptyUp_freed {d : Nat} {r : XmlTree × List Nat × Option Nat} (h : xmlDeleteEmptyUp d T s n = some r) :
    n ∈ r.1.freed ∧ ∀ x ∈ T.freed, x ∈ r.1.freed := by
  induction d generalizing T s n with
  | zero => cases h
  | succ d ih =>
    have hdone : ∀ T₂ p, n ∈ T₂.freed → (∀ x ∈ T.freed, x ∈ T₂.freed) →
        parentDone (xmlDeleteEmptyUp d) T₂ s p = some r → n ∈ r.1.freed ∧ ∀ x ∈ T.freed, x ∈ r.1.freed := by
      intro T₂ p hn hsub hr
      have hagain : ∀ s' m, xmlDeleteEmptyUp d T₂ s' m = some r → n ∈ r.1.freed ∧ ∀ x ∈ T.freed, x ∈ r.1.freed :=
        fun s' m hr => ⟨(ih hr).2 n hn, fun x hx => (ih hr).2 x (hsub x hx)⟩
      rw [parentDone] at hr
      split at hr
      · exact hagain _ _ hr
      · split at hr
        · obtain rfl := Option.some.inj hr
          exact ⟨hn, hsub⟩
        · split at hr
          · obtain rfl := Option.some.inj hr
            exact ⟨hn, hsub⟩
          · exact hagain _ _ hr
    rw [xmlDeleteEmptyUp] at h
    split at h
    · cases h
    · simp only at h
      split at h
      · split at h
        · obtain rfl := Option.some.inj h
          exact ⟨List.mem_cons_self .., fun x hx => List.mem_cons_of_mem _ hx⟩
        · exact hdone _ _ (List.mem_cons_self ..) (fun x hx => List.mem_cons_of_mem _ hx) h
      · split at h
        · cases h
        · split at h
          · obtain rfl := Option.some.inj h
            exact ⟨List.mem_cons_self .., fun x hx => List.mem_cons_of_mem _ hx⟩
          · refine hdone _ _ ?_ (fun x hx => ?_) h
            · split <;> exact List.mem_cons_self ..
            · split <;> exact List.mem_cons_of_mem _ hx

theorem loop_freed {fuel : Nat} {o : Option Nat} {r : XmlTree × Bool} (h : deleteEmptyLoop fuel T s o = some r) :
    ∀ x ∈ T.freed, x ∈ r.1.freed := by
  induction fuel generalizing T s o with
  | zero =>
    cases o with
    | none =>
      obtain rfl := Option.some.inj h
      exact fun _ => id
    | some node => cases h
  | succ fuel ih =>
    cases o with
    | none =>
      obtain rfl := Option.some.inj h
      exact fun _ => id
    | some node =>
      rw [deleteEmptyLoop] at h
      split at h
      · split at h
        · exact ih h
        · obtain rfl := Option.some.inj h
          exact fun _ => id
      · split at h
        · split at h
          · obtain rfl := Option.some.inj h
            exact fun _ => id
          · exact ih h
        · split at h
          · obtain ⟨c, -, hc⟩ := Option.bind_eq_some_iff.1 h
            exact ih hc
          · obtain ⟨c, hup, hc⟩ := Option.bind_eq_some_iff.1 h
            exact fun x hx => ih hc x ((xmlDeleteEmptyUp_freed hup).2 x hx)

/-- More turns change nothing. -/
theorem loop_mono {fuel : Nat} {o : Option Nat} {r : XmlTree × Bool} (h : deleteEmptyLoop fuel T s o = some r)
    (more : Nat) : deleteEmptyLoop (fuel + more) T s o = some r := by
  induction fuel generalizing T s o with
  | zero =>
    cases o with
    | none => rw [loop_none, ← loop_none 0 T s, h]
    | some node => cases h
  | succ fuel ih =>
    cases o with
    | none => rw [loop_none, ← loop_none (fuel + 1) T s, h]
    | some node =>
      rw [Nat.succ_add, deleteEmptyLoop]
      rw [deleteEmptyLoop] at h
      by_cases hattr : T.isAttr node
      · rw [if_pos hattr] at h ⊢
        cases hn : (T.mem node).next with
        | none =>
          rw [hn] at h
          exact h
        | some m =>
          rw [hn] at h
          exact ih h
      rw [if_neg hattr] at h ⊢
      by_cases hchild : (T.mem node).hasChild
      · rw [if_pos hchild] at h ⊢
        by_cases hroom : s.length ≥ XML_MAX_DEPTH
        · rw [if_pos hroom] at h ⊢
          exact h
        · rw [if_neg hroom] at h ⊢
          exact ih h
      rw [if_neg hchild] at h ⊢
      by_cases hkeep : ((T.mem node).hasValue || (T.mem node).hasAttr)
      · rw [if_pos hkeep] at h ⊢
        obtain ⟨c, hc, hr⟩ := Option.bind_eq_some_iff.1 h
        rw [hc]
        exact ih hr
      · rw [if_neg hkeep] at h ⊢
        obtain ⟨c, hc, hr⟩ := Option.bind_eq_some_iff.1 h
        rw [hc]
        exact ih hr

/-- Where a node that is the last of its siblings and stays loses its last child, a node is deleted
that should stay: the parent of these siblings. -/
theorem walk_unsettled (fuel : Nat) (h : Here hv T p a pre f s) (hset : ¬ f.Settled hv s.isEmpty) :
    ∃ x, (s.head? = some x ∨ x ∈ (f.prune hv).addrs) ∧
      ∀ r, deleteEmptyLoop (f.turns + fuel) T s f.roots.head? = some r → x ∈ r.1.freed := by
  induction f generalizing T p a pre s fuel with
  | nil => exact absurd trivial hset
  | cons n a' k rest ihk ih =>
    have hturns : (cons n a' k rest).turns + fuel =
        1 + (if k = nil then 0 else a'.length + k.turns) + (rest.turns + fuel) := by
      rw [turns, Nat.add_assoc]
    rw [hturns, roots, List.head?_cons]
    by_cases hk : k.Settled hv false
    · obtain ⟨T₁, hp, ho⟩ := walk_kids (rest.turns + fuel) h fun hk' => walk _ h.kids hk' hk
      by_cases hlast : s ≠ [] → rest = nil → ¬ Gone hv n a' k → ¬ k.LastGone hv
      · obtain ⟨T₂, hp₂, -, hmore⟩ := walk_node h hp ho hlast
        have hrest : ¬ rest.Settled hv s.isEmpty := fun hrest =>
          hset ⟨hk, hrest, fun hs => hlast (by simpa using hs)⟩
        have hr : rest ≠ nil := by
          rintro rfl
          exact hrest trivial
        obtain ⟨x, hx, hfreed⟩ := ih _ (h.others hp₂) hrest
        rw [hmore hr]
        exact ⟨x, hx.imp_right fun hx => mem_addrs_prune_cons.2 (.inr hx), hfreed⟩
      · simp only [Classical.not_imp, not_not] at hlast
        obtain ⟨hs, rfl, hg, hl⟩ := hlast
        obtain ⟨top, s', rfl⟩ := List.exists_cons_of_ne_nil hs
        refine ⟨top, .inl rfl, fun r hr => ?_⟩
        have hnext : (T₁.mem n).next = none := by
          have hc := (h.owns_of_kids hp).chain
          rw [← List.append_assoc] at hc
          exact hc.after
        rw [ho.lost hg hl, behind, hnext] at hr
        obtain ⟨c, hup, hc⟩ := Option.bind_eq_some_iff.1 hr
        exact loop_freed hc top (xmlDeleteEmptyUp_freed hup).1
    · have hk' : k ≠ nil := by
        rintro rfl
        exact hk trivial
      have hg : ¬ Gone hv n a' k := fun hg => prune_ne_nil_of_unsettled hk hg.2.2
      obtain ⟨x, hx, hfreed⟩ := ihk (rest.turns + fuel) h.kids hk
      refine ⟨x, .inr ?_, ?_⟩
      · rw [prune_cons_stay hg, addrs]
        simp only [List.mem_cons, List.mem_append]
        rcases hx with hx | hx
        · exact .inl (Option.some.inj hx).symm
        · exact .inr (.inl (.inr hx))
      · rw [loop_enter _ h hk']
        exact hfreed

/-! ## The whole tree -/

theorem Holds.here (h : Holds T f) (hd : f.height ≤ XML_MAX_DEPTH) :
    Here (fun n => (T.mem n).hasValue) T T.root [] [] f [] where
  owns := h.owns
  draws := h.draws
  nodup := h.nodup
  lt x hx := h.lt x (List.mem_cons_of_mem _ hx)
  value _ := rfl
  room := by simpa using hd

theorem Holds.pruned (h : Holds T f) (hp : Passed hv T T₁ T.root [] [] f []) : Holds T₁ (f.prune hv) := by
  have hsub : (f.prune hv).addrs ⊆ f.addrs := (addrs_prune f).subset
  have hroot : (T.root :: (f.prune hv).addrs).Sublist (T.root :: f.addrs) := (addrs_prune f).cons_cons _
  constructor
  · rw [hp.root]
    simpa using hp.owns
  · exact hp.draws
  · rw [hp.root]
    exact h.nodup.sublist hroot
  · rw [hp.root, hp.num]
    exact fun n hn => h.lt n (hroot.subset hn)
  · intro n hn hfreed
    rcases hp.freed n hfreed with hfreed | ⟨-, hnot⟩
    · exact h.alive n (hsub hn) hfreed
    · exact hnot hn
  · rw [hp.root, hp.same T.root]
    exact h.parent
  · rw [hp.root, hp.self]
    exact h.next

/-- Behind the last node of the uppermost level, the walk ends if anything is left of the root. -/
theorem Holds.parentDone_root (h : Holds T f) (hp : Passed hv T T₁ T.root [] [] f []) :
    parentDone (xmlDeleteEmptyUp 0) T₁ [] T.root =
      if f.prune hv = nil ∧ (T.mem T.root).hasValue = false then none else some (T₁, [], none) := by
  have hh := h.pruned hp
  have hroot : T₁.root = T.root := hp.root
  have hattr : (T₁.mem T.root).hasAttr = false := by
    have hattr := hroot ▸ hh.owns.hasAttr
    simpa using hattr
  have hchild := hroot ▸ hh.owns.hasChild
  have hnext := hroot ▸ hh.next
  rw [ne_eq, roots_eq_nil] at hchild
  rw [parentDone, isBare, hattr, hp.same.value]
  by_cases hnil : f.prune hv = nil
  · have hflag : (T₁.mem T.root).hasChild = false := by simpa [hnil] using hchild
    cases hval : (T.mem T.root).hasValue <;> simp [hnil, hflag, hnext, xmlDeleteEmptyUp]
  · have hflag : (T₁.mem T.root).hasChild = true := hchild.2 hnil
    simp [hnil, hflag, hnext]

/-- `xml_delete_empty` takes the nodes that have nothing from a tree, and nothing else,
just if the tree is clean. -/
theorem xml_delete_empty_iff (h : Holds T f) (hd : f.height ≤ XML_MAX_DEPTH) :
    Prunes T f ↔ f.Clean (fun n => (T.mem n).hasValue) T.root := by
  generalize hhv : (fun n => (T.mem n).hasValue) = hv
  have hchild : (T.mem T.root).child = f.roots.head? := h.owns.chain.head.symm
  have hhere : Here hv T T.root [] [] f [] := hhv ▸ h.here hd
  have hroot : hv T.root = (T.mem T.root).hasValue := by rw [← hhv]
  rw [Prunes, hhv]
  by_cases hf : f = nil
  · subst hf
    refine ⟨fun _ => .inl rfl, fun _ => ⟨0, T, ?_, h, .refl T⟩⟩
    rw [xmlDeleteEmpty, hchild]
    exact loop_none ..
  have hclean : f.Clean hv T.root ↔
      f.Settled hv true ∧ (f.prune hv ≠ nil ∨ hv T.root = true) ∧ f.EndsGone hv := or_iff_right hf
  rw [hclean]
  by_cases hset : f.Settled hv true
  · -- what the walk comes to behind the last node, for any number of turns
    have hrun : ∀ fuel, ∃ T₁, Passed hv T T₁ T.root [] [] f [] ∧
        Ends hv T₁ T.root f [] fuel (T.xmlDeleteEmpty (f.turns + fuel)) := fun fuel => by
      rw [xmlDeleteEmpty, hchild]
      exact walk fuel hhere hf hset
    rw [and_iff_right hset]
    by_cases hgood : (f.prune hv ≠ nil ∨ hv T.root = true) ∧ f.EndsGone hv
    · refine iff_of_true ?_ hgood
      obtain ⟨T₁, hp, he⟩ := hrun 0
      refine ⟨f.turns + 0, T₁, ?_, h.pruned hp, hp.same⟩
      by_cases hl : f.LastGone hv
      · have hleft : ¬ (f.prune hv = nil ∧ (T.mem T.root).hasValue = false) := by
          rw [← hroot]
          rintro ⟨hnil, hval⟩
          rcases hgood.1 with hne | hval'
          · exact hne hnil
          · rw [hval] at hval'
            cases hval'
        rw [he.gone hl, List.length_nil, h.parentDone_root hp, if_neg hleft]
        rfl
      · exact he.ended hl ⟨rfl, hgood.2⟩
    · refine iff_of_false ?_ hgood
      rintro ⟨fuel, T', hT', -, -⟩
      obtain ⟨T₁, hp, he⟩ := hrun fuel
      have hmore := loop_mono hT' f.turns
      rw [Nat.add_comm, ← xmlDeleteEmpty] at hmore
      by_cases hl : f.LastGone hv
      · have hnil : f.prune hv = nil ∧ (T.mem T.root).hasValue = false := by
          rw [← hroot]
          by_contra hleft
          refine hgood ⟨?_, .of_last hl⟩
          rcases not_and_or.1 hleft with hne | hval
          · exact .inl hne
          · exact .inr (by simpa using hval)
        rw [he.gone hl, List.length_nil, h.parentDone_root hp, if_pos hnil] at hmore
        cases hmore
      · have hend : ¬ f.EndsGone hv := fun hend => hgood ⟨.inl (prune_ne_nil_of_last hf hl), hend⟩
        rw [he.stays hl fun h' => hend h'.2] at hmore
        cases hmore
  · refine iff_of_false ?_ fun hc => hset hc.1
    rintro ⟨fuel, T', hT', hh, -⟩
    obtain ⟨x, hx, hfreed⟩ := walk_unsettled fuel hhere hset
    rw [xmlDeleteEmpty, hchild] at hT'
    have hmore := loop_mono hT' f.turns
    rw [Nat.add_comm] at hmore
    rcases hx with hx | hx
    · cases hx
    · exact hh.alive x hx (hfreed _ hmore)

/-- A node with a value, and one behind it that has nothing: the tree, and the one that
has lost the second node. -/
def valueThenEmpty : XmlTree where
  mem
    | 0 => { xmlNodeInit .root with child := some 1, tail := some 2, hasChild := true }
    | 1 => { xmlNodeInit .child with value := some ['x'], hasValue := true, parent := some 0, next := some 2 }
    | _ => { xmlNodeInit .child with parent := some 0 }
  root := 0
  num := 3
  freed := []

theorem holds_valueThenEmpty : Holds valueThenEmpty (cons 1 [] nil (cons 2 [] nil nil)) := by
  refine ⟨⟨by decide, by decide, by decide, by decide, by decide⟩, ⟨⟨by decide, by decide, by decide, by decide, by decide⟩,
    trivial, ⟨by decide, by decide, by decide, by decide, by decide⟩, trivial, trivial⟩, by decide, by decide, by decide,
    rfl, rfl⟩

theorem xml_delete_empty_iff_last : Prunes valueThenEmpty (cons 1 [] nil (cons 2 [] nil nil)) :=
  (xml_delete_empty_iff holds_valueThenEmpty (by decide)).2
    (.inr ⟨⟨trivial, ⟨trivial, trivial, fun h => by cases h⟩, fun h => by cases h⟩, .inl (by decide), .inl (by decide)⟩)

/-- The text `<a>x</a>`: behind its node, there is no ancestor to pop. -/
def oneValue : XmlTree where
  mem
    | 0 => { xmlNodeInit .root with child := some 1, tail := some 1, hasChild := true }
    | _ => { xmlNodeInit .child with name := ['a'], value := some ['x'], hasValue := true, parent := some 0 }
  root := 0
  num := 2
  freed := []

theorem holds_oneValue : Holds oneValue (cons 1 [] nil nil) :=
  ⟨⟨by decide, by decide, by decide, by decide, by decide⟩, ⟨⟨by decide, by decide, by decide, by decide, by decide⟩,
    trivial, trivial⟩, by decide, by decide, by decide, rfl, rfl⟩

theorem delete_empty_follows_null : ¬ ∀ T f, Holds T f → f.height ≤ XML_MAX_DEPTH → Prunes T f := by
  intro h
  obtain ⟨fuel, T', hT', -⟩ := h oneValue (cons 1 [] nil nil) holds_oneValue (by decide)
  cases fuel with
  | zero => cases hT'
  | succ fuel => cases hT'

end XmlTree

end BeehiveIm.Xml
