/-
Doubly linked rings in memory: every node links to the next one and back, and the last one to the
first. A ring is as good as any rotation of it, so a node goes in and comes out at the front.

Singly linked lists in memory: the links lead from one node to the next, and out of the list at its
end.
-/
import Mathlib.Data.List.Cycle
import Mathlib.Data.List.Iterate
import Mathlib.Data.List.Nodup

namespace BeehiveIm.Lib

/-- A node of a doubly linked list; a link is an address. -/
structure DNode (α δ : Type) where
  data : δ
  prev : α
  next : α
  deriving DecidableEq, Repr

section Write

variable {α δ : Type} [DecidableEq α]

def setNext (mem : α → DNode α δ) (x y : α) : α → DNode α δ := Function.update mem x { mem x with next := y }

def setPrev (mem : α → DNode α δ) (x y : α) : α → DNode α δ := Function.update mem x { mem x with prev := y }

def setData (mem : α → DNode α δ) (x : α) (d : δ) : α → DNode α δ := Function.update mem x { mem x with data := d }

variable (mem : α → DNode α δ) (x y z : α) (d : δ)

@[simp] theorem setNext_next : (setNext mem x y z).next = if z = x then y else (mem z).next := by
  unfold setNext
  rw [Function.update_apply]
  split <;> rfl

@[simp] theorem setNext_prev : (setNext mem x y z).prev = (mem z).prev := by
  unfold setNext
  rw [Function.update_apply]
  split
  · rename_i h
    rw [h]
  · rfl

@[simp] theorem setNext_data : (setNext mem x y z).data = (mem z).data := by
  unfold setNext
  rw [Function.update_apply]
  split
  · rename_i h
    rw [h]
  · rfl

@[simp] theorem setPrev_prev : (setPrev mem x y z).prev = if z = x then y else (mem z).prev := by
  unfold setPrev
  rw [Function.update_apply]
  split <;> rfl

@[simp] theorem setPrev_next : (setPrev mem x y z).next = (mem z).next := by
  unfold setPrev
  rw [Function.update_apply]
  split
  · rename_i h
    rw [h]
  · rfl

@[simp] theorem setPrev_data : (setPrev mem x y z).data = (mem z).data := by
  unfold setPrev
  rw [Function.update_apply]
  split
  · rename_i h
    rw [h]
  · rfl

@[simp] theorem setData_data : (setData mem x d z).data = if z = x then d else (mem z).data := by
  unfold setData
  rw [Function.update_apply]
  split <;> rfl

@[simp] theorem setData_next : (setData mem x d z).next = (mem z).next := by
  unfold setData
  rw [Function.update_apply]
  split
  · rename_i h
    rw [h]
  · rfl

@[simp] theorem setData_prev : (setData mem x d z).prev = (mem z).prev := by
  unfold setData
  rw [Function.update_apply]
  split
  · rename_i h
    rw [h]
  · rfl

theorem setNext_of_ne {x z : α} (h : z ≠ x) : setNext mem x y z = mem z := Function.update_of_ne h _ mem

theorem setPrev_of_ne {x z : α} (h : z ≠ x) : setPrev mem x y z = mem z := Function.update_of_ne h _ mem

theorem setData_of_ne {x z : α} (h : z ≠ x) : setData mem x d z = mem z := Function.update_of_ne h _ mem

end Write

variable {α δ : Type} {mem mem' : α → DNode α δ} {l l₁ l₂ : List α} {a n x : α}

/-- `b` comes after `a`, and `a` before `b`. -/
def Linked (mem : α → DNode α δ) (a b : α) : Prop := (mem a).next = b ∧ (mem b).prev = a

/-- The nodes of `l` are linked in a ring, in this order. -/
def Round (mem : α → DNode α δ) (l : List α) : Prop := Cycle.Chain (Linked mem) (l : Cycle α)

theorem round_nil : Round mem ([] : List α) := trivial

/-! ## Where a ring starts -/

theorem round_append_comm : Round mem (l₁ ++ l₂) ↔ Round mem (l₂ ++ l₁) := by
  have h : ((l₁ ++ l₂ : List α) : Cycle α) = (l₂ ++ l₁ : List α) := Cycle.coe_eq_coe.2 List.isRotated_append
  unfold Round
  rw [h]

/-- A ring is a chain whose ends are linked. -/
theorem round_iff (hl : l ≠ []) : Round mem l ↔ l.IsChain (Linked mem) ∧ Linked mem (l.getLast hl) (l.head hl) := by
  cases l with
  | nil => exact absurd rfl hl
  | cons a l =>
    rw [Round, Cycle.chain_coe_cons, ← List.cons_append, List.isChain_append]
    simp [List.getLast?_eq_some_getLast hl]

/-! ## Walks -/

theorem iterate_next : ∀ {l : List α} {a : α}, (a :: l).IsChain (Linked mem) →
    List.iterate (fun x => (mem x).next) a (l.length + 1) = a :: l
  | [], _, _ => rfl
  | b :: l, a, h => by
    rw [List.isChain_cons_cons] at h
    rw [List.length_cons, List.iterate, h.1.1, iterate_next h.2]

/-- From the first node the links lead through the ring once and back. -/
theorem Round.iterate_next (h : Round mem (a :: l)) :
    List.iterate (fun x => (mem x).next) a (l.length + 2) = a :: l ++ [a] := by
  have hchain : (a :: (l ++ [a])).IsChain (Linked mem) := by simpa [Round] using h
  simpa using Lib.iterate_next hchain

theorem iterate_prev {l : List α} (hl : l.IsChain (Linked mem)) : ∀ {a : α} {rest : List α}, l = (a :: rest).reverse →
    List.iterate (fun x => (mem x).prev) a (rest.length + 1) = a :: rest := by
  intro a rest h
  have hchain : (a :: rest).IsChain (fun x y => Linked mem y x) := by
    rw [← List.reverse_reverse (a :: rest), ← h]
    exact List.isChain_reverse.2 hl
  clear h
  induction rest generalizing a with
  | nil => rfl
  | cons b rest ih =>
    rw [List.isChain_cons_cons] at hchain
    rw [List.length_cons, List.iterate, hchain.1.2, ih hchain.2]

/-- And backwards in the opposite order. -/
theorem Round.iterate_prev (h : Round mem (a :: l)) :
    List.iterate (fun x => (mem x).prev) a (l.length + 2) = (a :: l ++ [a]).reverse := by
  have hchain : (a :: l ++ [a]).IsChain (Linked mem) := h
  have hrev : (a :: l ++ [a]).reverse = a :: (l.reverse ++ [a]) := by simp
  have hback : a :: l ++ [a] = (a :: (l.reverse ++ [a])).reverse := by rw [← hrev, List.reverse_reverse]
  have hwalk := Lib.iterate_prev hchain hback
  rw [hrev, ← hwalk]
  simp

/-! ## The ends -/

theorem Round.prev_head (h : Round mem l) (hl : l ≠ []) : (mem (l.head hl)).prev = l.getLast hl := ((round_iff hl).1 h).2.2

theorem Round.next_last (h : Round mem l) (hl : l ≠ []) : (mem (l.getLast hl)).next = l.head hl := ((round_iff hl).1 h).2.1

/-- A node is its own neighbour in a ring of one only. -/
theorem Round.prev_eq_self (h : Round mem (a :: l)) (hnodup : (a :: l).Nodup) : (mem a).prev = a ↔ l = [] := by
  have hprev : (mem a).prev = (a :: l).getLast (List.cons_ne_nil a l) := h.prev_head (List.cons_ne_nil a l)
  rw [hprev]
  constructor
  · intro hlast
    by_contra hl
    rw [List.getLast_cons hl] at hlast
    exact (List.nodup_cons.1 hnodup).1 (hlast ▸ List.getLast_mem hl)
  · rintro rfl
    rfl

/-! ## Links that change -/

theorem Round.congr (h : Round mem l) (hmem : ∀ x ∈ l, (mem' x).next = (mem x).next ∧ (mem' x).prev = (mem x).prev) :
    Round mem' l := by
  rcases eq_or_ne l [] with rfl | hl
  · exact round_nil
  · obtain ⟨hchain, hends⟩ := (round_iff hl).1 h
    refine (round_iff hl).2 ⟨hchain.imp_of_mem_imp fun x y hx hy hlink => ?_, ?_, ?_⟩
    · exact ⟨(hmem x hx).1.trans hlink.1, (hmem y hy).2.trans hlink.2⟩
    · exact (hmem _ (List.getLast_mem hl)).1.trans hends.1
    · exact (hmem _ (List.head_mem hl)).2.trans hends.2

/-- The links inside a list do not change with those of its ends to the outside. -/
theorem isChain_inside : ∀ {l : List α} (hl : l ≠ []), l.Nodup → l.IsChain (Linked mem) →
    (∀ x ∈ l, x ≠ l.getLast hl → (mem' x).next = (mem x).next) →
    (∀ x ∈ l, x ≠ l.head hl → (mem' x).prev = (mem x).prev) → l.IsChain (Linked mem')
  | [a], _, _, _, _, _ => List.isChain_singleton a
  | a :: b :: l, _, hnodup, hchain, hnext, hprev => by
    obtain ⟨ha, hnodup'⟩ := List.nodup_cons.1 hnodup
    obtain ⟨hlink, hchain'⟩ := List.isChain_cons_cons.1 hchain
    have hlast : (b :: l).getLast (List.cons_ne_nil b l) ∈ b :: l := List.getLast_mem _
    have hab : a ≠ b := fun h => ha (h ▸ List.mem_cons_self)
    rw [List.isChain_cons_cons]
    refine ⟨⟨?_, ?_⟩, isChain_inside (List.cons_ne_nil b l) hnodup' hchain' ?_ ?_⟩
    · exact (hnext a List.mem_cons_self fun h => ha (h ▸ hlast)).trans hlink.1
    · exact (hprev b (by simp) hab.symm).trans hlink.2
    · exact fun x hx hne => hnext x (List.mem_cons_of_mem a hx) hne
    · refine fun x hx _ => hprev x (List.mem_cons_of_mem a hx) ?_
      rintro rfl
      exact ha hx

/-- A new node is linked in before the first and behind the last. -/
theorem Round.insert (h : Round mem l) (hl : l ≠ []) (hnodup : l.Nodup) (hlast : (mem' (l.getLast hl)).next = n)
    (hn : (mem' n).prev = l.getLast hl ∧ (mem' n).next = l.head hl) (hhead : (mem' (l.head hl)).prev = n)
    (hnext : ∀ x ∈ l, x ≠ l.getLast hl → (mem' x).next = (mem x).next)
    (hprev : ∀ x ∈ l, x ≠ l.head hl → (mem' x).prev = (mem x).prev) : Round mem' (n :: l) := by
  have hchain : l.IsChain (Linked mem') := isChain_inside hl hnodup ((round_iff hl).1 h).1 hnext hprev
  refine (round_iff (List.cons_ne_nil n l)).2 ⟨?_, ?_⟩
  · rw [List.isChain_cons]
    refine ⟨fun y hy => ?_, hchain⟩
    rw [List.head?_eq_some_head hl, Option.mem_some_iff] at hy
    exact ⟨hn.2.trans hy, hy ▸ hhead⟩
  · rw [List.getLast_cons hl]
    exact ⟨hlast, hn.1⟩

/-- The first node is taken out. -/
theorem Round.remove (h : Round mem (n :: l)) (hl : l ≠ []) (hnodup : l.Nodup)
    (hlast : (mem' (mem n).prev).next = (mem n).next) (hhead : (mem' (mem n).next).prev = (mem n).prev)
    (hnext : ∀ x ∈ l, x ≠ (mem n).prev → (mem' x).next = (mem x).next)
    (hprev : ∀ x ∈ l, x ≠ (mem n).next → (mem' x).prev = (mem x).prev) : Round mem' l := by
  obtain ⟨hchain, hends⟩ := (round_iff (List.cons_ne_nil n l)).1 h
  rw [List.isChain_cons] at hchain
  have hn : (mem n).next = l.head hl := (hchain.1 _ (List.head?_eq_some_head hl)).1
  have hp : (mem n).prev = l.getLast hl := by
    rw [List.getLast_cons hl] at hends
    exact hends.2
  rw [hn, hp] at hlast hhead
  rw [hn] at hprev
  rw [hp] at hnext
  exact (round_iff hl).2 ⟨isChain_inside hl hnodup hchain.2 hnext hprev, hlast, hhead⟩

/-- Where the neighbours of a node are -/
theorem Round.neighbours (h : Round mem (n :: l)) (hl : l ≠ []) : (mem n).prev = l.getLast hl ∧ (mem n).next = l.head hl := by
  obtain ⟨hchain, hends⟩ := (round_iff (List.cons_ne_nil n l)).1 h
  rw [List.isChain_cons] at hchain
  refine ⟨?_, (hchain.1 _ (List.head?_eq_some_head hl)).1⟩
  rw [List.getLast_cons hl] at hends
  exact hends.2

/-! ## Rings with what is stored in them -/

/-- The first element that is found is the one that is erased. -/
theorem eraseP_of_find? {ε : Type} {p : ε → Bool} {l : List ε} {e : ε} (h : l.find? p = some e) :
    ∃ l₁ l₂, l = l₁ ++ e :: l₂ ∧ l.eraseP p = l₁ ++ l₂ := by
  obtain ⟨he, l₁, l₂, rfl, hl₁⟩ := List.find?_eq_some_iff_append.1 h
  refine ⟨l₁, l₂, rfl, ?_⟩
  rw [List.eraseP_append_right _ fun b hb => by simpa using hl₁ b hb, List.eraseP_cons_of_pos he]

/-- The nodes of `l` are a ring, and each has its data. -/
structure Rings (mem : α → DNode α δ) (l : List (α × δ)) : Prop where
  nodup : (l.map Prod.fst).Nodup
  ring : Round mem (l.map Prod.fst)
  data : ∀ e ∈ l, (mem e.1).data = e.2

section Rings

variable {l l₁ l₂ : List (α × δ)} {e : α × δ} {d : δ}

theorem rings_nil : Rings mem ([] : List (α × δ)) := ⟨List.nodup_nil, round_nil, fun _ h => (List.not_mem_nil h).elim⟩

theorem Rings.append_comm (h : Rings mem (l₁ ++ l₂)) : Rings mem (l₂ ++ l₁) := by
  refine ⟨?_, ?_, fun e he => h.data e (by rw [List.mem_append] at he ⊢; exact he.symm)⟩
  · rw [List.map_append]
    exact List.nodup_append_comm.1 (List.map_append ▸ h.nodup)
  · rw [List.map_append]
    exact round_append_comm.1 (List.map_append ▸ h.ring)

theorem Rings.concat (h : Rings mem (e :: l)) : Rings mem (l ++ [e]) := @append_comm _ _ _ [e] l h

theorem Rings.prev_head (h : Rings mem (e :: l)) : (mem e.1).prev = ((e :: l).getLast (List.cons_ne_nil e l)).1 := by
  have hprev := h.ring.prev_head (by simp)
  rw [List.getLast_map] at hprev
  exact hprev

/-- A node is its own neighbour in a ring of one only. -/
theorem Rings.prev_eq_self (h : Rings mem (e :: l)) : (mem e.1).prev = e.1 ↔ l = [] := by
  rw [← List.map_eq_nil_iff (f := Prod.fst)]
  exact Round.prev_eq_self (List.map_cons ▸ h.ring) (List.map_cons ▸ h.nodup)

/-- The neighbours of a node are others, and in the ring. -/
theorem Rings.neighbours (h : Rings mem (e :: l)) (hl : l ≠ []) :
    (mem e.1).prev = (l.getLast hl).1 ∧ (mem e.1).next = (l.head hl).1 := by
  have hn := Round.neighbours (List.map_cons ▸ h.ring) (l := l.map Prod.fst) (by simpa using hl)
  rwa [List.getLast_map, List.head_map] at hn

/-- The links do not leave the ring. -/
theorem Rings.links_mem (h : Rings mem l) (hx : x ∈ l.map Prod.fst) :
    (mem x).prev ∈ l.map Prod.fst ∧ (mem x).next ∈ l.map Prod.fst := by
  obtain ⟨e, he, rfl⟩ := List.mem_map.1 hx
  obtain ⟨l₁, l₂, rfl⟩ := List.append_of_mem he
  have hrot : Rings mem (e :: (l₂ ++ l₁)) := h.append_comm
  have hperm : ((l₁ ++ e :: l₂).map Prod.fst).Perm ((e :: l₂ ++ l₁).map Prod.fst) := List.perm_append_comm.map Prod.fst
  rw [hperm.mem_iff, hperm.mem_iff]
  by_cases hl : l₂ ++ l₁ = []
  · have hself : Round mem [e.1] := by simpa [hl] using hrot.ring
    obtain ⟨hnext, hprev⟩ := (Cycle.chain_singleton _ e.1).1 hself
    rw [hnext, hprev]
    exact ⟨List.mem_cons_self, List.mem_cons_self⟩
  · obtain ⟨hprev, hnext⟩ := hrot.neighbours hl
    rw [hprev, hnext]
    exact ⟨List.mem_map_of_mem (List.mem_cons_of_mem e (List.getLast_mem hl)),
      List.mem_map_of_mem (List.mem_cons_of_mem e (List.head_mem hl))⟩

/-- Memory that is the same at the nodes of a ring holds it too. -/
theorem Rings.congr (h : Rings mem l) (hmem : ∀ x ∈ l.map Prod.fst, mem' x = mem x) : Rings mem' l := by
  refine ⟨h.nodup, h.ring.congr fun x hx => ?_, fun e he => ?_⟩
  · rw [hmem x hx]
    exact ⟨rfl, rfl⟩
  · rw [hmem e.1 (List.mem_map_of_mem he)]
    exact h.data e he

/-- A node alone -/
theorem rings_singleton (hnext : (mem n).next = n) (hprev : (mem n).prev = n) (hdata : (mem n).data = d) :
    Rings mem [(n, d)] := by
  refine ⟨List.nodup_singleton n, ?_, ?_⟩
  · exact (Cycle.chain_singleton _ n).2 ⟨hnext, hprev⟩
  · rintro e he
    rw [List.mem_singleton.1 he]
    exact hdata

/-- The links inside the ring -/
theorem Rings.chain (h : Rings mem (e :: l)) : ((e :: l).map Prod.fst).IsChain (Linked mem) :=
  ((round_iff (by simp)).1 h.ring).1

variable [DecidableEq α]

/-- A new node is linked in between the last and the first. -/
theorem Rings.insert (h : Rings mem (e :: l)) (hn : n ∉ (e :: l).map Prod.fst)
    (hnext : ∀ x, (mem' x).next = if x = (mem e.1).prev then n else if x = n then e.1 else (mem x).next)
    (hprev : ∀ x, (mem' x).prev = if x = e.1 then n else if x = n then (mem e.1).prev else (mem x).prev)
    (hdata : ∀ x, (mem' x).data = if x = n then d else (mem x).data) : Rings mem' ((n, d) :: e :: l) := by
  have hne : ∀ x ∈ (e :: l).map Prod.fst, x ≠ n := fun x hx h => hn (h ▸ hx)
  have hl : (e :: l).map Prod.fst ≠ [] := by simp
  have htail : (mem e.1).prev = ((e :: l).map Prod.fst).getLast hl := h.ring.prev_head hl
  have hlast : (mem e.1).prev ∈ (e :: l).map Prod.fst := htail ▸ List.getLast_mem hl
  have hhead : e.1 ∈ (e :: l).map Prod.fst := by simp
  refine ⟨List.nodup_cons.2 ⟨hn, h.nodup⟩, ?_, ?_⟩
  · refine h.ring.insert hl h.nodup ?_ ⟨?_, ?_⟩ ?_ ?_ ?_
    · rw [hnext, if_pos htail.symm]
    · rw [hprev, if_neg (hne _ hhead).symm, if_pos rfl, htail]
    · rw [hnext, if_neg (hne _ hlast).symm, if_pos rfl]
      rfl
    · exact (hprev e.1).trans (if_pos rfl)
    · intro x hx hne'
      rw [hnext, if_neg (htail ▸ hne'), if_neg (hne x hx)]
    · intro x hx hne'
      have hne' : x ≠ e.1 := hne'
      rw [hprev, if_neg hne', if_neg (hne x hx)]
  · intro x hx
    rw [hdata]
    rcases List.mem_cons.1 hx with rfl | hx
    · exact if_pos rfl
    · rw [if_neg (hne _ (List.mem_map_of_mem hx))]
      exact h.data x hx

/-- A node is taken out: its neighbours are linked to each other. -/
theorem Rings.remove (h : Rings mem (e :: l)) (hl : l ≠ [])
    (hnext : ∀ x, (mem' x).next = if x = (mem e.1).prev then (mem e.1).next else (mem x).next)
    (hprev : ∀ x, (mem' x).prev = if x = (mem e.1).next then (mem e.1).prev else (mem x).prev)
    (hdata : ∀ x, (mem' x).data = (mem x).data) : Rings mem' l := by
  have hnodup := h.nodup
  rw [List.map_cons, List.nodup_cons] at hnodup
  refine ⟨hnodup.2, ?_, fun x hx => (hdata x.1).trans (h.data x (List.mem_cons_of_mem e hx))⟩
  refine Round.remove (List.map_cons ▸ h.ring) (by simpa using hl) hnodup.2 ?_ ?_ ?_ ?_
  · exact (hnext _).trans (if_pos rfl)
  · exact (hprev _).trans (if_pos rfl)
  · exact fun x _ hne => (hnext x).trans (if_neg hne)
  · exact fun x _ hne => (hprev x).trans (if_neg hne)

/-- The same, wherever the node is in the list. -/
theorem Rings.unlink (h : Rings mem (l₁ ++ e :: l₂)) (hl : l₁ ++ l₂ ≠ [])
    (hnext : ∀ x, (mem' x).next = if x = (mem e.1).prev then (mem e.1).next else (mem x).next)
    (hprev : ∀ x, (mem' x).prev = if x = (mem e.1).next then (mem e.1).prev else (mem x).prev)
    (hdata : ∀ x, (mem' x).data = (mem x).data) : Rings mem' (l₁ ++ l₂) := by
  refine (Rings.remove h.append_comm (fun h => hl ?_) hnext hprev hdata).append_comm
  have hboth := List.append_eq_nil_iff.1 h
  rw [hboth.1, hboth.2]
  rfl

end Rings

/-! ## Counts that are machine integers -/

theorem count_succ {num : BitVec 32} {n : Nat} (h : num = BitVec.ofNat 32 n) : num + 1 = BitVec.ofNat 32 (n + 1) := by
  rw [h, BitVec.ofNat_add]
  rfl

theorem count_pred {num : BitVec 32} {n : Nat} (h : num = BitVec.ofNat 32 (n + 1)) : num - 1 = BitVec.ofNat 32 n := by
  rw [h, BitVec.ofNat_add]
  exact BitVec.add_sub_cancel _ _

theorem toInt_count {n : Nat} (hn : n < 2 ^ 31) : (BitVec.ofNat 32 n).toInt = n := by
  have hnat : (BitVec.ofNat 32 n).toNat = n := Nat.mod_eq_of_lt (by omega)
  rw [BitVec.toInt_eq_toNat_of_lt (by omega), hnat]

/-! ## Chains of pointers -/

section Chains

variable {next next' : α → Option α} {a b c : Option α} {p : α}

/-- The links lead from `a` through the nodes of the list to `b`. -/
def Leads (next : α → Option α) (a : Option α) : List α → Option α → Prop
  | [], b => a = b
  | n :: l, b => a = some n ∧ Leads next (next n) l b

theorem leads_append : ∀ {l₁ : List α} {a : Option α},
    Leads next a (l₁ ++ l₂) c ↔ ∃ b, Leads next a l₁ b ∧ Leads next b l₂ c
  | [], a => by simp [Leads]
  | n :: l₁, a => by
    rw [List.cons_append, Leads, leads_append]
    simp only [Leads, and_assoc, exists_and_left]

/-- Only the links of the nodes matter. -/
theorem Leads.congr : ∀ {l : List α} {a : Option α}, Leads next a l b → (∀ x ∈ l, next' x = next x) → Leads next' a l b
  | [], _, h, _ => h
  | n :: l, a, h, hnext => by
    refine ⟨h.1, ?_⟩
    rw [hnext n List.mem_cons_self]
    exact h.2.congr fun x hx => hnext x (List.mem_cons_of_mem n hx)

/-- Where the last node leads to is where the list does. -/
theorem Leads.redirect (h : Leads next a (l ++ [n]) b) (hlink : next' n = c) (hnext : ∀ x ∈ l, next' x = next x) : Leads next' a (l ++ [n]) c := by
  obtain ⟨m, hl, hm, -⟩ := leads_append.1 h
  exact leads_append.2 ⟨m, hl.congr hnext, hm, hlink⟩

/-- A new node goes in behind `p`. -/
theorem Leads.insertAfter (h : Leads next a (l₁ ++ p :: l₂) b) (hp : next' p = some n) (hn : next' n = next p)
    (hnext : ∀ x ∈ l₁ ++ l₂, next' x = next x) : Leads next' a (l₁ ++ p :: n :: l₂) b := by
  obtain ⟨m, hl₁, hm, hl₂⟩ := leads_append.1 h
  refine leads_append.2 ⟨m, hl₁.congr fun x hx => hnext x (List.mem_append_left _ hx), hm, hp, ?_⟩
  rw [hn]
  exact hl₂.congr fun x hx => hnext x (List.mem_append_right _ hx)

/-- The node behind `p` goes out. -/
theorem Leads.removeAfter (h : Leads next a (l₁ ++ p :: n :: l₂) b) (hp : next' p = next n)
    (hnext : ∀ x ∈ l₁ ++ l₂, next' x = next x) : Leads next' a (l₁ ++ p :: l₂) b := by
  obtain ⟨m, hl₁, hm, -, hl₂⟩ := leads_append.1 h
  refine leads_append.2 ⟨m, hl₁.congr fun x hx => hnext x (List.mem_append_left _ hx), hm, ?_⟩
  rw [hp]
  exact hl₂.congr fun x hx => hnext x (List.mem_append_right _ hx)

end Chains

end BeehiveIm.Lib
