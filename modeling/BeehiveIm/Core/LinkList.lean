/-
Singly linked lists (`list.c`). A node is its address, NULL is none; `alloc` answers the address of
the new node, or none, and may use the memory of a node that was taken out again. The count is an
`int`. The walks take a number of steps that they may make; a walk that does not end, and a NULL
pointer that is followed, are `none`. Left out: `list_fetch`, `list_trav`, `list_find`,
`list_assert` and `list_destroy`, which do not change a list.

Runs of the calls on a singly linked list, against a sequence. The list is the sequence
as long as `list_find_and_del` does not remove the last node, which leaves the tail at a
node that is no longer there.
-/
import BeehiveIm.Lib.Cyclic
import BeehiveIm.Lib.Run
import Mathlib.Logic.Function.Basic

namespace BeehiveIm.Core

open BeehiveIm.Lib

variable {δ : Type}

/-- `list_node_t` -/
structure LinkNode (δ : Type) where
  data : δ
  next : Option Nat
  deriving DecidableEq, Repr

/-- `list_t` over the memory of its nodes -/
structure LinkList (δ : Type) where
  mem : Nat → LinkNode δ
  num : BitVec 32
  head : Option Nat
  tail : Option Nat

namespace LinkList

/-- A link is written. -/
def setNext (mem : Nat → LinkNode δ) (node : Nat) (next : Option Nat) : Nat → LinkNode δ :=
  Function.update mem node { mem node with next := next }

def setData (mem : Nat → LinkNode δ) (node : Nat) (data : δ) : Nat → LinkNode δ :=
  Function.update mem node { mem node with data := data }

/-- `list_creat` -/
def listCreat (mem : Nat → LinkNode δ) : LinkList δ := ⟨mem, 0, none, none⟩

/-- `list_lpush` -/
def listLpush (L : LinkList δ) (node : Option Nat) (data : δ) : LinkList δ :=
  match node with
  | none => L
  | some node =>
    let mem := setData L.mem node data
    if L.head = none then ⟨setNext mem node none, 1, some node, some node⟩
    else { L with mem := setNext mem node L.head, num := L.num + 1, head := some node }

/-- `list_rpush` -/
def listRpush (L : LinkList δ) (node : Option Nat) (data : δ) : LinkList δ :=
  match node with
  | none => L
  | some node =>
    let mem := setData L.mem node data
    match L.tail with
    | none => ⟨setNext mem node none, 1, some node, some node⟩
    | some tail =>
      let mem := setNext mem tail (some node)
      { L with mem := setNext mem node none, num := L.num + 1, tail := some node }

/-- `list_insert` -/
def listInsert (L : LinkList δ) (prev node : Option Nat) (data : δ) : LinkList δ :=
  match prev with
  | none => L.listLpush node data
  | some prev =>
    if L.tail = some prev then L.listRpush node data
    else
      match node with
      | none => L
      | some node =>
        let mem := setData L.mem node data
        let mem := setNext mem node (mem prev).next
        { L with mem := setNext mem prev (some node), num := L.num + 1 }

/-- `list_lpop` -/
def listLpop (L : LinkList δ) : LinkList δ × Option δ :=
  match L.head with
  | none => (L, none)
  | some head =>
    if L.head = L.tail then ({ L with num := 0, head := none, tail := none }, some (L.mem head).data)
    else ({ L with num := L.num - 1, head := (L.mem head).next }, some (L.mem head).data)

/-- The walk of `list_rpop` to the node before the last one -/
def beforeTail (mem : Nat → LinkNode δ) (tail : Option Nat) : Nat → Nat → Option Nat
  | 0, _ => none
  | fuel + 1, prev =>
    if (mem prev).next = tail then some prev
    else (mem prev).next.bind (beforeTail mem tail fuel)

/-- `list_rpop` -/
def listRpop (fuel : Nat) (L : LinkList δ) : Option (LinkList δ × Option δ) :=
  match L.head, L.tail with
  | none, _ => some (L, none)
  | some _, none => none
  | some head, some tail =>
    if head = tail then some ({ L with num := 0, head := none, tail := none }, some (L.mem tail).data)
    else
      (beforeTail L.mem (some tail) fuel head).map fun prev =>
        ({ L with mem := setNext L.mem prev none, num := L.num - 1, tail := some prev }, some (L.mem tail).data)

/-- The walk of `list_remove`, `list_sort` and `list_find_and_del` to the first node whose data is
as asked for: the node before it, and the node. -/
def seek (mem : Nat → LinkNode δ) (p : δ → Bool) : Nat → Option Nat → Option Nat → Option (Option Nat × Option Nat)
  | 0, _, _ => none
  | _ + 1, prev, none => some (prev, none)
  | fuel + 1, prev, some curr =>
    if p (mem curr).data then some (prev, some curr) else seek mem p fuel (some curr) (mem curr).next

/-- `list_remove` -/
def listRemove [DecidableEq δ] (fuel : Nat) (L : LinkList δ) (data : δ) : Option (LinkList δ × Int) :=
  match seek L.mem (· = data) fuel L.head L.head with
  | none => none
  | some (_, none) => some (L, -1)
  | some (prev, some curr) =>
    if L.head = some curr then
      if L.head = L.tail then some ({ L with num := 0, head := none, tail := none }, 0)
      else some ({ L with num := L.num - 1, head := (L.mem curr).next }, 0)
    else if some curr = L.tail then
      prev.map fun prev =>
        ({ L with mem := setNext L.mem prev (L.mem curr).next, num := L.num - 1, tail := some prev }, 0)
    else
      prev.map fun prev => ({ L with mem := setNext L.mem prev (L.mem curr).next, num := L.num - 1 }, 0)

/-- `list_sort` -/
def listSort (fuel : Nat) (L : LinkList δ) (node : Option Nat) (data : δ) (cmp : δ → δ → Int) : Option (LinkList δ) :=
  if L.head = none then some (L.listLpush node data)
  else (seek L.mem (fun d => 0 ≤ cmp data d) fuel none L.head).map fun r => L.listInsert r.1 node data

/-- `list_find_and_del` -/
def listFindAndDel (fuel : Nat) (L : LinkList δ) (cb : δ → Bool) : Option (LinkList δ × Option δ) :=
  match seek L.mem cb fuel none L.head with
  | none => none
  | some (_, none) => some (L, none)
  | some (prev, some node) =>
    let data := (L.mem node).data
    let num := L.num - 1
    if num = 0 then some ({ L with num := num, head := none }, some data)
    else
      let mem := match prev with
        | none => L.mem
        | some prev => setNext L.mem prev (L.mem node).next
      some ({ L with mem := mem, num := num, head := if L.head = some node then (mem node).next else L.head }, some data)

/-- A call, with the address that `alloc` answers. -/
inductive Call (δ : Type) where
  | lpush (node : Option Nat) (data : δ)
  | rpush (node : Option Nat) (data : δ)
  | insert (prev node : Option Nat) (data : δ)
  | lpop
  | rpop
  | remove (data : δ)
  | sort (node : Option Nat) (data : δ) (cmp : δ → δ → Int)
  | findAndDel (cb : δ → Bool)

def step [DecidableEq δ] (fuel : Nat) (L : LinkList δ) : Call δ → Option (LinkList δ)
  | .lpush node data => some (L.listLpush node data)
  | .rpush node data => some (L.listRpush node data)
  | .insert prev node data => some (L.listInsert prev node data)
  | .lpop => some L.listLpop.1
  | .rpop => (listRpop fuel L).map (·.1)
  | .remove data => (listRemove fuel L data).map (·.1)
  | .sort node data cmp => listSort fuel L node data cmp
  | .findAndDel cb => (listFindAndDel fuel L cb).map (·.1)

/-! ## Memory -/

section

variable (mem : Nat → LinkNode δ) (x y : Nat) (b : Option Nat) (d : δ)

@[simp] theorem setNext_next : (setNext mem x b y).next = if y = x then b else (mem y).next := by
  unfold setNext
  rw [Function.update_apply]
  split <;> rfl

@[simp] theorem setNext_data : (setNext mem x b y).data = (mem y).data := by
  unfold setNext
  rw [Function.update_apply]
  split
  · rename_i h
    rw [h]
  · rfl

@[simp] theorem setData_data : (setData mem x d y).data = if y = x then d else (mem y).data := by
  unfold setData
  rw [Function.update_apply]
  split <;> rfl

@[simp] theorem setData_next : (setData mem x d y).next = (mem y).next := by
  unfold setData
  rw [Function.update_apply]
  split
  · rename_i h
    rw [h]
  · rfl

end

/-! ## The sequence -/

/-- The new nodes go in behind `prev`. -/
def insertAfter (prev : Nat) (new : List (Nat × δ)) : List (Nat × δ) → List (Nat × δ)
  | [] => []
  | e :: l => if e.1 = prev then e :: (new ++ l) else e :: insertAfter prev new l

/-- What a call does to the sequence of the nodes and their data. -/
def edit [DecidableEq δ] (l : List (Nat × δ)) : Call δ → List (Nat × δ)
  | .lpush node data => node.toList.map (·, data) ++ l
  | .rpush node data => l ++ node.toList.map (·, data)
  | .insert none node data => node.toList.map (·, data) ++ l
  | .insert (some prev) node data => insertAfter prev (node.toList.map (·, data)) l
  | .lpop => l.tail
  | .rpop => l.dropLast
  | .remove data => l.eraseP (·.2 = data)
  | .sort node data cmp => l.takeWhile (fun e => cmp data e.2 < 0) ++ node.toList.map (·, data) ++
      l.dropWhile fun e => cmp data e.2 < 0
  | .findAndDel cb => l.eraseP fun e => cb e.2

/-- A new node is not in the list, and it goes in behind one that is. -/
def Fresh (l : List (Nat × δ)) : Call δ → Prop
  | .lpush node _ => ∀ n ∈ node, n ∉ l.map Prod.fst
  | .rpush node _ => ∀ n ∈ node, n ∉ l.map Prod.fst
  | .insert prev node _ => (∀ p ∈ prev, p ∈ l.map Prod.fst) ∧ ∀ n ∈ node, n ∉ l.map Prod.fst
  | .sort node _ _ => ∀ n ∈ node, n ∉ l.map Prod.fst
  | _ => True

/-- The list is the sequence: the links lead from the head through it to NULL, the count is its
length, and the tail is its last node. -/
structure Refines (L : LinkList δ) (l : List (Nat × δ)) : Prop where
  links : Leads (fun x => (L.mem x).next) L.head (l.map Prod.fst) none
  data : ∀ e ∈ l, (L.mem e.1).data = e.2
  num : L.num.toInt = l.length
  tail : L.tail = (l.map Prod.fst).getLast?

/-- A list that is a sequence -/
structure Shows (L : LinkList δ) (l : List (Nat × δ)) : Prop where
  nodup : (l.map Prod.fst).Nodup
  links : Leads (fun x => (L.mem x).next) L.head (l.map Prod.fst) none
  data : ∀ e ∈ l, (L.mem e.1).data = e.2
  num : L.num = BitVec.ofNat 32 l.length
  tail : L.tail = (l.map Prod.fst).getLast?

variable {L : LinkList δ} {l l₁ l₂ : List (Nat × δ)} {e : Nat × δ} {mem : Nat → LinkNode δ} {node fuel : Nat} {data : δ}

theorem shows_creat (mem : Nat → LinkNode δ) : Shows (listCreat mem) [] :=
  ⟨List.nodup_nil, rfl, fun _ h => (List.not_mem_nil h).elim, rfl, rfl⟩

theorem Shows.refines (h : Shows L l) (hlen : l.length < 2 ^ 31) : Refines L l :=
  ⟨h.links, h.data, by rw [h.num, toInt_count hlen], h.tail⟩

theorem Shows.head (h : Shows L l) : L.head = (l.map Prod.fst).head? := by
  cases l with
  | nil => exact h.links
  | cons e l => exact h.links.1

/-! ## New nodes -/

theorem Shows.lpush (h : Shows L l) (hn : node ∉ l.map Prod.fst) :
    Shows (L.listLpush (some node) data) ((node, data) :: l) := by
  have hne : ∀ x ∈ l.map Prod.fst, x ≠ node := fun x hx hxn => hn (hxn ▸ hx)
  have hdata : ∀ (b : Option Nat), ∀ e ∈ (node, data) :: l, (setNext (setData L.mem node data) node b e.1).data = e.2 := by
    intro b e he
    rcases List.mem_cons.1 he with rfl | he
    · simp
    · simpa [hne e.1 (List.mem_map_of_mem he)] using h.data e he
  unfold listLpush
  cases l with
  | nil =>
    have hhead : L.head = none := h.head
    simp only [if_pos hhead]
    exact ⟨List.nodup_singleton node, ⟨rfl, by simp [Leads]⟩, hdata none, rfl, rfl⟩
  | cons e l =>
    have hhead : L.head = some e.1 := h.head
    have hsome : ¬L.head = none := by simp [hhead]
    simp only [if_neg hsome]
    refine ⟨List.nodup_cons.2 ⟨hn, h.nodup⟩, ⟨rfl, ?_⟩, hdata _, count_succ h.num, ?_⟩
    · have hlinks : Leads (fun x => (setNext (setData L.mem node data) node L.head x).next) L.head
          ((e :: l).map Prod.fst) none := h.links.congr fun x hx => by simp [hne x hx]
      simpa using hlinks
    · rw [h.tail, List.map_cons, List.map_cons, List.map_cons, List.getLast?_cons_cons]

theorem Shows.rpush (h : Shows L l) (hn : node ∉ l.map Prod.fst) :
    Shows (L.listRpush (some node) data) (l ++ [(node, data)]) := by
  have hne : ∀ x ∈ l.map Prod.fst, x ≠ node := fun x hx hxn => hn (hxn ▸ hx)
  have hnodup : ((l ++ [(node, data)]).map Prod.fst).Nodup := by
    rw [List.map_append, List.map_singleton]
    exact List.nodup_append_comm.1 (List.nodup_cons.2 ⟨hn, h.nodup⟩)
  have htail : (((l ++ [(node, data)]).map Prod.fst).getLast?) = some node := by simp
  unfold listRpush
  rcases List.eq_nil_or_concat l with rfl | ⟨l, t, hl⟩
  · rw [show L.tail = none from h.tail]
    exact ⟨hnodup, ⟨rfl, by simp [Leads]⟩, by simp, rfl, rfl⟩
  rw [List.concat_eq_append] at hl
  subst hl
  have ht : L.tail = some t.1 := by
    rw [h.tail]
    simp
  rw [ht]
  have hlinks := h.links
  have hkeys := h.nodup
  rw [List.map_append, List.map_singleton] at hlinks hkeys hne
  have htl : ∀ x ∈ l.map Prod.fst, x ≠ t.1 := by
    rintro x hx rfl
    exact (List.nodup_cons.1 (List.nodup_append_comm.1 hkeys)).1 hx
  have htn : t.1 ≠ node := hne t.1 (by simp)
  refine ⟨hnodup, ?_, ?_, ?_, htail.symm⟩
  · rw [List.map_append, List.map_append, List.map_singleton, List.map_singleton]
    refine leads_append.2 ⟨some node, hlinks.redirect ?_ fun x hx => ?_, rfl, ?_⟩
    · simp [htn]
    · have hxn := hne x (List.mem_append_left _ hx)
      simp [htl x hx, hxn]
    · simp [Leads]
  · intro e he
    rcases List.mem_append.1 he with he | he
    · have hen := hne e.1 (by simpa using List.mem_map_of_mem (f := Prod.fst) he)
      simpa [hen] using h.data e he
    · rw [List.mem_singleton.1 he]
      simp
  · rw [List.length_append]
    exact count_succ h.num

/-- A new node goes in behind a given one, or at the front. -/
theorem Shows.insert (h : Shows L (l₁ ++ l₂)) {prev : Option Nat} (hprev : prev = (l₁.map Prod.fst).getLast?)
    (hn : node ∉ (l₁ ++ l₂).map Prod.fst) :
    Shows (L.listInsert prev (some node) data) (l₁ ++ (node, data) :: l₂) := by
  unfold listInsert
  rcases List.eq_nil_or_concat l₁ with rfl | ⟨l₁, p, hl⟩
  · rw [show prev = none from hprev]
    exact h.lpush hn
  rw [List.concat_eq_append] at hl
  subst hl
  have hprev : prev = some p.1 := by
    rw [hprev]
    simp
  rw [hprev]
  cases l₂ with
  | nil =>
    have ht : L.tail = some p.1 := by
      rw [h.tail]
      simp
    simp only [if_pos ht]
    rw [List.append_nil] at h hn
    exact h.rpush hn
  | cons e l₂ =>
    have hlist : l₁ ++ [p] ++ e :: l₂ = l₁ ++ p :: e :: l₂ := by simp
    rw [hlist] at h hn
    have hne : ∀ x ∈ (l₁ ++ p :: e :: l₂).map Prod.fst, x ≠ node := fun x hx hxn => hn (hxn ▸ hx)
    have hkeys := h.nodup
    rw [List.map_append, List.map_cons, List.nodup_middle, ← List.map_append, List.nodup_cons] at hkeys
    have hp : ∀ x ∈ (l₁ ++ e :: l₂).map Prod.fst, x ≠ p.1 := fun x hx hxp => hkeys.1 (hxp ▸ hx)
    have hpn : p.1 ≠ node := hne p.1 (by simp)
    have ht : ¬L.tail = some p.1 := by
      rw [h.tail]
      intro ht
      refine hp p.1 ?_ rfl
      have hmem := List.mem_of_getLast? (l := (e :: l₂).map Prod.fst) (a := p.1) (by simpa using ht)
      rw [List.map_append]
      exact List.mem_append_right _ hmem
    simp only [if_neg ht]
    have hresult : l₁ ++ [p] ++ (node, data) :: e :: l₂ = l₁ ++ p :: (node, data) :: e :: l₂ := by simp
    rw [hresult]
    refine ⟨?_, ?_, fun x hx => ?_, ?_, ?_⟩
    · have hperm : (l₁ ++ p :: (node, data) :: e :: l₂).Perm ((node, data) :: (l₁ ++ p :: e :: l₂)) := by
        rw [← hresult, ← hlist]
        exact List.perm_middle
      exact (hperm.map Prod.fst).nodup_iff.2 (List.nodup_cons.2 ⟨hn, h.nodup⟩)
    · have hlinks := h.links
      rw [List.map_append, List.map_cons] at hlinks ⊢
      refine hlinks.insertAfter ?_ ?_ fun x hx => ?_
      · simp
      · simp [hpn.symm]
      · have hxp := hp x (by simpa using hx)
        have hxn := hne x (by rw [List.map_append, List.map_cons]; exact (List.perm_middle.mem_iff).2 (List.mem_cons_of_mem _ hx))
        simp [hxp, hxn]
    · have hx' : x = (node, data) ∨ x ∈ l₁ ++ p :: e :: l₂ := by
        simp only [List.mem_append, List.mem_cons] at hx ⊢
        tauto
      rcases hx' with rfl | hx'
      · simp
      · have hxn := hne x.1 (List.mem_map_of_mem hx')
        simpa [hxn] using h.data x hx'
    · have hlen : (l₁ ++ p :: (node, data) :: e :: l₂).length = (l₁ ++ p :: e :: l₂).length + 1 := by
        simp only [List.length_append, List.length_cons]
        omega
      rw [hlen]
      exact count_succ h.num
    · simp [h.tail]

/-! ## Walks -/

theorem seek_spec {p : δ → Bool} : ∀ {l : List (Nat × δ)} {prev head : Option Nat} {fuel : Nat},
    Leads (fun x => (mem x).next) head (l.map Prod.fst) none → (∀ e ∈ l, (mem e.1).data = e.2) → l.length < fuel →
    seek mem p fuel prev head = some (((l.takeWhile fun e => !p e.2).map Prod.fst).getLast?.or prev,
      ((l.dropWhile fun e => !p e.2).map Prod.fst).head?)
  | [], prev, head, fuel + 1, hlinks, _, _ => by
    rw [show head = none from hlinks]
    rfl
  | e :: l, prev, head, fuel + 1, hlinks, hdata, hfuel => by
    obtain ⟨rfl, hrest⟩ := hlinks
    rw [seek, hdata e List.mem_cons_self]
    by_cases hp : p e.2 = true
    · simp [hp]
    · rw [if_neg hp, seek_spec hrest (fun x hx => hdata x (List.mem_cons_of_mem e hx)) (Nat.lt_of_succ_lt_succ hfuel)]
      simp only [Bool.not_eq_true] at hp
      simp [hp, List.getLast?_cons]

/-- The walk ends at the end, or where the list splits. -/
theorem Shows.seek (h : Shows L l) (p : δ → Bool) (prev : Option Nat) (hfuel : l.length < fuel) :
    (l.eraseP (fun e => p e.2) = l ∧ ∃ last, seek L.mem p fuel prev L.head = some (last, none)) ∨
      ∃ l₁ e l₂, l = l₁ ++ e :: l₂ ∧ l.find? (fun e => p e.2) = some e ∧ l.eraseP (fun e => p e.2) = l₁ ++ l₂ ∧
        seek L.mem p fuel prev L.head = some ((l₁.map Prod.fst).getLast?.or prev, some e.1) := by
  have hseek : LinkList.seek L.mem p fuel prev L.head = _ := seek_spec h.links h.data hfuel
  have hsplit := List.takeWhile_append_dropWhile (p := fun e : Nat × δ => !p e.2) (l := l)
  have hbefore : ∀ e ∈ l.takeWhile (fun e => !p e.2), ¬p e.2 = true := fun e he => by
    simpa using (List.all_eq_true.1 (List.all_takeWhile (p := fun e : Nat × δ => !p e.2) (l := l)) e he)
  cases hdrop : l.dropWhile (fun e => !p e.2) with
  | nil =>
    rw [hdrop] at hseek hsplit
    rw [List.append_nil] at hsplit
    exact .inl ⟨List.eraseP_of_forall_not (hsplit ▸ hbefore), _, hseek⟩
  | cons e l₂ =>
    rw [hdrop] at hseek hsplit
    have he : p e.2 = true := by
      have hhead := List.head?_dropWhile_not (fun e : Nat × δ => !p e.2) l
      simpa [hdrop] using hhead
    generalize l.takeWhile (fun e => !p e.2) = l₁ at hsplit hbefore hseek
    refine .inr ⟨l₁, e, l₂, hsplit.symm, ?_, ?_, hseek⟩
    · rw [← hsplit, List.find?_append, List.find?_eq_none.2 hbefore, Option.none_or,
        List.find?_cons_of_pos (a := e) (p := fun e : Nat × δ => p e.2) he]
    · rw [← hsplit, List.eraseP_append_right _ hbefore, List.eraseP_cons_of_pos (p := fun e : Nat × δ => p e.2) he]

theorem beforeTail_spec {tail b : Nat} : ∀ {l : List Nat} {head fuel : Nat},
    Leads (fun x => (mem x).next) (some head) (l ++ [b]) (some tail) → tail ∉ l ++ [b] → l.length < fuel →
    beforeTail mem (some tail) fuel head = some b
  | [], head, fuel + 1, hlinks, _, _ => by
    obtain rfl : head = b := Option.some.inj hlinks.1
    rw [beforeTail]
    exact if_pos hlinks.2
  | n :: l, head, fuel + 1, hlinks, htail, hfuel => by
    obtain rfl : head = n := Option.some.inj hlinks.1
    have hrest : Leads (fun x => (mem x).next) (mem head).next (l ++ [b]) (some tail) := hlinks.2
    obtain ⟨n', hn'⟩ : ∃ n', (mem head).next = some n' ∧ n' ∈ l ++ [b] := by
      cases l with
      | nil => exact ⟨b, hrest.1, by simp⟩
      | cons m l => exact ⟨m, hrest.1, by simp⟩
    have hne : ¬(mem head).next = some tail := by
      rw [hn'.1]
      intro he
      exact htail (List.mem_cons_of_mem _ (Option.some.inj he ▸ hn'.2))
    rw [beforeTail, if_neg hne, hn'.1, Option.bind_some]
    exact beforeTail_spec (hn'.1 ▸ hrest) (fun hmem => htail (List.mem_cons_of_mem _ hmem)) (Nat.lt_of_succ_lt_succ hfuel)

/-! ## Nodes that go out -/

/-- The head is the tail in a list of one node only. -/
theorem Shows.head_eq_tail (h : Shows L (e :: l)) : L.head = L.tail ↔ l = [] := by
  rw [h.head, h.tail, List.map_cons, List.head?_cons]
  constructor
  · intro hends
    by_contra hl
    have hlast : (l.map Prod.fst).getLast? = some e.1 := by
      obtain ⟨e', l', rfl⟩ := List.exists_cons_of_ne_nil hl
      rw [List.map_cons, List.getLast?_cons_cons] at hends
      exact hends.symm
    exact (List.nodup_cons.1 h.nodup).1 (List.mem_of_getLast? hlast)
  · rintro rfl
    rfl

theorem Shows.drop (h : Shows L (e :: l)) {tail : Option Nat} (ht : tail = (l.map Prod.fst).getLast?) :
    Shows ⟨L.mem, L.num - 1, (L.mem e.1).next, tail⟩ l :=
  ⟨(List.nodup_cons.1 h.nodup).2, h.links.2, fun x hx => h.data x (List.mem_cons_of_mem e hx), count_pred h.num, ht⟩

theorem Shows.unlink {b : Nat × δ} (h : Shows L (l₁ ++ b :: e :: l₂)) {tail : Option Nat}
    (ht : tail = ((l₁ ++ b :: l₂).map Prod.fst).getLast?) :
    Shows ⟨setNext L.mem b.1 (L.mem e.1).next, L.num - 1, L.head, tail⟩ (l₁ ++ b :: l₂) := by
  have hkeys := h.nodup
  have hsub : (l₁ ++ b :: l₂).Sublist (l₁ ++ b :: e :: l₂) := by simp
  have hnodup : ((l₁ ++ b :: l₂).map Prod.fst).Nodup := hkeys.sublist (hsub.map Prod.fst)
  have hb : ∀ x ∈ l₁.map Prod.fst ++ l₂.map Prod.fst, x ≠ b.1 := by
    rw [List.map_append, List.map_cons, List.nodup_middle, List.nodup_cons] at hnodup
    exact fun x hx hxb => hnodup.1 (hxb ▸ hx)
  refine ⟨hnodup, ?_, fun x hx => ?_, ?_, ht⟩
  · have hlinks := h.links
    rw [List.map_append, List.map_cons, List.map_cons] at hlinks
    rw [List.map_append, List.map_cons]
    refine hlinks.removeAfter ?_ fun x hx => ?_
    · simp
    · simp [hb x hx]
  · simpa using h.data x (hsub.subset hx)
  · refine count_pred ?_
    rw [h.num]
    simp only [List.length_append, List.length_cons, Nat.add_assoc]

theorem Shows.lpop (h : Shows L l) : Shows L.listLpop.1 l.tail := by
  unfold listLpop
  cases l with
  | nil =>
    rw [show L.head = none from h.head]
    exact h
  | cons e l =>
    have hhead : L.head = some e.1 := h.head
    have hsame := h.head_eq_tail
    rw [hhead] at hsame ⊢
    by_cases hl : l = []
    · simp only [if_pos (hsame.2 hl)]
      subst hl
      exact shows_creat L.mem
    · simp only [if_neg fun he => hl (hsame.1 he)]
      refine h.drop ?_
      rw [h.tail]
      obtain ⟨e', l', rfl⟩ := List.exists_cons_of_ne_nil hl
      rfl

theorem Shows.rpop (h : Shows L l) (hfuel : l.length < fuel) :
    ∃ r, listRpop fuel L = some r ∧ Shows r.1 l.dropLast := by
  unfold listRpop
  rcases List.eq_nil_or_concat l with rfl | ⟨l, e, hl⟩
  · rw [show L.head = none from h.head]
    exact ⟨_, rfl, h⟩
  rw [List.concat_eq_append] at hl
  subst hl
  have ht : L.tail = some e.1 := by
    rw [h.tail]
    simp
  rw [List.dropLast_concat]
  rcases List.eq_nil_or_concat l with rfl | ⟨l, b, hl⟩
  · have hhead : L.head = some e.1 := h.head
    rw [hhead, ht]
    exact ⟨_, if_pos rfl, shows_creat L.mem⟩
  rw [List.concat_eq_append] at hl
  subst hl
  have hlist : l ++ [b] ++ [e] = l ++ b :: e :: [] := by simp
  rw [hlist] at h hfuel
  obtain ⟨head, hhead, hmem⟩ : ∃ head, L.head = some head ∧ head ∈ (l ++ [b]).map Prod.fst := by
    rw [h.head]
    cases l with
    | nil => exact ⟨b.1, rfl, by simp⟩
    | cons x l => exact ⟨x.1, rfl, by simp⟩
  have hkeys := h.nodup
  have hlinks := h.links
  rw [← hlist, List.map_append, List.map_singleton] at hkeys hlinks
  have he : e.1 ∉ (l ++ [b]).map Prod.fst := (List.nodup_cons.1 (List.nodup_append_comm.1 hkeys)).1
  obtain ⟨m, hl, hm, hlast⟩ := leads_append.1 hlinks
  rw [hhead, hm, List.map_append, List.map_singleton] at hl
  rw [List.map_append, List.map_singleton] at he
  have hne : ¬head = e.1 := fun heq => he (by rw [List.map_append, List.map_singleton] at hmem; exact heq ▸ hmem)
  have hwalk : beforeTail L.mem (some e.1) fuel head = _ := beforeTail_spec hl he (by simp at hfuel ⊢; omega)
  rw [hhead, ht]
  simp only [if_neg hne, hwalk, Option.map_some]
  refine ⟨_, rfl, ?_⟩
  have hlast : (L.mem e.1).next = none := hlast
  have htail : some b.1 = ((l ++ b :: []).map Prod.fst).getLast? := by simp
  have hunlink := h.unlink htail
  rwa [hlast, hhead] at hunlink

/-- The last node is the tail. -/
theorem Shows.eq_tail (h : Shows L (l₁ ++ e :: l₂)) : some e.1 = L.tail ↔ l₂ = [] := by
  rw [h.tail]
  constructor
  · intro he
    by_contra hl
    have hkeys := h.nodup
    rw [List.map_append, List.map_cons, List.nodup_middle, List.nodup_cons] at hkeys
    refine hkeys.1 (List.mem_append_right _ (List.mem_of_getLast? (a := e.1) ?_))
    obtain ⟨e', l', rfl⟩ := List.exists_cons_of_ne_nil hl
    rw [he]
    simp [List.getLast?_cons]
  · rintro rfl
    simp

theorem Shows.head_ne {b : Nat × δ} (h : Shows L (l₁ ++ b :: e :: l₂)) : ¬L.head = some e.1 := by
  rw [h.head]
  have hkeys := h.nodup
  cases l₁ with
  | nil =>
    rw [List.nil_append, List.map_cons, List.nodup_cons] at hkeys
    exact fun he => hkeys.1 (Option.some.inj he ▸ List.mem_cons_self)
  | cons x l₁ =>
    rw [List.cons_append, List.map_cons, List.nodup_cons] at hkeys
    exact fun he => hkeys.1 (Option.some.inj he ▸ by simp)

theorem Shows.remove [DecidableEq δ] (h : Shows L l) (data : δ) (hfuel : l.length < fuel) :
    ∃ r, listRemove fuel L data = some r ∧ Shows r.1 (l.eraseP fun e => decide (e.2 = data)) := by
  unfold listRemove
  rcases h.seek (fun d => decide (d = data)) L.head hfuel with ⟨hsame, last, hseek⟩ | ⟨l₁, e, l₂, rfl, -, herase, hseek⟩
  · rw [hseek, hsame]
    exact ⟨_, rfl, h⟩
  rw [hseek, herase]
  rcases List.eq_nil_or_concat l₁ with rfl | ⟨l₁, b, hl⟩
  · have hhead : L.head = some e.1 := h.head
    have hsame := Shows.head_eq_tail h
    simp only [if_pos hhead]
    by_cases hl : l₂ = []
    · rw [if_pos (hsame.2 hl), hl]
      exact ⟨_, rfl, shows_creat L.mem⟩
    · rw [if_neg fun he => hl (hsame.1 he)]
      refine ⟨_, rfl, Shows.drop h ?_⟩
      rw [h.tail]
      obtain ⟨e', l', rfl⟩ := List.exists_cons_of_ne_nil hl
      rfl
  · rw [List.concat_eq_append] at hl
    subst hl
    have hprev : ((l₁ ++ [b]).map Prod.fst).getLast?.or L.head = some b.1 := by simp
    have hlist : l₁ ++ [b] ++ e :: l₂ = l₁ ++ b :: e :: l₂ := by simp
    have hresult : l₁ ++ [b] ++ l₂ = l₁ ++ b :: l₂ := by simp
    have htail := h.eq_tail
    rw [hlist] at h
    simp only [hprev, if_neg h.head_ne, Option.map_some, hresult]
    by_cases hl : l₂ = []
    · rw [if_pos (htail.2 hl)]
      subst hl
      exact ⟨_, rfl, h.unlink (by simp)⟩
    · rw [if_neg fun he => hl (htail.1 he)]
      refine ⟨_, rfl, h.unlink ?_⟩
      rw [h.tail]
      obtain ⟨e', l', rfl⟩ := List.exists_cons_of_ne_nil hl
      simp

/-- `list_find_and_del` leaves the tail where it is, which is right where it does not remove the
last node. -/
theorem Shows.findAndDel (h : Shows L l) (cb : δ → Bool) (hfuel : l.length < fuel) (hlen : l.length < 2 ^ 32) :
    ∃ r, listFindAndDel fuel L cb = some r ∧ r.1.tail = L.tail ∧
      ((∀ e, l.find? (fun e => cb e.2) = some e → some e.1 ≠ L.tail) → Shows r.1 (l.eraseP fun e => cb e.2)) := by
  unfold listFindAndDel
  rcases h.seek cb none hfuel with ⟨hsame, last, hseek⟩ | ⟨l₁, e, l₂, rfl, hfind, herase, hseek⟩
  · rw [hseek, hsame]
    exact ⟨_, rfl, rfl, fun _ => h⟩
  rw [hseek, herase]
  have htail := h.eq_tail
  by_cases hnum : L.num - 1 = 0
  · simp only [if_pos hnum]
    refine ⟨_, rfl, rfl, fun hlast => absurd ?_ (hlast e hfind)⟩
    have hpred : L.num - 1 = BitVec.ofNat 32 (l₁ ++ l₂).length := by
      refine count_pred ?_
      rw [h.num]
      simp only [List.length_append, List.length_cons, Nat.add_assoc]
    have hzero := congrArg BitVec.toNat (hpred.symm.trans hnum)
    simp only [List.length_append, List.length_cons] at hlen
    rw [BitVec.toNat_ofNat, Nat.mod_eq_of_lt (by rw [List.length_append]; omega)] at hzero
    exact htail.2 (List.append_eq_nil_iff.1 (List.length_eq_zero_iff.1 hzero)).2
  simp only [if_neg hnum]
  refine ⟨_, rfl, rfl, fun hlast => ?_⟩
  have hl : l₂ ≠ [] := fun hl => hlast e hfind (htail.2 hl)
  rcases List.eq_nil_or_concat l₁ with rfl | ⟨l₁, b, hb⟩
  · have hhead : L.head = some e.1 := h.head
    simp only [List.map_nil, List.getLast?_nil, Option.none_or, if_pos hhead]
    refine Shows.drop h ?_
    rw [h.tail]
    obtain ⟨e', l', rfl⟩ := List.exists_cons_of_ne_nil hl
    rfl
  · rw [List.concat_eq_append] at hb
    subst hb
    have hprev : ((l₁ ++ [b]).map Prod.fst).getLast?.or none = some b.1 := by simp
    have hlist : l₁ ++ [b] ++ e :: l₂ = l₁ ++ b :: e :: l₂ := by simp
    have hresult : l₁ ++ [b] ++ l₂ = l₁ ++ b :: l₂ := by simp
    rw [hlist] at h
    simp only [hprev, if_neg h.head_ne, hresult]
    refine h.unlink ?_
    rw [h.tail]
    obtain ⟨e', l', rfl⟩ := List.exists_cons_of_ne_nil hl
    simp

/-! ## The calls -/

theorem insertAfter_split (p : Nat × δ) (new : List (Nat × δ)) : ∀ {l₁ : List (Nat × δ)}, p.1 ∉ l₁.map Prod.fst →
    insertAfter p.1 new (l₁ ++ p :: l₂) = l₁ ++ [p] ++ (new ++ l₂)
  | [], _ => if_pos rfl
  | x :: l₁, hp => by
    rw [List.map_cons, List.mem_cons, not_or] at hp
    rw [List.cons_append, insertAfter, if_neg (Ne.symm hp.1), insertAfter_split p new hp.2]
    rfl

theorem insertAfter_nil (p : Nat) : ∀ l : List (Nat × δ), insertAfter p [] l = l
  | [] => rfl
  | e :: l => by
    rw [insertAfter, insertAfter_nil p l]
    split <;> rfl

theorem listInsert_none (L : LinkList δ) (prev : Option Nat) (data : δ) : L.listInsert prev none data = L := by
  unfold listInsert
  cases prev with
  | none => rfl
  | some prev => exact ite_self L

theorem Shows.insertCall [DecidableEq δ] (h : Shows L l) {prev node : Option Nat}
    (hfresh : Fresh l (.insert prev node data)) :
    Shows (L.listInsert prev node data) (edit l (.insert prev node data)) := by
  cases node with
  | none =>
    rw [listInsert_none]
    cases prev with
    | none => exact h
    | some p => rw [edit, Option.toList_none, List.map_nil, insertAfter_nil]; exact h
  | some node =>
    have hn := hfresh.2 node rfl
    cases prev with
    | none =>
      have hfront : Shows L ([] ++ l) := h
      exact hfront.insert rfl hn
    | some p =>
      obtain ⟨e, he, rfl⟩ := List.mem_map.1 (hfresh.1 p rfl)
      obtain ⟨l₁, l₂, rfl⟩ := List.append_of_mem he
      have hkeys := h.nodup
      rw [List.map_append, List.map_cons, List.nodup_middle, List.nodup_cons] at hkeys
      have he₁ : e.1 ∉ l₁.map Prod.fst := fun hmem => hkeys.1 (List.mem_append_left _ hmem)
      rw [edit, insertAfter_split e _ he₁]
      have hlist : l₁ ++ e :: l₂ = l₁ ++ [e] ++ l₂ := by simp
      rw [hlist] at h hn
      exact h.insert (by simp) hn

theorem Shows.sort (h : Shows L l) {node : Option Nat} (cmp : δ → δ → Int) (hn : ∀ n ∈ node, n ∉ l.map Prod.fst)
    (hfuel : l.length < fuel) : ∃ L', listSort fuel L node data cmp = some L' ∧
      Shows L' (l.takeWhile (fun e => !decide (0 ≤ cmp data e.2)) ++ node.toList.map (·, data) ++
        l.dropWhile fun e => !decide (0 ≤ cmp data e.2)) := by
  unfold listSort
  by_cases hhead : L.head = none
  · rw [if_pos hhead]
    obtain rfl : l = [] := by
      rw [h.head, List.head?_eq_none_iff, List.map_eq_nil_iff] at hhead
      exact hhead
    cases node with
    | none => exact ⟨_, rfl, h⟩
    | some node => exact ⟨_, rfl, h.lpush (hn node rfl)⟩
  rw [if_neg hhead, seek_spec h.links h.data hfuel]
  refine ⟨_, rfl, ?_⟩
  have hsplit := List.takeWhile_append_dropWhile (p := fun e : Nat × δ => !decide (0 ≤ cmp data e.2)) (l := l)
  dsimp only
  cases node with
  | none =>
    rw [listInsert_none, Option.toList_none, List.map_nil, List.append_nil, hsplit]
    exact h
  | some node =>
    have hn := hn node rfl
    rw [← hsplit] at h hn
    rw [Option.or_none, Option.toList_some, List.map_singleton, List.append_assoc]
    exact h.insert rfl hn

/-- The last node is not removed by `list_find_and_del`. -/
def KeepsLast (l : List (Nat × δ)) : Call δ → Prop
  | .findAndDel cb => ∀ e, l.find? (fun e => cb e.2) = some e → some e.1 ≠ (l.map Prod.fst).getLast?
  | _ => True

/-- A stale tail is not the last node of what is left. -/
theorem getLast?_eraseP {cb : δ → Bool} (hnodup : (l.map Prod.fst).Nodup)
    (hfind : l.find? (fun e => cb e.2) = some e) :
    ((l.eraseP fun e => cb e.2).map Prod.fst).getLast? ≠ some e.1 := by
  obtain ⟨l₁, l₂, rfl, herase⟩ := eraseP_of_find? hfind
  rw [List.map_append, List.map_cons, List.nodup_middle, List.nodup_cons] at hnodup
  rw [herase, List.map_append]
  exact fun hlast => hnodup.1 (List.mem_of_getLast? hlast)

variable [DecidableEq δ]

theorem Shows.step (h : Shows L l) {call : Call δ} (hfresh : Fresh l call) (hfuel : l.length < fuel)
    (hlen : l.length < 2 ^ 32) : ∃ L', L.step fuel call = some L' ∧ (KeepsLast l call → Shows L' (edit l call)) ∧
      (¬KeepsLast l call → L'.tail = L.tail) := by
  cases call with
  | lpush node data =>
    refine ⟨_, rfl, fun _ => ?_, fun hlast => absurd trivial hlast⟩
    cases node with
    | none => exact h
    | some node => exact h.lpush (hfresh node rfl)
  | rpush node data =>
    refine ⟨_, rfl, fun _ => ?_, fun hlast => absurd trivial hlast⟩
    cases node with
    | none => rw [edit, Option.toList_none, List.map_nil, List.append_nil]; exact h
    | some node => exact h.rpush (hfresh node rfl)
  | insert prev node data => exact ⟨_, rfl, fun _ => h.insertCall hfresh, fun hlast => absurd trivial hlast⟩
  | lpop => exact ⟨_, rfl, fun _ => h.lpop, fun hlast => absurd trivial hlast⟩
  | rpop =>
    obtain ⟨r, hr, hs⟩ := h.rpop hfuel
    exact ⟨r.1, by rw [LinkList.step, hr]; rfl, fun _ => hs, fun hlast => absurd trivial hlast⟩
  | remove data =>
    obtain ⟨r, hr, hs⟩ := h.remove data hfuel
    exact ⟨r.1, by rw [LinkList.step, hr]; rfl, fun _ => hs, fun hlast => absurd trivial hlast⟩
  | sort node data cmp =>
    obtain ⟨L', (hL' : listSort fuel L node data cmp = some L'), hs⟩ := h.sort cmp hfresh hfuel
    refine ⟨L', hL', fun _ => ?_, fun hlast => absurd trivial hlast⟩
    have hbefore : (fun e : Nat × δ => decide (cmp data e.2 < 0)) = fun e => !decide (0 ≤ cmp data e.2) := by
      funext e
      rw [← decide_not, decide_eq_decide]
      omega
    rw [edit, hbefore]
    exact hs
  | findAndDel cb =>
    obtain ⟨r, hr, htail, hs⟩ := h.findAndDel cb hfuel hlen
    refine ⟨r.1, by rw [LinkList.step, hr]; rfl, fun hlast => hs fun e he => ?_, fun _ => htail⟩
    rw [h.tail]
    exact hlast e he

theorem length_edit_le (l : List (Nat × δ)) (call : Call δ) : (edit l call).length ≤ l.length + 1 := by
  have hone : ∀ (node : Option Nat) (data : δ), (node.toList.map (·, data)).length ≤ 1 := by
    intro node data
    cases node <;> simp
  cases call with
  | lpush node data => rw [edit, List.length_append]; have := hone node data; omega
  | rpush node data => rw [edit, List.length_append]; have := hone node data; omega
  | insert prev node data =>
    have hlen := hone node data
    cases prev with
    | none => rw [edit, List.length_append]; omega
    | some p =>
      rw [edit]
      generalize node.toList.map (·, data) = new at hlen
      induction l with
      | nil => simp [insertAfter]
      | cons e l ih =>
        rw [insertAfter]
        split
        · simp only [List.length_cons, List.length_append]
          omega
        · simp only [List.length_cons]
          omega
  | lpop => rw [edit, List.length_tail]; omega
  | rpop => rw [edit, List.length_dropLast]; omega
  | remove data => exact List.length_eraseP_le.trans (Nat.le_succ _)
  | sort node data cmp =>
    have hlen := hone node data
    have hsplit := congrArg List.length
      (List.takeWhile_append_dropWhile (p := fun e : Nat × δ => decide (cmp data e.2 < 0)) (l := l))
    rw [List.length_append] at hsplit
    rw [edit, List.length_append, List.length_append]
    omega
  | findAndDel cb => exact List.length_eraseP_le.trans (Nat.le_succ _)

/-! ## Runs -/

/-- The walks go along lists that are no longer than the run. -/
theorem guarded_short : ∀ {calls : List (Call δ)} {l : List (Nat × δ)}, calls.length + l.length < fuel →
    Guarded edit Fresh l calls → Guarded edit (fun l call => Fresh l call ∧ l.length < fuel) l calls
  | [], _, _, _ => trivial
  | call :: calls, l, hfuel, ⟨hfresh, hrest⟩ => by
    have hlen := length_edit_le l call
    rw [List.length_cons] at hfuel
    exact ⟨⟨hfresh, by omega⟩, guarded_short (by omega) hrest⟩

/-- What a call needs for the list to be the sequence after it. -/
def Follows (l : List (Nat × δ)) (call : Call δ) : Prop := KeepsLast l call ∧ (edit l call).length < 2 ^ 31

/-- The list refines the sequence after every call just where no `list_find_and_del` removes the
last node, and the list stays shorter than 2^31. -/
theorem link_list_refines_iff (mem : Nat → LinkNode δ) {calls : List (Call δ)} (hfuel : calls.length < fuel)
    (hfresh : Guarded edit Fresh [] calls) :
    (∀ before, before <+: calls →
      ∃ L, before.foldlM (step fuel) (listCreat mem) = some L ∧ Refines L (before.foldl edit [])) ↔
      Guarded edit Follows [] calls := by
  refine simulate_iff (R := fun L l => Shows L l ∧ l.length < 2 ^ 31) (fun L l h => h.1.refines h.2) ?_ calls
    ⟨shows_creat mem, by simp⟩ (guarded_short (by simpa using hfuel) hfresh)
  rintro L l call ⟨h, hlen⟩ ⟨hfresh, hfuel⟩
  obtain ⟨L', hstep, hkeeps, hstale⟩ := h.step hfresh hfuel (by omega)
  refine ⟨L', hstep, fun href => ?_, fun hok => ⟨hkeeps hok.1, hok.2⟩⟩
  by_cases hlast : KeepsLast l call
  · refine ⟨hlast, ?_⟩
    by_contra hlong
    have hle := length_edit_le l call
    have hexact : (edit l call).length = 2 ^ 31 := by omega
    have hnum := href.num
    rw [(hkeeps hlast).num, hexact] at hnum
    exact absurd hnum (by decide)
  · have htail := href.tail
    rw [hstale hlast, h.tail] at htail
    cases call with
    | findAndDel cb =>
      refine absurd (fun e he hend => ?_) hlast
      exact getLast?_eraseP h.nodup he (htail.symm.trans hend.symm)
    | _ => exact absurd trivial hlast

theorem link_list_refines_iff_three :
    (∀ before, before <+: [Call.lpush (some 1) 10, .rpush (some 2) 20, .findAndDel (· = 10)] →
      ∃ L, before.foldlM (step 4) (listCreat fun _ => ⟨0, none⟩) = some L ∧ Refines L (before.foldl edit [])) ↔
      Guarded edit Follows [] [Call.lpush (some 1) 10, .rpush (some 2) 20, .findAndDel (· = 10)] :=
  link_list_refines_iff (fun _ => ⟨0, none⟩) (by decide) (by simp [Guarded, Fresh, edit])

/-- The last of two nodes is removed, and the tail stays with it; what is pushed
behind it is out of reach. -/
theorem pushed_out_of_reach : ∃ L, [Call.rpush (some 1) 10, .rpush (some 2) 20, .findAndDel (· = 20),
      .rpush (some 3) 30].foldlM (step 5) (listCreat fun _ => ⟨0, none⟩) = some L ∧
    Guarded edit Fresh [] [Call.rpush (some 1) 10, .rpush (some 2) 20, .findAndDel (· = 20), .rpush (some 3) 30] ∧
    [Call.rpush (some 1) 10, .rpush (some 2) 20, .findAndDel (· = 20), .rpush (some 3) 30].foldl edit [] =
      [(1, 10), (3, 30)] ∧
    L.num = 2 ∧ Leads (fun x => (L.mem x).next) L.head [1] none ∧ ¬Refines L [(1, 10), (3, 30)] := by
  refine ⟨_, rfl, by simp [Guarded, Fresh, edit], by simp [edit], rfl, ⟨rfl, rfl⟩, fun h => ?_⟩
  have hlinks := h.links.2.1
  exact absurd hlinks (by decide)

end LinkList

end BeehiveIm.Core
