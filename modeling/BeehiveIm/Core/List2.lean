/-
Circular doubly linked lists (`list2.c`). A node is its address; `alloc` answers the address of
the new one, or none, and may use the memory of a node that was taken out again. The count is an
`int`. The walks take a number of steps that they may make. Left out: `list2_find`,
`list2_assert` and `list2_destroy`.

Runs of the calls on a circular list, against a sequence: as long as the count does not
overflow, the links lead through the sequence and back in both directions, and every call
returns what the sequence has.
-/
import BeehiveIm.Lib.Cyclic
import BeehiveIm.Lib.Run

namespace BeehiveIm.Core

open BeehiveIm.Lib

variable {δ : Type}

/-- `list2_t` over the memory of its nodes (`list2_node_t`) -/
structure List2 (δ : Type) where
  mem : Nat → DNode Nat δ
  num : BitVec 32
  head : Option Nat

namespace List2

/-- `list2_creat` -/
def list2Creat (mem : Nat → DNode Nat δ) : List2 δ := ⟨mem, 0, none⟩

/-- `list2_lpush`, and what it returns -/
def list2Lpush (L : List2 δ) (node : Option Nat) (data : δ) : List2 δ × Int :=
  match node with
  | none => (L, -1)
  | some node =>
    let mem := setData L.mem node data
    match L.head with
    | none => (⟨setNext (setPrev mem node node) node node, 1, some node⟩, 0)
    | some head =>
      let tail := (mem head).prev
      let mem := setNext mem node head
      let mem := setPrev mem head node
      let mem := setPrev mem node tail
      let mem := setNext mem tail node
      (⟨mem, L.num + 1, some node⟩, 0)

/-- `list2_rpush` -/
def list2Rpush (L : List2 δ) (node : Option Nat) (data : δ) : List2 δ × Int :=
  match node with
  | none => (L, -1)
  | some node =>
    let mem := setData L.mem node data
    match L.head with
    | none => (⟨setNext (setPrev mem node node) node node, 1, some node⟩, 0)
    | some head =>
      let tail := (mem head).prev
      let mem := setNext mem tail node
      let mem := setPrev mem node tail
      let mem := setNext mem node head
      let mem := setPrev mem head node
      (⟨mem, L.num + 1, some head⟩, 0)

/-- `list2_lpop`; `none` is NULL. -/
def list2Lpop (L : List2 δ) : List2 δ × Option δ :=
  match L.head with
  | none => (L, none)
  | some curr =>
    let tail := (L.mem curr).prev
    if curr = tail then ({ L with num := 0, head := none }, some (L.mem tail).data)
    else
      let head := (L.mem curr).next
      let mem := setNext L.mem tail head
      let mem := setPrev mem head tail
      (⟨mem, L.num - 1, some head⟩, some (mem curr).data)

/-- `list2_rpop` -/
def list2Rpop (L : List2 δ) : List2 δ × Option δ :=
  match L.head with
  | none => (L, none)
  | some head =>
    if head = (L.mem head).prev then ({ L with num := 0, head := none }, some (L.mem head).data)
    else
      let tail := (L.mem head).prev
      let prev := (L.mem tail).prev
      let mem := setNext L.mem prev head
      let mem := setPrev mem head prev
      (⟨mem, L.num - 1, some head⟩, some (mem tail).data)

/-- `list2_delete`, of a node that is in the list -/
def list2Delete (L : List2 δ) (node : Nat) : List2 δ × δ :=
  let data := (L.mem node).data
  if node = (L.mem node).prev then ({ L with num := 0, head := none }, data)
  else
    let head := if some node = L.head then some (L.mem node).next else L.head
    let mem := setNext L.mem (L.mem node).prev (L.mem node).next
    let mem := setPrev mem (mem node).next (mem node).prev
    (⟨mem, L.num - 1, head⟩, data)

/-- The walk of `list2_trav` to the node that was the last one: what the callback is
called with, in this order. -/
def travFrom (mem : Nat → DNode Nat δ) (tail : Nat) : Nat → Nat → Option (List δ)
  | 0, _ => none
  | fuel + 1, node =>
    if node = tail then some [(mem node).data]
    else (travFrom mem tail fuel (mem node).next).map ((mem node).data :: ·)

/-- `list2_trav` -/
def list2Trav (fuel : Nat) (L : List2 δ) : Option (List δ) :=
  match L.head with
  | none => some []
  | some head => travFrom L.mem (L.mem head).prev fuel head

/-- The walk of `list2_find_and_del`: the node where it stops, or none. -/
def findFrom (mem : Nat → DNode Nat δ) (cb : δ → Bool) (tail : Nat) : Nat → Nat → Option (Option Nat)
  | 0, _ => none
  | fuel + 1, node =>
    if cb (mem node).data then some (some node)
    else if node = tail then some none
    else findFrom mem cb tail fuel (mem node).next

/-- `list2_find_and_del` -/
def list2FindAndDel (fuel : Nat) (L : List2 δ) (cb : δ → Bool) : Option (List2 δ × Option δ) :=
  match L.head with
  | none => some (L, none)
  | some head =>
    match findFrom L.mem cb (L.mem head).prev fuel head with
    | none => none
    | some none => some (L, none)
    | some (some node) =>
      let data := (L.mem node).data
      let num := L.num - 1
      if num = 0 then some ({ L with num := num, head := none }, some data)
      else
        let mem := setNext L.mem (L.mem node).prev (L.mem node).next
        let mem := setPrev mem (mem node).next (mem node).prev
        some (⟨mem, num, some (if node = head then (mem node).next else head)⟩, some data)

/-- `list2_roll` -/
def list2Roll (L : List2 δ) : List2 δ × Option δ :=
  match L.head with
  | none => (L, none)
  | some head => ({ L with head := some (L.mem head).next }, some (L.mem head).data)

/-- A call, with the address that `alloc` answers. -/
inductive Call (δ : Type) where
  | lpush (node : Option Nat) (data : δ)
  | rpush (node : Option Nat) (data : δ)
  | lpop
  | rpop
  | delete (node : Nat)
  | findAndDel (cb : δ → Bool)
  | roll

/-- What a call returns: a code, or a data block. -/
inductive Answer (δ : Type) where
  | code (ret : Int)
  | data (data : Option δ)

def step (fuel : Nat) (L : List2 δ) : Call δ → Option (List2 δ × Answer δ)
  | .lpush node data => some ((L.list2Lpush node data).1, .code (L.list2Lpush node data).2)
  | .rpush node data => some ((L.list2Rpush node data).1, .code (L.list2Rpush node data).2)
  | .lpop => some (L.list2Lpop.1, .data L.list2Lpop.2)
  | .rpop => some (L.list2Rpop.1, .data L.list2Rpop.2)
  | .delete node => some ((L.list2Delete node).1, .data (some (L.list2Delete node).2))
  | .findAndDel cb => (list2FindAndDel fuel L cb).map fun r => (r.1, .data r.2)
  | .roll => some (L.list2Roll.1, .data L.list2Roll.2)

/-- A list, and what the calls so far have returned. -/
def next (fuel : Nat) (h : List2 δ × List (Answer δ)) (call : Call δ) : Option (List2 δ × List (Answer δ)) :=
  (h.1.step fuel call).map fun r => (r.1, h.2 ++ [r.2])

/-! ## The sequence -/

/-- What a call does to the sequence of the nodes and their data. -/
def edit (l : List (Nat × δ)) : Call δ → List (Nat × δ)
  | .lpush node data => node.toList.map (·, data) ++ l
  | .rpush node data => l ++ node.toList.map (·, data)
  | .lpop => l.tail
  | .rpop => l.dropLast
  | .delete node => l.eraseP (·.1 = node)
  | .findAndDel cb => l.eraseP fun e => cb e.2
  | .roll => l.rotate 1

/-- What a call returns of the sequence. -/
def answer (l : List (Nat × δ)) : Call δ → Answer δ
  | .lpush node _ => .code (if node.isSome then 0 else -1)
  | .rpush node _ => .code (if node.isSome then 0 else -1)
  | .lpop => .data (l.head?.map Prod.snd)
  | .rpop => .data (l.getLast?.map Prod.snd)
  | .delete node => .data ((l.find? (·.1 = node)).map Prod.snd)
  | .findAndDel cb => .data ((l.map Prod.snd).find? cb)
  | .roll => .data (l.head?.map Prod.snd)

/-- The sequence, and what the calls so far have returned. -/
def follow (h : List (Nat × δ) × List (Answer δ)) (call : Call δ) : List (Nat × δ) × List (Answer δ) :=
  (edit h.1 call, h.2 ++ [answer h.1 call])

/-- A new node is not in the list, a deleted one is. -/
def Fresh (l : List (Nat × δ)) : Call δ → Prop
  | .lpush node _ => ∀ n ∈ node, n ∉ l.map Prod.fst
  | .rpush node _ => ∀ n ∈ node, n ∉ l.map Prod.fst
  | .delete node => node ∈ l.map Prod.fst
  | _ => True

/-- The list is the sequence: the links lead from the head through it and back, forwards and
backwards, the count is its length, and the traversal visits each element once. -/
structure Refines (fuel : Nat) (L : List2 δ) (l : List (Nat × δ)) : Prop where
  head : L.head = (l.map Prod.fst).head?
  num : L.num.toInt = l.length
  data : ∀ e ∈ l, (L.mem e.1).data = e.2
  forward : ∀ head ∈ L.head, List.iterate (fun x => (L.mem x).next) head (l.length + 1) = l.map Prod.fst ++ [head]
  backward : ∀ head ∈ L.head,
    List.iterate (fun x => (L.mem x).prev) head (l.length + 1) = (l.map Prod.fst ++ [head]).reverse
  trav : list2Trav fuel L = some (l.map Prod.snd)

/-- The links and the count of a list that is a sequence. -/
structure Shows (L : List2 δ) (l : List (Nat × δ)) : Prop where
  rings : Rings L.mem l
  head : L.head = (l.map Prod.fst).head?
  num : L.num = BitVec.ofNat 32 l.length

variable {L : List2 δ} {l l₁ l₂ : List (Nat × δ)} {e : Nat × δ} {mem : Nat → DNode Nat δ} {node : Nat} {data : δ}
  {fuel : Nat}

theorem shows_creat (mem : Nat → DNode Nat δ) : Shows (list2Creat mem) [] := ⟨rings_nil, rfl, rfl⟩

/-! ## Walks -/

/-- Only the last node is the tail. -/
theorem fst_eq_last (hnodup : ((e :: l).map Prod.fst).Nodup) {tail : Nat}
    (htail : tail = ((e :: l).getLast (List.cons_ne_nil e l)).1) : e.1 = tail ↔ l = [] := by
  constructor
  · intro he
    by_contra hl
    rw [List.getLast_cons hl] at htail
    have hmem : e.1 ∈ l.map Prod.fst := by
      rw [he, htail]
      exact List.mem_map_of_mem (List.getLast_mem hl)
    exact (List.nodup_cons.1 hnodup).1 hmem
  · rintro rfl
    exact htail.symm

theorem travFrom_spec {tail : Nat} : ∀ {l : List (Nat × δ)} {e : Nat × δ} {fuel : Nat},
    ((e :: l).map Prod.fst).IsChain (Linked mem) → ((e :: l).map Prod.fst).Nodup →
    (∀ x ∈ e :: l, (mem x.1).data = x.2) → tail = ((e :: l).getLast (List.cons_ne_nil e l)).1 → l.length < fuel →
    travFrom mem tail fuel e.1 = some ((e :: l).map Prod.snd)
  | l, e, fuel + 1, hchain, hnodup, hdata, htail, hfuel => by
    have he : (mem e.1).data = e.2 := hdata e List.mem_cons_self
    rw [travFrom]
    cases l with
    | nil => rw [if_pos ((fst_eq_last hnodup htail).2 rfl), he]; rfl
    | cons e' l =>
      rw [if_neg fun h => List.cons_ne_nil e' l ((fst_eq_last hnodup htail).1 h)]
      obtain ⟨hlink, hchain⟩ := List.isChain_cons_cons.1 hchain
      rw [hlink.1, travFrom_spec hchain (List.nodup_cons.1 hnodup).2 (fun x hx => hdata x (List.mem_cons_of_mem e hx))
        htail (Nat.lt_of_succ_lt_succ hfuel), he]
      rfl

theorem findFrom_spec {cb : δ → Bool} {tail : Nat} : ∀ {l : List (Nat × δ)} {e : Nat × δ} {fuel : Nat},
    ((e :: l).map Prod.fst).IsChain (Linked mem) → ((e :: l).map Prod.fst).Nodup →
    (∀ x ∈ e :: l, (mem x.1).data = x.2) → tail = ((e :: l).getLast (List.cons_ne_nil e l)).1 → l.length < fuel →
    findFrom mem cb tail fuel e.1 = some (((e :: l).find? fun x => cb x.2).map Prod.fst)
  | l, e, fuel + 1, hchain, hnodup, hdata, htail, hfuel => by
    have he : (mem e.1).data = e.2 := hdata e List.mem_cons_self
    rw [findFrom, he]
    by_cases hcb : cb e.2 = true
    · rw [if_pos hcb, List.find?_cons_of_pos (a := e) (p := fun x : Nat × δ => cb x.2) hcb]
      rfl
    rw [if_neg hcb, List.find?_cons_of_neg (a := e) (p := fun x : Nat × δ => cb x.2) hcb]
    cases l with
    | nil => rw [if_pos ((fst_eq_last hnodup htail).2 rfl)]; rfl
    | cons e' l =>
      rw [if_neg fun h => List.cons_ne_nil e' l ((fst_eq_last hnodup htail).1 h)]
      obtain ⟨hlink, hchain⟩ := List.isChain_cons_cons.1 hchain
      rw [hlink.1]
      exact findFrom_spec hchain (List.nodup_cons.1 hnodup).2 (fun x hx => hdata x (List.mem_cons_of_mem e hx)) htail
        (Nat.lt_of_succ_lt_succ hfuel)

theorem Shows.refines (h : Shows L l) (hlen : l.length < 2 ^ 31) (hfuel : l.length ≤ fuel) : Refines fuel L l := by
  have hnum : L.num.toInt = l.length := by
    rw [h.num, toInt_count hlen]
  cases l with
  | nil =>
    have hhead : L.head = none := h.head
    refine ⟨h.head, hnum, h.rings.data, ?_, ?_, ?_⟩
    · simp [hhead]
    · simp [hhead]
    · simp [list2Trav, hhead]
  | cons e l =>
    have hhead : L.head = some e.1 := h.head
    have hring : Round L.mem (e.1 :: l.map Prod.fst) := h.rings.ring
    refine ⟨h.head, hnum, h.rings.data, fun head hm => ?_, fun head hm => ?_, ?_⟩
    · obtain rfl : e.1 = head := Option.some.inj (hhead.symm.trans hm)
      simpa using hring.iterate_next
    · obtain rfl : e.1 = head := Option.some.inj (hhead.symm.trans hm)
      simpa using hring.iterate_prev
    · rw [list2Trav, hhead]
      exact travFrom_spec h.rings.chain h.rings.nodup h.rings.data h.rings.prev_head hfuel

/-! ## The calls -/

/-- The first node of a list gets a ring of its own. -/
theorem shows_first (n : Nat) (d : δ) (num : BitVec 32) (hnum : num = 1) :
    Shows ⟨setNext (setPrev (setData mem n d) n n) n n, num, some n⟩ [(n, d)] := by
  refine ⟨rings_singleton ?_ ?_ ?_, rfl, hnum⟩
  · simp
  · simp
  · simp

theorem Shows.lpush (h : Shows L l) (hn : node ∉ l.map Prod.fst) :
    Shows (L.list2Lpush (some node) data).1 ((node, data) :: l) := by
  unfold list2Lpush
  cases l with
  | nil =>
    rw [show L.head = none from h.head]
    exact shows_first node data 1 rfl
  | cons e l =>
    rw [show L.head = some e.1 from h.head]
    have hne : e.1 ≠ node := fun he => hn (by simp [he])
    have htail : (L.mem e.1).prev ≠ node := by
      rw [h.rings.prev_head]
      exact fun he => hn (he ▸ List.mem_map_of_mem (List.getLast_mem _))
    refine ⟨h.rings.insert hn (fun x => ?_) (fun x => ?_) fun x => ?_, rfl, count_succ h.num⟩
    · simp
    · simp
      grind
    · simp

theorem Shows.rpush (h : Shows L l) (hn : node ∉ l.map Prod.fst) :
    Shows (L.list2Rpush (some node) data).1 (l ++ [(node, data)]) := by
  unfold list2Rpush
  cases l with
  | nil =>
    rw [show L.head = none from h.head]
    exact shows_first node data 1 rfl
  | cons e l =>
    rw [show L.head = some e.1 from h.head]
    have hne : e.1 ≠ node := fun he => hn (by simp [he])
    have htail : (L.mem e.1).prev ≠ node := by
      rw [h.rings.prev_head]
      exact fun he => hn (he ▸ List.mem_map_of_mem (List.getLast_mem _))
    refine ⟨(h.rings.insert hn (fun x => ?_) (fun x => ?_) fun x => ?_).concat, rfl, ?_⟩
    · simp
      grind
    · simp
    · simp
    · rw [List.length_append]
      exact count_succ h.num

theorem Shows.lpop (h : Shows L l) :
    Shows L.list2Lpop.1 l.tail ∧ L.list2Lpop.2 = l.head?.map Prod.snd := by
  unfold list2Lpop
  cases l with
  | nil =>
    rw [show L.head = none from h.head]
    exact ⟨h, rfl⟩
  | cons e l =>
    rw [show L.head = some e.1 from h.head]
    have hdata : (L.mem e.1).data = e.2 := h.rings.data e List.mem_cons_self
    have hself := h.rings.prev_eq_self
    by_cases hl : l = []
    · simp only [hself.2 hl, if_true, hdata]
      subst hl
      exact ⟨⟨rings_nil, rfl, rfl⟩, rfl⟩
    · have hne : ¬e.1 = (L.mem e.1).prev := fun he => hl (hself.1 he.symm)
      have hnext := (h.rings.neighbours hl).2
      simp only [if_neg hne]
      refine ⟨⟨h.rings.remove hl (fun x => ?_) (fun x => ?_) fun x => ?_, ?_, count_pred h.num⟩, ?_⟩
      · simp
      · simp
      · simp
      · rw [hnext, List.tail_cons, List.head?_map, List.head?_eq_some_head hl]
        rfl
      · simp [hdata]

theorem Shows.rpop (h : Shows L l) :
    Shows L.list2Rpop.1 l.dropLast ∧ L.list2Rpop.2 = l.getLast?.map Prod.snd := by
  unfold list2Rpop
  rcases List.eq_nil_or_concat l with rfl | ⟨l, e, hl⟩
  · rw [show L.head = none from h.head]
    exact ⟨h, rfl⟩
  rw [List.concat_eq_append] at hl
  subst hl
  have hring : Rings L.mem (e :: l) := @Rings.append_comm _ _ _ l [e] h.rings
  have hdata : (L.mem e.1).data = e.2 := hring.data e List.mem_cons_self
  rw [List.dropLast_concat, List.getLast?_concat]
  cases l with
  | nil =>
    have hself : (L.mem e.1).prev = e.1 := hring.prev_eq_self.2 rfl
    rw [show L.head = some e.1 from h.head]
    simp only [hself, if_true, hdata]
    exact ⟨⟨rings_nil, rfl, rfl⟩, rfl⟩
  | cons e' l =>
    rw [show L.head = some e'.1 from h.head]
    have hprev : (L.mem e'.1).prev = e.1 := by
      rw [Rings.prev_head (e := e') (l := l ++ [e]) h.rings]
      simp
    have hnext : (L.mem e.1).next = e'.1 := (hring.neighbours (List.cons_ne_nil e' l)).2
    have hne : ¬e'.1 = e.1 := by
      have hnodup := hring.nodup
      rw [List.map_cons, List.map_cons, List.nodup_cons] at hnodup
      exact fun he => hnodup.1 (he ▸ List.mem_cons_self)
    simp only [hprev, if_neg hne]
    refine ⟨⟨hring.remove (List.cons_ne_nil e' l) (fun x => ?_) (fun x => ?_) fun x => ?_, rfl, ?_⟩, ?_⟩
    · simp [hnext]
    · simp [hnext]
    · simp
    · refine count_pred ?_
      rw [h.num]
      simp
    · simp [hdata]

/-- A node goes out of the middle or from an end. -/
theorem Shows.unlink (h : Shows L (l₁ ++ e :: l₂)) (hl : l₁ ++ l₂ ≠ []) :
    Shows ⟨setPrev (setNext L.mem (L.mem e.1).prev (L.mem e.1).next) (L.mem e.1).next (L.mem e.1).prev, L.num - 1,
      if some e.1 = L.head then some (L.mem e.1).next else L.head⟩ (l₁ ++ l₂) := by
  refine ⟨h.rings.unlink hl (fun x => ?_) (fun x => ?_) fun x => ?_, ?_, ?_⟩
  · simp
  · simp
  · simp
  · rw [h.head]
    cases l₁ with
    | nil =>
      have hl : l₂ ≠ [] := hl
      have hnext := (Rings.neighbours h.rings hl).2
      change (if some e.1 = some e.1 then some (L.mem e.1).next else some e.1) = (l₂.map Prod.fst).head?
      rw [if_pos rfl, hnext, List.head?_map, List.head?_eq_some_head hl]
      rfl
    | cons e' l₁ =>
      have hne : e.1 ≠ e'.1 := by
        have hnodup := h.rings.nodup
        rw [List.cons_append, List.map_cons, List.nodup_cons] at hnodup
        exact fun he => hnodup.1 (by simp [← he])
      exact if_neg fun he => hne (Option.some.inj he)
  · refine count_pred ?_
    rw [h.num]
    simp [Nat.add_assoc]

theorem Shows.delete (h : Shows L l) (hnode : node ∈ l.map Prod.fst) :
    Shows (L.list2Delete node).1 (l.eraseP (·.1 = node)) ∧
      some (L.list2Delete node).2 = (l.find? (·.1 = node)).map Prod.snd := by
  cases hfind : l.find? (fun x => decide (x.1 = node)) with
  | none =>
    obtain ⟨e, he, rfl⟩ := List.mem_map.1 hnode
    exact absurd (decide_eq_true rfl) (List.find?_eq_none.1 hfind e he)
  | some e' =>
  obtain rfl : e'.1 = node := by simpa using List.find?_some hfind
  obtain ⟨l₁, l₂, rfl, herase⟩ := eraseP_of_find? hfind
  rw [herase]
  have hdata : (L.mem e'.1).data = e'.2 := h.rings.data e' (by simp)
  unfold list2Delete
  by_cases hl : l₁ ++ l₂ = []
  · obtain ⟨rfl, rfl⟩ := List.append_eq_nil_iff.1 hl
    have hself : (L.mem e'.1).prev = e'.1 := Rings.prev_eq_self h.rings |>.2 rfl
    simp only [hself, if_true, hdata]
    exact ⟨⟨rings_nil, rfl, rfl⟩, rfl⟩
  · have hself : ¬e'.1 = (L.mem e'.1).prev := by
      intro hself
      refine hl (List.append_eq_nil_iff.2 (List.append_eq_nil_iff.1 ?_).symm)
      exact (Rings.prev_eq_self h.rings.append_comm).1 hself.symm
    have hunlink := h.unlink hl
    simp only [if_neg hself, hdata]
    refine ⟨?_, rfl⟩
    simpa using hunlink

theorem Shows.findAndDel (h : Shows L l) (cb : δ → Bool) (hlen : l.length < 2 ^ 32) (hfuel : l.length ≤ fuel) :
    ∃ r, list2FindAndDel fuel L cb = some r ∧ Shows r.1 (l.eraseP fun e => cb e.2) ∧
      r.2 = (l.map Prod.snd).find? cb := by
  unfold list2FindAndDel
  cases l with
  | nil =>
    rw [show L.head = none from h.head]
    exact ⟨_, rfl, h, rfl⟩
  | cons head l =>
    have hhead : L.head = some head.1 := h.head
    rw [hhead]
    have hwalk : findFrom L.mem cb _ fuel head.1 = _ :=
      findFrom_spec h.rings.chain h.rings.nodup h.rings.data h.rings.prev_head hfuel
    simp only [hwalk]
    cases hfind : (head :: l).find? (fun e => cb e.2) with
    | none =>
      refine ⟨_, rfl, ?_, ?_⟩
      · rw [List.eraseP_of_forall_not fun e he => List.find?_eq_none.1 hfind e he]
        exact h
      · rw [List.find?_map]
        exact (congrArg (Option.map Prod.snd) hfind).symm
    | some e =>
      obtain ⟨l₁, l₂, heq, herase⟩ := eraseP_of_find? hfind
      have hdata : (L.mem e.1).data = e.2 := h.rings.data e (List.mem_of_find?_eq_some hfind)
      have hret : some e.2 = ((head :: l).map Prod.snd).find? cb := by
        rw [List.find?_map]
        exact (congrArg (Option.map Prod.snd) hfind).symm
      rw [herase]
      have hlen' : (l₁ ++ l₂).length = l.length := by
        have := congrArg List.length heq
        simp only [List.length_append, List.length_cons] at this ⊢
        omega
      have hnum : L.num - 1 = BitVec.ofNat 32 (l₁ ++ l₂).length := by
        rw [hlen', count_pred h.num]
      by_cases hl : l₁ ++ l₂ = []
      · have hzero : L.num - 1 = 0 := by
          rw [hnum, hl]
          rfl
        simp only [Option.map_some, hzero, if_true, hdata]
        rw [hl]
        exact ⟨_, rfl, ⟨rings_nil, rfl, rfl⟩, hret⟩
      · have hzero : ¬L.num - 1 = 0 := by
          rw [hnum]
          intro hzero
          have hnat := congrArg BitVec.toNat hzero
          rw [BitVec.toNat_ofNat, Nat.mod_eq_of_lt (by rw [hlen']; simp only [List.length_cons] at hlen; omega)] at hnat
          exact hl (List.length_eq_zero_iff.1 hnat)
        simp only [Option.map_some, hzero, if_false, hdata]
        refine ⟨_, rfl, ?_, hret⟩
        have hunlink := Shows.unlink (heq ▸ h) hl
        rw [hhead] at hunlink
        simpa [apply_ite some] using hunlink

theorem Shows.roll (h : Shows L l) : Shows L.list2Roll.1 (l.rotate 1) ∧ L.list2Roll.2 = l.head?.map Prod.snd := by
  unfold list2Roll
  cases l with
  | nil =>
    rw [show L.head = none from h.head]
    exact ⟨h, rfl⟩
  | cons e l =>
    rw [show L.head = some e.1 from h.head]
    have hdata : (L.mem e.1).data = e.2 := h.rings.data e List.mem_cons_self
    rw [List.rotate_cons_succ, List.rotate_zero]
    refine ⟨⟨h.rings.concat, ?_, ?_⟩, by simp [hdata]⟩
    · cases l with
      | nil => exact congrArg some (h.rings.ring.next_last (by simp))
      | cons e' l => exact congrArg some (h.rings.neighbours (List.cons_ne_nil e' l)).2
    · rw [List.length_append]
      exact h.num

/-! ## Runs -/

/-- What a call leaves is what it leaves of the sequence, and it returns what the sequence has. -/
theorem Shows.step (h : Shows L l) {call : Call δ} (hfresh : Fresh l call) (hlen : l.length < 2 ^ 32)
    (hfuel : l.length ≤ fuel) : ∃ L', L.step fuel call = some (L', answer l call) ∧ Shows L' (edit l call) := by
  cases call with
  | lpush node data =>
    cases node with
    | none => exact ⟨L, rfl, h⟩
    | some node =>
      refine ⟨_, ?_, h.lpush (hfresh node rfl)⟩
      simp only [List2.step, list2Lpush, answer]
      cases L.head <;> rfl
  | rpush node data =>
    cases node with
    | none => exact ⟨L, rfl, by simpa [edit] using h⟩
    | some node =>
      refine ⟨_, ?_, h.rpush (hfresh node rfl)⟩
      simp only [List2.step, list2Rpush, answer]
      cases L.head <;> rfl
  | lpop => exact ⟨_, by rw [List2.step, h.lpop.2]; rfl, h.lpop.1⟩
  | rpop => exact ⟨_, by rw [List2.step, h.rpop.2]; rfl, h.rpop.1⟩
  | delete node => exact ⟨_, by rw [List2.step, (h.delete hfresh).2]; rfl, (h.delete hfresh).1⟩
  | findAndDel cb =>
    obtain ⟨r, hr, hshows, hret⟩ := h.findAndDel cb hlen hfuel
    exact ⟨r.1, by rw [List2.step, hr, Option.map_some, hret]; rfl, hshows⟩
  | roll => exact ⟨_, by rw [List2.step, h.roll.2]; rfl, h.roll.1⟩

/-- The run of the calls on a list and on the sequence, as long as the count does not get back to
0. -/
theorem run_shows (hfuel : 2 ^ 32 ≤ fuel) (mem : Nat → DNode Nat δ) (calls : List (Call δ))
    (h : Guarded follow (fun h call => Fresh h.1 call ∧ h.1.length < 2 ^ 32) ([], []) calls) :
    ∃ L, calls.foldlM (next fuel) (list2Creat mem, []) = some (L, (calls.foldl follow ([], [])).2) ∧
      Shows L (calls.foldl follow ([], [])).1 := by
  have hstep : ∀ (s : List2 δ × List (Answer δ)) (a : List (Nat × δ) × List (Answer δ)) (call : Call δ),
      Shows s.1 a.1 ∧ s.2 = a.2 → Fresh a.1 call ∧ a.1.length < 2 ^ 32 →
      ∃ s', next fuel s call = some s' ∧ Shows s'.1 (follow a call).1 ∧ s'.2 = (follow a call).2 := by
    rintro s a call ⟨hs, hans⟩ ⟨hfresh, hlen⟩
    obtain ⟨L', hstep, hs'⟩ := hs.step hfresh hlen (Nat.le_trans (Nat.le_of_lt hlen) hfuel)
    exact ⟨_, by rw [next, hstep]; rfl, hs', by rw [follow, hans]⟩
  obtain ⟨s, hrun, hshows, hans⟩ := simulate hstep calls (list2Creat mem, []) ([], []) ⟨shows_creat mem, rfl⟩ h
  exact ⟨s.1, by rw [hrun, ← hans], hshows⟩

/-- A call that leaves a list whose length is an `int`. -/
def Allowed (h : List (Nat × δ) × List (Answer δ)) (call : Call δ) : Prop :=
  Fresh h.1 call ∧ (edit h.1 call).length < 2 ^ 31

theorem Allowed.of_guarded : ∀ {calls : List (Call δ)} {h : List (Nat × δ) × List (Answer δ)},
    h.1.length < 2 ^ 31 → Guarded follow Allowed h calls →
    Guarded follow (fun h call => Fresh h.1 call ∧ h.1.length < 2 ^ 32) h calls ∧
      (calls.foldl follow h).1.length < 2 ^ 31
  | [], _, hlen, _ => ⟨trivial, hlen⟩
  | _ :: _, _, hlen, ⟨⟨hfresh, hlen'⟩, hrest⟩ =>
    have hrun := Allowed.of_guarded hlen' hrest
    ⟨⟨⟨hfresh, by omega⟩, hrun.1⟩, hrun.2⟩

/-- After every run of calls that leave less than 2^31 elements the list is the sequence, and the
calls have returned what the sequence had. -/
theorem run_refines {fuel : Nat} (hfuel : 2 ^ 32 ≤ fuel) (mem : Nat → DNode Nat δ) (calls : List (Call δ))
    (h : Guarded follow Allowed ([], []) calls) :
    ∃ L, calls.foldlM (next fuel) (list2Creat mem, []) = some (L, (calls.foldl follow ([], [])).2) ∧
      Refines fuel L (calls.foldl follow ([], [])).1 := by
  obtain ⟨hguard, hlen⟩ := Allowed.of_guarded (by simp) h
  obtain ⟨L, hrun, hshows⟩ := run_shows hfuel mem calls hguard
  exact ⟨L, hrun, hshows.refines hlen (by omega)⟩

theorem run_refines_six : ∃ L, [Call.lpush (some 1) 10, .rpush (some 2) 20, .rpush (some 3) 30, .roll, .delete 2,
      .findAndDel (· = 30), .rpush (some 2) 40, .rpop].foldlM (next (2 ^ 32)) (list2Creat fun _ => ⟨0, 0, 0⟩, []) =
        some (L, [.code 0, .code 0, .code 0, .data (some 10), .data (some 20), .data (some 30), .code 0,
          .data (some 40)]) ∧ Refines (2 ^ 32) L [(1, 10)] := by
  have hfollow : [Call.lpush (some 1) 10, .rpush (some 2) 20, .rpush (some 3) 30, .roll, .delete 2, .findAndDel (· = 30),
      .rpush (some 2) 40, .rpop].foldl follow ([], []) = ([(1, 10)], [.code 0, .code 0, .code 0, .data (some 10),
        .data (some 20), .data (some 30), .code 0, .data (some 40)]) := by simp [follow, edit, answer]
  have hrun := run_refines (Nat.le_refl _) (fun _ => ⟨0, 0, 0⟩) [Call.lpush (some 1) 10, .rpush (some 2) 20,
    .rpush (some 3) 30, .roll, .delete 2, .findAndDel (· = 30), .rpush (some 2) 40, .rpop]
    (by simp [Guarded, Allowed, Fresh, follow, edit])
  rwa [hfollow] at hrun

/-! ## The count -/

theorem foldl_lpush : ∀ (nodes : List Nat) (h : List (Nat × Unit) × List (Answer Unit)), nodes.Nodup →
    (∀ n ∈ nodes, n ∉ h.1.map Prod.fst) → nodes.length + h.1.length ≤ 2 ^ 32 →
    Guarded follow (fun h call => Fresh h.1 call ∧ h.1.length < 2 ^ 32) h (nodes.map fun n => .lpush (some n) ()) ∧
      ((nodes.map fun n => Call.lpush (some n) ()).foldl follow h).1.length = nodes.length + h.1.length
  | [], _, _, _, _ => ⟨trivial, by simp⟩
  | n :: nodes, h, hnodup, hnew, hlen => by
    obtain ⟨hn, hnodup⟩ := List.nodup_cons.1 hnodup
    rw [List.length_cons] at hlen
    have hlength : (follow h (.lpush (some n) ())).1.length = h.1.length + 1 := by simp [follow, edit]
    have hnew' : ∀ m ∈ nodes, m ∉ (follow h (.lpush (some n) ())).1.map Prod.fst := fun m hm => by
      have hmn : m ≠ n := fun hmn => hn (hmn ▸ hm)
      simpa [follow, edit, hmn] using hnew m (List.mem_cons_of_mem n hm)
    obtain ⟨hguard, hlen'⟩ := foldl_lpush nodes (follow h (.lpush (some n) ())) hnodup hnew' (by omega)
    refine ⟨⟨⟨fun m hm => ?_, by omega⟩, hguard⟩, ?_⟩
    · rw [← Option.mem_some_iff.1 hm]
      exact hnew n List.mem_cons_self
    · rw [List.map_cons, List.foldl_cons, hlen', hlength, List.length_cons]
      omega

theorem guarded_fresh {calls : List (Call δ)} : ∀ {h : List (Nat × δ) × List (Answer δ)},
    Guarded follow (fun h call => Fresh h.1 call ∧ h.1.length < 2 ^ 32) h calls →
    Guarded follow (fun h call => Fresh h.1 call) h calls := by
  induction calls with
  | nil => exact fun _ => trivial
  | cons call calls ih => exact fun h => ⟨h.1.1, ih h.2⟩

/-- `n` calls of `list2_lpush` -/
@[irreducible] def pushes (n : Nat) : List (Call Unit) := (List.range n).map fun node => .lpush (some node) ()

theorem pushes_count {n : Nat} (hn : n ≤ fuel) (hfuel : fuel = 2 ^ 32) (mem : Nat → DNode Nat Unit) :
    Guarded follow (fun h call => Fresh h.1 call) ([], []) (pushes n) ∧
      ∃ L, (pushes n).foldlM (next fuel) (list2Creat mem, []) = some (L, ((pushes n).foldl follow ([], [])).2) ∧
        L.num = BitVec.ofNat 32 n ∧ ((pushes n).foldl follow ([], [])).1.length = n := by
  obtain ⟨hguard, hlen⟩ := foldl_lpush (List.range n) ([], []) List.nodup_range (by simp)
    (by rw [List.length_range, ← hfuel]; exact hn)
  have hpushes : pushes n = (List.range n).map fun node => .lpush (some node) () := by unfold pushes; rfl
  rw [← hpushes] at hguard hlen
  have hlen : ((pushes n).foldl follow ([], [])).1.length = n := hlen.trans List.length_range
  obtain ⟨L, hrun, hshows⟩ := run_shows (Nat.le_of_eq hfuel.symm) mem (pushes n) hguard
  exact ⟨guarded_fresh hguard, L, hrun, hlen ▸ hshows.num, hlen⟩

/-- With 2^31 elements the count is negative. -/
theorem count_overflows : Guarded follow (fun h call => Fresh h.1 call) ([], []) (pushes (2 ^ 31)) ∧
    ∃ L, (pushes (2 ^ 31)).foldlM (next (2 ^ 32)) (list2Creat fun _ => ⟨(), 0, 0⟩, []) =
        some (L, ((pushes (2 ^ 31)).foldl follow ([], [])).2) ∧
      L.num.toInt = -2 ^ 31 ∧ ¬Refines (2 ^ 32) L ((pushes (2 ^ 31)).foldl follow ([], [])).1 := by
  obtain ⟨hguard, L, hrun, hnum, hlen⟩ := @pushes_count (2 ^ 32) (2 ^ 31) (by decide) rfl fun _ => ⟨(), 0, 0⟩
  have hint : L.num.toInt = -2 ^ 31 := by
    rw [hnum]
    decide
  refine ⟨hguard, L, hrun, hint, fun h => ?_⟩
  have hpos := h.num
  rw [hint] at hpos
  omega

end List2

end BeehiveIm.Core
