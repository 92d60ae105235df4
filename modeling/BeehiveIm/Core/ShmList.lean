/-
Circular doubly linked lists in shared memory (`shm_list.c`). A node is its offset, which is
above 0; the offset 0 is no node. The memory may hold other lists too. The walks take a number of
steps that they may make.

Runs of the calls on a list in shared memory, against a sequence of nodes. The links are always
right; the count is, as long as no node is deleted from between two others.
-/
import BeehiveIm.Lib.Cyclic
import BeehiveIm.Lib.Run

namespace BeehiveIm.Core

open BeehiveIm.Lib

variable {δ : Type}

/-- `shm_list_t` -/
structure ShmList where
  num : BitVec 32
  head : Nat
  deriving DecidableEq, Repr

/-- The nodes (`shm_list_node_t`) by their offsets -/
abbrev ShmMem (δ : Type) := Nat → DNode Nat δ

namespace ShmList

/-- `shm_list_lpush` -/
def shmListLpush (mem : ShmMem δ) (list : ShmList) (node : Nat) : ShmMem δ × ShmList :=
  if list.head = 0 then (setNext (setPrev mem node node) node node, ⟨1, node⟩)
  else
    let head := list.head
    let tail := (mem head).prev
    let mem := setPrev mem node (mem head).prev
    let mem := setNext mem node head
    let mem := setPrev mem head node
    let mem := setNext mem tail node
    (mem, ⟨list.num + 1, node⟩)

/-- `shm_list_lpop`, and the node that it answers -/
def shmListLpop (mem : ShmMem δ) (list : ShmList) : (ShmMem δ × ShmList) × Nat :=
  if list.head = 0 then ((mem, list), 0)
  else
    let head := list.head
    let tail := (mem head).prev
    if head = tail then ((mem, ⟨0, 0⟩), head)
    else
      let next := (mem head).next
      let mem := setNext mem tail (mem head).next
      let mem := setPrev mem next (mem head).prev
      ((mem, ⟨list.num - 1, next⟩), head)

/-- `shm_list_rpush` -/
def shmListRpush (mem : ShmMem δ) (list : ShmList) (node : Nat) : ShmMem δ × ShmList :=
  if list.head = 0 then (setNext (setPrev mem node node) node node, ⟨1, node⟩)
  else
    let head := list.head
    let tail := (mem head).prev
    let mem := setNext mem tail node
    let mem := setPrev mem node (mem head).prev
    let mem := setNext mem node head
    let mem := setPrev mem head node
    (mem, ⟨list.num + 1, head⟩)

/-- `shm_list_rpop` -/
def shmListRpop (mem : ShmMem δ) (list : ShmList) : (ShmMem δ × ShmList) × Nat :=
  if list.head = 0 then ((mem, list), 0)
  else
    let head := list.head
    if head = (mem head).prev then ((mem, ⟨0, 0⟩), head)
    else
      let off := (mem head).prev
      let prev := (mem off).prev
      let mem := setNext mem prev head
      let mem := setPrev mem head (mem off).prev
      ((mem, ⟨list.num - 1, head⟩), off)

/-- The node is linked out from between its neighbours. -/
def linkOut (mem : ShmMem δ) (node : Nat) : ShmMem δ :=
  let prev := (mem node).prev
  let next := (mem node).next
  let mem := setNext mem prev (mem node).next
  setPrev mem next (mem node).prev

/-- `shm_list_delete`, of a node that is in the list -/
def shmListDelete (mem : ShmMem δ) (list : ShmList) (node : Nat) : (ShmMem δ × ShmList) × Nat :=
  if node = list.head then shmListLpop mem list
  else if node = (mem list.head).prev then shmListRpop mem list
  else ((linkOut mem node, list), node)

/-- The walk of `shm_list_query` once around: the first node that compares equal, or 0. -/
def queryFrom (mem : ShmMem δ) (cmp : δ → Bool) (head : Nat) : Nat → Nat → Option Nat
  | 0, _ => none
  | fuel + 1, node =>
    if cmp (mem node).data then some node
    else if (mem node).next = head then some 0
    else queryFrom mem cmp head fuel (mem node).next

/-- `shm_list_query` -/
def shmListQuery (fuel : Nat) (mem : ShmMem δ) (list : ShmList) (cmp : δ → Bool) : Option Nat :=
  if list.head = 0 then some 0 else queryFrom mem cmp list.head fuel list.head

/-- `shm_list_query_and_delete`, of which the walk is the one of `shm_list_query` -/
def shmListQueryAndDelete (fuel : Nat) (mem : ShmMem δ) (list : ShmList) (cmp : δ → Bool) :
    Option ((ShmMem δ × ShmList) × Nat) :=
  (shmListQuery fuel mem list cmp).map fun node =>
    if node = 0 then ((mem, list), 0)
    else if node = list.head then shmListLpop mem list
    else ((linkOut mem node, { list with num := list.num - 1 }), node)

/-- A call; the caller of a push has set the node's data. -/
inductive Call (δ : Type) where
  | lpush (node : Nat) (data : δ)
  | lpop
  | rpush (node : Nat) (data : δ)
  | rpop
  | delete (node : Nat)
  | queryAndDelete (cmp : δ → Bool)

def step (fuel : Nat) (s : ShmMem δ × ShmList) : Call δ → Option (ShmMem δ × ShmList)
  | .lpush node data => some (shmListLpush (setData s.1 node data) s.2 node)
  | .lpop => some (shmListLpop s.1 s.2).1
  | .rpush node data => some (shmListRpush (setData s.1 node data) s.2 node)
  | .rpop => some (shmListRpop s.1 s.2).1
  | .delete node => some (shmListDelete s.1 s.2 node).1
  | .queryAndDelete cmp => (shmListQueryAndDelete fuel s.1 s.2 cmp).map (·.1)

/-! ## The sequence -/

/-- What a call does to the sequence of the nodes and their data. -/
def edit (l : List (Nat × δ)) : Call δ → List (Nat × δ)
  | .lpush node data => (node, data) :: l
  | .lpop => l.tail
  | .rpush node data => l ++ [(node, data)]
  | .rpop => l.dropLast
  | .delete node => l.eraseP (·.1 = node)
  | .queryAndDelete cmp => l.eraseP fun e => cmp e.2

/-- A new node has an offset above 0 that is not in the list; a deleted one is in the list. -/
def Fresh (l : List (Nat × δ)) : Call δ → Prop
  | .lpush node _ => node ≠ 0 ∧ node ∉ l.map Prod.fst
  | .rpush node _ => node ≠ 0 ∧ node ∉ l.map Prod.fst
  | .delete node => node ∈ l.map Prod.fst
  | _ => True

/-- The links lead from the head through the sequence and back, forwards and backwards. -/
structure Order (s : ShmMem δ × ShmList) (l : List (Nat × δ)) : Prop where
  head : s.2.head = (l.map Prod.fst).head?.getD 0
  data : ∀ e ∈ l, (s.1 e.1).data = e.2
  forward : l ≠ [] → List.iterate (fun x => (s.1 x).next) s.2.head (l.length + 1) = l.map Prod.fst ++ [s.2.head]
  backward : l ≠ [] →
    List.iterate (fun x => (s.1 x).prev) s.2.head (l.length + 1) = (l.map Prod.fst ++ [s.2.head]).reverse

/-- The links of a list that is a sequence -/
structure Shows (s : ShmMem δ × ShmList) (l : List (Nat × δ)) : Prop where
  rings : Rings s.1 l
  pos : ∀ e ∈ l, e.1 ≠ 0
  head : s.2.head = (l.map Prod.fst).head?.getD 0

variable {s : ShmMem δ × ShmList} {mem : ShmMem δ} {list : ShmList} {l l₁ l₂ : List (Nat × δ)} {e : Nat × δ}
  {node fuel : Nat} {data : δ}

theorem Shows.order (h : Shows s l) : Order s l := by
  cases l with
  | nil => exact ⟨h.head, h.rings.data, fun hl => absurd rfl hl, fun hl => absurd rfl hl⟩
  | cons e l =>
    have hhead : s.2.head = e.1 := h.head
    have hring : Round s.1 (e.1 :: l.map Prod.fst) := h.rings.ring
    refine ⟨h.head, h.rings.data, fun _ => ?_, fun _ => ?_⟩
    · rw [hhead]
      simpa using hring.iterate_next
    · rw [hhead]
      simpa using hring.iterate_prev

theorem Shows.pos_cons (h : Shows s l) (hnode : node ≠ 0) : ∀ e ∈ (node, data) :: l, e.1 ≠ 0 := by
  intro e he
  rcases List.mem_cons.1 he with rfl | he
  · exact hnode
  · exact h.pos e he

theorem Shows.head_ne_zero (h : Shows s (e :: l)) : ¬s.2.head = 0 := by
  rw [h.head]
  exact h.pos e List.mem_cons_self

/-! ## The calls -/

theorem shows_first (n : Nat) (d : δ) (num : BitVec 32) (hn : n ≠ 0) :
    Shows (setNext (setPrev (setData mem n d) n n) n n, ⟨num, n⟩) [(n, d)] := by
  refine ⟨rings_singleton ?_ ?_ ?_, fun e he => ?_, rfl⟩
  · simp
  · simp
  · simp
  · rw [List.mem_singleton.1 he]
    exact hn

theorem Shows.lpush (h : Shows (mem, list) l) (hnode : node ≠ 0) (hn : node ∉ l.map Prod.fst) :
    Shows (shmListLpush (setData mem node data) list node) ((node, data) :: l) := by
  unfold shmListLpush
  cases l with
  | nil =>
    have hhead : list.head = 0 := h.head
    rw [if_pos hhead]
    exact shows_first node data 1 hnode
  | cons e l =>
    have hhead : list.head = e.1 := h.head
    rw [if_neg h.head_ne_zero, hhead]
    have hne : e.1 ≠ node := fun he => hn (by simp [he])
    have htail : (mem e.1).prev ≠ node := by
      rw [Rings.prev_head h.rings]
      exact fun he => hn (he ▸ List.mem_map_of_mem (List.getLast_mem _))
    refine ⟨Rings.insert h.rings hn (fun x => ?_) (fun x => ?_) fun x => ?_, h.pos_cons hnode, rfl⟩
    · simp
    · simp
    · simp

theorem Shows.rpush (h : Shows (mem, list) l) (hnode : node ≠ 0) (hn : node ∉ l.map Prod.fst) :
    Shows (shmListRpush (setData mem node data) list node) (l ++ [(node, data)]) := by
  unfold shmListRpush
  cases l with
  | nil =>
    have hhead : list.head = 0 := h.head
    rw [if_pos hhead]
    exact shows_first node data 1 hnode
  | cons e l =>
    have hhead : list.head = e.1 := h.head
    rw [if_neg h.head_ne_zero, hhead]
    have hne : e.1 ≠ node := fun he => hn (by simp [he])
    have htail : (mem e.1).prev ≠ node := by
      rw [Rings.prev_head h.rings]
      exact fun he => hn (he ▸ List.mem_map_of_mem (List.getLast_mem _))
    refine ⟨(Rings.insert h.rings hn (fun x => ?_) (fun x => ?_) fun x => ?_).concat, fun e' he' => ?_, ?_⟩
    · simp
      grind
    · simp
    · simp
    · exact h.pos_cons hnode e' ((List.perm_append_singleton ..).mem_iff.1 he')
    · rfl

theorem Shows.lpop (h : Shows (mem, list) l) :
    Shows (shmListLpop mem list).1 l.tail ∧ (shmListLpop mem list).2 = (l.map Prod.fst).head?.getD 0 := by
  unfold shmListLpop
  cases l with
  | nil =>
    have hhead : list.head = 0 := h.head
    rw [if_pos hhead]
    exact ⟨h, rfl⟩
  | cons e l =>
    have hhead : list.head = e.1 := h.head
    have hrings : Rings mem (e :: l) := h.rings
    have hself := hrings.prev_eq_self
    rw [if_neg h.head_ne_zero, hhead]
    by_cases hl : l = []
    · simp only [hself.2 hl, if_true]
      subst hl
      exact ⟨⟨rings_nil, fun _ he => (List.not_mem_nil he).elim, rfl⟩, rfl⟩
    · have hne : ¬e.1 = (mem e.1).prev := fun he => hl (hself.1 he.symm)
      have hnext := (hrings.neighbours hl).2
      simp only [if_neg hne]
      refine ⟨⟨hrings.remove hl (fun x => ?_) (fun x => ?_) fun x => ?_, ?_, ?_⟩, rfl⟩
      · simp
      · simp
      · simp
      · exact fun e' he' => h.pos e' (List.mem_cons_of_mem e he')
      · rw [List.tail_cons, List.head?_map, List.head?_eq_some_head hl]
        exact hnext

theorem Shows.rpop (h : Shows (mem, list) l) :
    Shows (shmListRpop mem list).1 l.dropLast ∧ (shmListRpop mem list).2 = (l.map Prod.fst).getLast?.getD 0 := by
  unfold shmListRpop
  rcases List.eq_nil_or_concat l with rfl | ⟨l, e, hl⟩
  · have hhead : list.head = 0 := h.head
    rw [if_pos hhead]
    exact ⟨h, rfl⟩
  rw [List.concat_eq_append] at hl
  subst hl
  have hring : Rings mem (e :: l) := @Rings.append_comm _ _ _ l [e] h.rings
  rw [List.dropLast_concat, List.map_append, List.map_singleton, List.getLast?_concat]
  cases l with
  | nil =>
    have hhead : list.head = e.1 := h.head
    have hself : (mem e.1).prev = e.1 := hring.prev_eq_self.2 rfl
    rw [if_neg h.head_ne_zero, hhead]
    simp only [hself, if_true]
    exact ⟨⟨rings_nil, fun _ he => (List.not_mem_nil he).elim, rfl⟩, rfl⟩
  | cons e' l =>
    have hhead : list.head = e'.1 := h.head
    have hprev : (mem e'.1).prev = e.1 := by
      rw [Rings.prev_head (e := e') (l := l ++ [e]) h.rings]
      simp
    have hnext : (mem e.1).next = e'.1 := (hring.neighbours (List.cons_ne_nil e' l)).2
    have hne : ¬e'.1 = e.1 := by
      have hnodup := hring.nodup
      rw [List.map_cons, List.map_cons, List.nodup_cons] at hnodup
      exact fun he => hnodup.1 (he ▸ List.mem_cons_self)
    rw [if_neg (Shows.head_ne_zero (e := e') (l := l ++ [e]) h), hhead]
    simp only [hprev, if_neg hne]
    refine ⟨⟨hring.remove (List.cons_ne_nil e' l) (fun x => ?_) (fun x => ?_) fun x => ?_, ?_, rfl⟩, rfl⟩
    · simp [hnext]
    · simp [hnext]
    · simp
    · exact fun x hx => h.pos x (List.mem_append_left [e] hx)

/-- A node that is not the first goes out from between its neighbours. -/
theorem Shows.linkOut (h : Shows (mem, list) (l₁ ++ e :: l₂)) (hl : l₁ ≠ []) (num : BitVec 32) :
    Shows (linkOut mem e.1, ⟨num, list.head⟩) (l₁ ++ l₂) := by
  refine ⟨h.rings.unlink (fun h => hl (List.append_eq_nil_iff.1 h).1) (fun x => ?_) (fun x => ?_) fun x => ?_, ?_, ?_⟩
  · simp [ShmList.linkOut]
  · simp [ShmList.linkOut]
  · simp [ShmList.linkOut]
  · refine fun x hx => h.pos x ?_
    rw [List.mem_append] at hx ⊢
    exact hx.imp_right (List.mem_cons_of_mem e)
  · obtain ⟨e', l₁, rfl⟩ := List.exists_cons_of_ne_nil hl
    exact h.head

/-- A node in the list is the first one, the last one, or between two others. -/
theorem Shows.delete (h : Shows (mem, list) (l₁ ++ e :: l₂)) :
    Shows (shmListDelete mem list e.1).1 (l₁ ++ l₂) ∧ (shmListDelete mem list e.1).2 = e.1 := by
  unfold shmListDelete
  cases l₁ with
  | nil =>
    have hhead : list.head = e.1 := h.head
    rw [if_pos hhead.symm]
    exact h.lpop
  | cons e' l₁ =>
    have hhead : list.head = e'.1 := h.head
    have hnodup := h.rings.nodup
    have hne : ¬e.1 = list.head := by
      rw [List.cons_append, List.map_cons, List.nodup_cons] at hnodup
      rw [hhead]
      exact fun he => hnodup.1 (by simp [← he])
    rw [if_neg hne, hhead]
    have hprev : (mem e'.1).prev = ((e' :: l₁ ++ e :: l₂).getLast (by simp)).1 := Rings.prev_head h.rings
    cases l₂ with
    | nil =>
      rw [List.getLast_append_of_ne_nil _ (List.cons_ne_nil e []), List.getLast_singleton] at hprev
      have hpop := h.rpop
      rw [List.map_append, List.map_singleton, List.getLast?_concat, List.dropLast_concat] at hpop
      rw [if_pos hprev.symm, List.append_nil]
      exact hpop
    | cons e'' l₂ =>
      have hne : ¬e.1 = (mem e'.1).prev := by
        rw [hprev, List.getLast_append_of_ne_nil _ (List.cons_ne_nil e _), List.getLast_cons (List.cons_ne_nil e'' l₂)]
        rw [List.map_append, List.map_cons] at hnodup
        intro he
        refine (List.nodup_cons.1 hnodup.of_append_right).1 ?_
        rw [he]
        exact List.mem_map_of_mem (List.getLast_mem _)
      rw [if_neg hne]
      exact ⟨h.linkOut (List.cons_ne_nil e' l₁) list.num, rfl⟩

theorem queryFrom_spec {cmp : δ → Bool} {head : Nat} : ∀ {l : List (Nat × δ)} {e : Nat × δ} {fuel : Nat},
    ((e :: l).map Prod.fst).IsChain (Linked mem) → (∀ x ∈ e :: l, (mem x.1).data = x.2) →
    (mem ((e :: l).getLast (List.cons_ne_nil e l)).1).next = head → head ∉ l.map Prod.fst → l.length < fuel →
    queryFrom mem cmp head fuel e.1 = some ((((e :: l).find? fun x => cmp x.2).map Prod.fst).getD 0)
  | l, e, fuel + 1, hchain, hdata, hlast, hhead, hfuel => by
    rw [queryFrom, hdata e List.mem_cons_self]
    by_cases hcmp : cmp e.2 = true
    · rw [if_pos hcmp, List.find?_cons_of_pos (a := e) (p := fun x : Nat × δ => cmp x.2) hcmp]
      rfl
    rw [if_neg hcmp, List.find?_cons_of_neg (a := e) (p := fun x : Nat × δ => cmp x.2) hcmp]
    cases l with
    | nil =>
      have hlast : (mem e.1).next = head := hlast
      rw [if_pos hlast]
      rfl
    | cons e' l =>
      obtain ⟨hlink, hchain⟩ := List.isChain_cons_cons.1 hchain
      have hne : ¬e'.1 = head := fun he => hhead (by simp [he])
      rw [hlink.1, if_neg hne]
      exact queryFrom_spec hchain (fun x hx => hdata x (List.mem_cons_of_mem e hx)) hlast
        (fun hx => hhead (List.mem_cons_of_mem _ hx)) (Nat.lt_of_succ_lt_succ hfuel)

/-- `shm_list_query` answers the first node that compares equal. -/
theorem Shows.query (h : Shows (mem, list) l) (cmp : δ → Bool) (hfuel : l.length ≤ fuel) :
    shmListQuery fuel mem list cmp = some (((l.find? fun e => cmp e.2).map Prod.fst).getD 0) := by
  unfold shmListQuery
  cases l with
  | nil =>
    have hhead : list.head = 0 := h.head
    rw [if_pos hhead]
    rfl
  | cons e l =>
    have hhead : list.head = e.1 := h.head
    rw [if_neg h.head_ne_zero, hhead]
    have hlast := h.rings.ring.next_last (by simp)
    rw [List.getLast_map] at hlast
    exact queryFrom_spec h.rings.chain h.rings.data hlast (List.nodup_cons.1 h.rings.nodup).1 hfuel

theorem Shows.queryAndDelete (h : Shows (mem, list) l) (cmp : δ → Bool) (hfuel : l.length ≤ fuel) :
    ∃ r, shmListQueryAndDelete fuel mem list cmp = some r ∧ Shows r.1 (l.eraseP fun e => cmp e.2) ∧
      r.2 = ((l.find? fun e => cmp e.2).map Prod.fst).getD 0 := by
  unfold shmListQueryAndDelete
  rw [h.query cmp hfuel]
  refine ⟨_, rfl, ?_⟩
  cases hfind : l.find? (fun e => cmp e.2) with
  | none =>
    rw [List.eraseP_of_forall_not fun e he => List.find?_eq_none.1 hfind e he]
    exact ⟨h, rfl⟩
  | some e =>
    obtain ⟨l₁, l₂, rfl, herase⟩ := eraseP_of_find? hfind
    have hpos : ¬e.1 = 0 := h.pos e (by simp)
    rw [herase, Option.map_some, Option.getD_some]
    beta_reduce
    rw [if_neg hpos]
    cases l₁ with
    | nil =>
      have hhead : list.head = e.1 := h.head
      rw [if_pos hhead.symm]
      exact h.lpop
    | cons e' l₁ =>
      have hhead : list.head = e'.1 := h.head
      have hne : ¬e.1 = list.head := by
        have hnodup := h.rings.nodup
        rw [List.cons_append, List.map_cons, List.nodup_cons] at hnodup
        rw [hhead]
        exact fun he => hnodup.1 (by simp [← he])
      rw [if_neg hne]
      exact ⟨h.linkOut (List.cons_ne_nil e' l₁) _, rfl⟩

theorem Shows.step (h : Shows s l) {call : Call δ} (hfresh : Fresh l call) (hfuel : l.length ≤ fuel) :
    ∃ s', step fuel s call = some s' ∧ Shows s' (edit l call) := by
  cases call with
  | lpush node data => exact ⟨_, rfl, h.lpush hfresh.1 hfresh.2⟩
  | lpop => exact ⟨_, rfl, h.lpop.1⟩
  | rpush node data => exact ⟨_, rfl, h.rpush hfresh.1 hfresh.2⟩
  | rpop => exact ⟨_, rfl, h.rpop.1⟩
  | delete node =>
    obtain ⟨e, hfind⟩ : ∃ e, l.find? (fun e => decide (e.1 = node)) = some e := by
      obtain ⟨e, he, rfl⟩ := List.mem_map.1 hfresh
      exact Option.isSome_iff_exists.1 (List.find?_isSome.2 ⟨e, he, decide_eq_true rfl⟩)
    obtain rfl : e.1 = node := by simpa using List.find?_some hfind
    obtain ⟨l₁, l₂, rfl, herase⟩ := eraseP_of_find? hfind
    exact ⟨_, rfl, by rw [edit, herase]; exact h.delete.1⟩
  | queryAndDelete cmp =>
    obtain ⟨r, hr, hshows, -⟩ := h.queryAndDelete cmp hfuel
    exact ⟨r.1, by rw [ShmList.step, hr]; rfl, hshows⟩

/-! ## Beside other lists

A call writes to the nodes of its list only, so another list in the memory stays what it was.
-/

theorem Shows.congr {mem' : ShmMem δ} (h : Shows (mem, list) l) (hmem : ∀ x ∈ l.map Prod.fst, mem' x = mem x) :
    Shows (mem', list) l := ⟨h.rings.congr hmem, h.pos, h.head⟩

theorem lpush_frame (h : Shows (mem, list) l) {x : Nat} (hx : x ∉ l.map Prod.fst) (hne : x ≠ node) :
    (shmListLpush (setData mem node data) list node).1 x = mem x := by
  unfold shmListLpush
  cases l with
  | nil =>
    have hhead : list.head = 0 := h.head
    rw [if_pos hhead]
    show setNext (setPrev (setData mem node data) node node) node node x = mem x
    rw [setNext_of_ne _ _ hne, setPrev_of_ne _ _ hne, setData_of_ne _ _ hne]
  | cons e l =>
    have hhead : list.head = e.1 := h.head
    have he : e.1 ∈ (e :: l).map Prod.fst := List.mem_cons_self
    have hxe : x ≠ e.1 := fun heq => hx (heq ▸ he)
    have hxp : x ≠ (mem e.1).prev := fun heq => hx (heq ▸ (h.rings.links_mem he).1)
    rw [if_neg h.head_ne_zero, hhead]
    show setNext (setPrev (setNext (setPrev (setData mem node data) node _) node e.1) e.1 node) _ node x = mem x
    rw [setData_prev, setNext_of_ne _ _ hxp, setPrev_of_ne _ _ hxe, setNext_of_ne _ _ hne, setPrev_of_ne _ _ hne,
      setData_of_ne _ _ hne]

theorem lpop_frame (h : Shows (mem, list) l) {x : Nat} (hx : x ∉ l.map Prod.fst) : (shmListLpop mem list).1.1 x = mem x := by
  unfold shmListLpop
  cases l with
  | nil =>
    have hhead : list.head = 0 := h.head
    rw [if_pos hhead]
  | cons e l =>
    have hhead : list.head = e.1 := h.head
    have hlinks := h.rings.links_mem (x := e.1) List.mem_cons_self
    have hxp : x ≠ (mem e.1).prev := fun heq => hx (heq ▸ hlinks.1)
    have hxn : x ≠ (mem e.1).next := fun heq => hx (heq ▸ hlinks.2)
    rw [if_neg h.head_ne_zero, hhead]
    by_cases hself : e.1 = (mem e.1).prev
    · simp only [if_pos hself]
    · simp only [if_neg hself]
      rw [setPrev_of_ne _ _ hxn, setNext_of_ne _ _ hxp]

theorem linkOut_frame (h : Rings mem l) (hnode : node ∈ l.map Prod.fst) {x : Nat} (hx : x ∉ l.map Prod.fst) :
    ShmList.linkOut mem node x = mem x := by
  have hlinks := h.links_mem hnode
  have hxp : x ≠ (mem node).prev := fun heq => hx (heq ▸ hlinks.1)
  have hxn : x ≠ (mem node).next := fun heq => hx (heq ▸ hlinks.2)
  unfold ShmList.linkOut
  rw [setPrev_of_ne _ _ hxn, setNext_of_ne _ _ hxp]

theorem shmListLpop_data (x : Nat) : ((shmListLpop mem list).1.1 x).data = (mem x).data := by
  unfold shmListLpop
  split
  · rfl
  · dsimp only
    split
    · rfl
    · simp

theorem queryAndDelete_frame (h : Shows (mem, list) l) {cmp : δ → Bool} (hfuel : l.length ≤ fuel)
    {r : (ShmMem δ × ShmList) × Nat} (hr : shmListQueryAndDelete fuel mem list cmp = some r) :
    (∀ x, (r.1.1 x).data = (mem x).data) ∧ ∀ x ∉ l.map Prod.fst, r.1.1 x = mem x := by
  unfold shmListQueryAndDelete at hr
  rw [h.query cmp hfuel, Option.map_some, Option.some_inj] at hr
  subst hr
  by_cases hzero : ((l.find? fun e => cmp e.2).map Prod.fst).getD 0 = 0
  · rw [if_pos hzero]
    exact ⟨fun x => rfl, fun x hx => rfl⟩
  rw [if_neg hzero]
  split
  · exact ⟨shmListLpop_data, fun x hx => lpop_frame h hx⟩
  · have hmem : ((l.find? fun e => cmp e.2).map Prod.fst).getD 0 ∈ l.map Prod.fst := by
      cases hfind : l.find? (fun e => cmp e.2) with
      | none =>
        rw [hfind] at hzero
        exact absurd rfl hzero
      | some e => exact List.mem_map_of_mem (List.mem_of_find?_eq_some hfind)
    exact ⟨fun x => by simp [ShmList.linkOut], fun x hx => linkOut_frame h.rings hmem hx⟩

/-! ## The count -/

/-- A node that is deleted is the first or the last. -/
def AtEnd (l : List (Nat × δ)) : Call δ → Prop
  | .delete node => some node = (l.map Prod.fst).head? ∨ some node = (l.map Prod.fst).getLast?
  | _ => True

theorem lpush_num (h : Shows (mem, list) l) (hnum : list.num = BitVec.ofNat 32 l.length) :
    (shmListLpush mem list node).2.num = BitVec.ofNat 32 (l.length + 1) := by
  unfold shmListLpush
  cases l with
  | nil =>
    have hhead : list.head = 0 := h.head
    rw [if_pos hhead]
    rfl
  | cons e l =>
    rw [if_neg h.head_ne_zero]
    exact count_succ hnum

theorem rpush_num (h : Shows (mem, list) l) (hnum : list.num = BitVec.ofNat 32 l.length) :
    (shmListRpush mem list node).2.num = BitVec.ofNat 32 (l.length + 1) := by
  unfold shmListRpush
  cases l with
  | nil =>
    have hhead : list.head = 0 := h.head
    rw [if_pos hhead]
    rfl
  | cons e l =>
    rw [if_neg h.head_ne_zero]
    exact count_succ hnum

theorem lpop_num (h : Shows (mem, list) l) (hnum : list.num = BitVec.ofNat 32 l.length) :
    (shmListLpop mem list).1.2.num = BitVec.ofNat 32 (l.length - 1) := by
  unfold shmListLpop
  cases l with
  | nil =>
    have hhead : list.head = 0 := h.head
    rw [if_pos hhead]
    exact hnum
  | cons e l =>
    have hhead : list.head = e.1 := h.head
    have hself : (mem e.1).prev = e.1 ↔ l = [] := h.rings.prev_eq_self
    rw [if_neg h.head_ne_zero, hhead]
    by_cases hl : l = []
    · subst hl
      simp [hself.2 rfl]
    · have hne : ¬e.1 = (mem e.1).prev := fun he => hl (hself.1 he.symm)
      simp only [if_neg hne]
      exact count_pred hnum

theorem rpop_num (h : Shows (mem, list) l) (hnum : list.num = BitVec.ofNat 32 l.length) :
    (shmListRpop mem list).1.2.num = BitVec.ofNat 32 (l.length - 1) := by
  unfold shmListRpop
  cases l with
  | nil =>
    have hhead : list.head = 0 := h.head
    rw [if_pos hhead]
    exact hnum
  | cons e l =>
    have hhead : list.head = e.1 := h.head
    have hself : (mem e.1).prev = e.1 ↔ l = [] := h.rings.prev_eq_self
    rw [if_neg h.head_ne_zero, hhead]
    by_cases hl : l = []
    · subst hl
      simp [hself.2 rfl]
    · have hne : ¬e.1 = (mem e.1).prev := fun he => hl (hself.1 he.symm)
      simp only [if_neg hne]
      exact count_pred hnum

/-- A deletion at an end counts, one in the middle does not. -/
theorem delete_num (h : Shows (mem, list) l) (hnum : list.num = BitVec.ofNat 32 l.length) (hnode : node ∈ l.map Prod.fst) :
    (AtEnd l (.delete node : Call δ) → (shmListDelete mem list node).1.2.num = BitVec.ofNat 32 (l.length - 1)) ∧
      (¬AtEnd l (.delete node : Call δ) → (shmListDelete mem list node).1.2.num = list.num) := by
  unfold shmListDelete
  cases l with
  | nil => exact absurd hnode List.not_mem_nil
  | cons e l =>
    have hhead : list.head = e.1 := h.head
    have hprev : (mem e.1).prev = ((e :: l).getLast (List.cons_ne_nil e l)).1 := Rings.prev_head h.rings
    have hlast : ((e :: l).map Prod.fst).getLast? = some (mem e.1).prev := by
      rw [hprev, List.getLast?_map, List.getLast?_eq_some_getLast (List.cons_ne_nil e l)]
      rfl
    rw [hhead]
    by_cases hfirst : node = e.1
    · rw [if_pos hfirst]
      exact ⟨fun _ => lpop_num h hnum, fun hend => absurd (.inl (congrArg some hfirst)) hend⟩
    rw [if_neg hfirst]
    by_cases hl : node = (mem e.1).prev
    · rw [if_pos hl]
      exact ⟨fun _ => rpop_num h hnum, fun hend => absurd (.inr (by rw [hlast, hl])) hend⟩
    rw [if_neg hl]
    refine ⟨fun hend => ?_, fun _ => rfl⟩
    rcases hend with hend | hend
    · exact absurd (Option.some.inj hend) hfirst
    · rw [hlast] at hend
      exact absurd (Option.some.inj hend) hl

theorem queryAndDelete_num (h : Shows (mem, list) l) (hnum : list.num = BitVec.ofNat 32 l.length) (cmp : δ → Bool)
    (hfuel : l.length ≤ fuel) {r : (ShmMem δ × ShmList) × Nat} (hr : shmListQueryAndDelete fuel mem list cmp = some r) :
    r.1.2.num = BitVec.ofNat 32 (l.eraseP fun e => cmp e.2).length := by
  unfold shmListQueryAndDelete at hr
  rw [h.query cmp hfuel, Option.map_some] at hr
  cases hfind : l.find? (fun e => cmp e.2) with
  | none =>
    rw [hfind] at hr
    cases hr
    rw [List.eraseP_of_forall_not fun e he => List.find?_eq_none.1 hfind e he]
    exact hnum
  | some e =>
    have hmem : e ∈ l := List.mem_of_find?_eq_some hfind
    rw [List.length_eraseP_of_mem hmem (List.find?_some (p := fun e : Nat × δ => cmp e.2) hfind)]
    rw [hfind, Option.map_some, Option.getD_some] at hr
    rw [if_neg (h.pos e hmem)] at hr
    split at hr
    · cases hr
      exact lpop_num h hnum
    · cases hr
      obtain ⟨e', l, rfl⟩ := List.exists_cons_of_ne_nil (List.ne_nil_of_mem hmem)
      exact count_pred hnum

/-- What a call leaves as the count -/
theorem Shows.step_num (h : Shows s l) (hnum : s.2.num = BitVec.ofNat 32 l.length) {call : Call δ}
    (hfresh : Fresh l call) (hfuel : l.length ≤ fuel) {s' : ShmMem δ × ShmList} (hstep : ShmList.step fuel s call = some s') :
    (AtEnd l call → s'.2.num = BitVec.ofNat 32 (edit l call).length) ∧ (¬AtEnd l call → s'.2.num = s.2.num) := by
  cases call with
  | lpush node data =>
    cases hstep
    have hdata : Shows (setData s.1 node data, s.2) l := by
      refine ⟨⟨h.rings.nodup, h.rings.ring.congr fun x _ => ?_, fun e he => ?_⟩, h.pos, h.head⟩
      · simp
      · have hne : e.1 ≠ node := fun hne => hfresh.2 (hne ▸ List.mem_map_of_mem he)
        simpa [hne] using h.rings.data e he
    exact ⟨fun _ => lpush_num hdata hnum, fun hend => absurd trivial hend⟩
  | lpop =>
    cases hstep
    refine ⟨fun _ => ?_, fun hend => absurd trivial hend⟩
    rw [edit, List.length_tail]
    exact lpop_num h hnum
  | rpush node data =>
    cases hstep
    have hdata : Shows (setData s.1 node data, s.2) l := by
      refine ⟨⟨h.rings.nodup, h.rings.ring.congr fun x _ => ?_, fun e he => ?_⟩, h.pos, h.head⟩
      · simp
      · have hne : e.1 ≠ node := fun hne => hfresh.2 (hne ▸ List.mem_map_of_mem he)
        simpa [hne] using h.rings.data e he
    refine ⟨fun _ => ?_, fun hend => absurd trivial hend⟩
    rw [edit, List.length_append]
    exact rpush_num hdata hnum
  | rpop =>
    cases hstep
    refine ⟨fun _ => ?_, fun hend => absurd trivial hend⟩
    rw [edit, List.length_dropLast]
    exact rpop_num h hnum
  | delete node =>
    cases hstep
    obtain ⟨e, he, hnode⟩ := List.mem_map.1 hfresh
    rw [edit, List.length_eraseP_of_mem he (by simpa using hnode)]
    exact delete_num h hnum hfresh
  | queryAndDelete cmp =>
    refine ⟨fun _ => ?_, fun hend => absurd trivial hend⟩
    obtain ⟨r, hr, rfl⟩ := Option.map_eq_some_iff.1 hstep
    exact queryAndDelete_num h hnum cmp hfuel hr

/-! ## Runs -/

/-- The list is the sequence, and the count its length. -/
structure Refines (s : ShmMem δ × ShmList) (l : List (Nat × δ)) : Prop extends Order s l where
  num : s.2.num.toInt = l.length

/-- What a call on a list needs for the count to be right after it. -/
def Counts (l : List (Nat × δ)) (call : Call δ) : Prop := AtEnd l call ∧ (edit l call).length < 2 ^ 31

theorem length_edit_le (l : List (Nat × δ)) (call : Call δ) : (edit l call).length ≤ l.length + 1 := by
  cases call with
  | lpush node data => exact Nat.le_refl _
  | rpush node data => exact Nat.le_of_eq List.length_append
  | lpop => rw [edit, List.length_tail]; omega
  | rpop => rw [edit, List.length_dropLast]; omega
  | delete node => exact (List.length_eraseP_le).trans (Nat.le_succ _)
  | queryAndDelete cmp => exact (List.length_eraseP_le).trans (Nat.le_succ _)

/-- The walks go around lists that are no longer than the run. -/
theorem guarded_short : ∀ {calls : List (Call δ)} {l : List (Nat × δ)}, calls.length + l.length ≤ fuel →
    Guarded edit Fresh l calls → Guarded edit (fun l call => Fresh l call ∧ l.length ≤ fuel) l calls
  | [], _, _, _ => trivial
  | call :: calls, l, hfuel, ⟨hfresh, hrest⟩ => by
    have hlen := length_edit_le l call
    rw [List.length_cons] at hfuel
    exact ⟨⟨hfresh, by omega⟩, guarded_short (by omega) hrest⟩

/-- The links are right after every call. -/
theorem run_order (mem : ShmMem δ) {calls : List (Call δ)} (hfuel : calls.length ≤ fuel)
    (hfresh : Guarded edit Fresh [] calls) :
    ∃ s, calls.foldlM (step fuel) (mem, ⟨0, 0⟩) = some s ∧ Order s (calls.foldl edit []) := by
  have hinit : Shows (mem, ⟨0, 0⟩) [] := ⟨rings_nil, fun _ he => (List.not_mem_nil he).elim, rfl⟩
  have hstep : ∀ (s : ShmMem δ × ShmList) (l : List (Nat × δ)) (call : Call δ), Shows s l →
      Fresh l call ∧ l.length ≤ fuel → ∃ s', step fuel s call = some s' ∧ Shows s' (edit l call) :=
    fun _ _ _ h hok => h.step hok.1 hok.2
  obtain ⟨s, hrun, hs⟩ := simulate hstep calls _ _ hinit (guarded_short (by simpa using hfuel) hfresh)
  exact ⟨s, hrun, hs.order⟩

/-- The list refines the sequence after every call just where no call deletes a node from between
two others, and the list stays shorter than 2^31. -/
theorem shm_list_refines_iff (mem : ShmMem δ) {calls : List (Call δ)} (hfuel : calls.length ≤ fuel)
    (hfresh : Guarded edit Fresh [] calls) :
    (∀ before, before <+: calls →
      ∃ s, before.foldlM (step fuel) (mem, ⟨0, 0⟩) = some s ∧ Refines s (before.foldl edit [])) ↔
      Guarded edit Counts [] calls := by
  refine simulate_iff (R := fun s l => Shows s l ∧ s.2.num = BitVec.ofNat 32 l.length ∧ l.length < 2 ^ 31)
    (fun s l h => ⟨h.1.order, by rw [h.2.1, toInt_count h.2.2]⟩) ?_ calls
    ⟨⟨rings_nil, fun _ he => (List.not_mem_nil he).elim, rfl⟩, rfl, by simp⟩
    (guarded_short (by simpa using hfuel) hfresh)
  rintro s l call ⟨h, hnum, hlen⟩ ⟨hfresh, hfuel⟩
  obtain ⟨s', hstep, hs'⟩ := h.step hfresh hfuel
  obtain ⟨hend, hmiddle⟩ := h.step_num hnum hfresh hfuel hstep
  refine ⟨s', hstep, fun href => ?_, fun hok => ⟨hs', hend hok.1, hok.2⟩⟩
  have hright := href.num
  by_cases hat : AtEnd l call
  · refine ⟨hat, ?_⟩
    by_contra hlong
    have hle := length_edit_le l call
    have hexact : (edit l call).length = 2 ^ 31 := by omega
    rw [hend hat, hexact] at hright
    exact absurd hright (by decide)
  · rw [hmiddle hat, hnum, toInt_count hlen] at hright
    cases call with
    | delete node =>
      obtain ⟨e, he, hnode⟩ := List.mem_map.1 hfresh
      have hpos : 0 < l.length := List.length_pos_of_mem he
      rw [edit, List.length_eraseP_of_mem he (by simpa using hnode)] at hright
      omega
    | _ => exact absurd trivial hat

theorem shm_list_refines_iff_three :
    (∀ before, before <+: [Call.lpush 8 10, .rpush 16 20, .lpush 24 30] →
      ∃ s, before.foldlM (step 3) ((fun _ => ⟨0, 0, 0⟩ : ShmMem Nat), ⟨0, 0⟩) = some s ∧
        Refines s (before.foldl edit [])) ↔ Guarded edit Counts [] [Call.lpush 8 10, .rpush 16 20, .lpush 24 30] :=
  shm_list_refines_iff (fun _ => ⟨0, 0, 0⟩) (Nat.le_refl 3) (by simp [Guarded, Fresh, edit])

/-- Of three nodes the one in the middle is deleted, and the count stays at 3. -/
theorem count_stays : ∃ s, [Call.rpush 8 10, .rpush 16 20, .rpush 24 30, .delete 16].foldlM (step 4)
      ((fun _ => ⟨0, 0, 0⟩ : ShmMem Nat), ⟨0, 0⟩) = some s ∧
    Guarded edit Fresh [] [Call.rpush 8 10, .rpush 16 20, .rpush 24 30, .delete 16] ∧ s.2.num = 3 ∧
    [Call.rpush 8 10, .rpush 16 20, .rpush 24 30, .delete 16].foldl edit [] = [(8, 10), (24, 30)] ∧
    ¬Refines s [(8, 10), (24, 30)] := by
  refine ⟨_, rfl, by simp [Guarded, Fresh, edit], rfl, by simp [edit], fun h => ?_⟩
  exact absurd h.num (by decide)

end ShmList

end BeehiveIm.Core
