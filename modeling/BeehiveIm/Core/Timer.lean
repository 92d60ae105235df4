/-
The timer (`timer.c`): a heap of tasks in an array whose root at 0 has the one child 1. A
task is its address; the memory of the tasks is a record of two functions, of which `idx`
is what the operations write back. Left out: the lock, which every operation holds
throughout, and what a task runs.

Runs of the timer against the set of the tasks started and not yet stopped or popped. No call
writes back the index of a task that another one displaces upwards or that a pop moves, and a
stop that fills the place of its task does not look at the parent: the conditions below are
that no such task is there.
-/
import BeehiveIm.Lib.PtrTree
import BeehiveIm.Lib.Heap
import BeehiveIm.Lib.Run
import Mathlib.Data.Finset.Basic

namespace BeehiveIm.Core

open BeehiveIm.Lib

/-- `timer_cntx_t`, with `idx` and `ttl` of the tasks (`timer_task_t`). The entries of `e` from
`len` on are what earlier operations left there. -/
structure Timer where
  len : Nat
  cap : Nat
  e : Nat → Ptr
  idx : Ptr → Nat
  ttl : Ptr → BitVec 64

namespace Timer

/-- `TIMER_CAP` -/
def timerCap : Nat := 128

/-- `timer_cntx_init`; a task that was never started has index 0 (`calloc`). -/
def timerCntxInit : Timer := ⟨0, timerCap, fun _ => 0, fun _ => 0, fun _ => 0⟩

/-- `timer_item_cmp_cb`: the difference wraps. -/
def cmp (T : Timer) (item1 item2 : Ptr) : Int := (T.ttl item1 - T.ttl item2).toInt

/-- `ctx->e[idx] = task` -/
def put (T : Timer) (idx : Nat) (task : Ptr) : Timer := { T with e := Function.update T.e idx task }

/-- `task->idx = idx` -/
def setIdx (T : Timer) (task : Ptr) (idx : Nat) : Timer := { T with idx := Function.update T.idx task idx }

/-- The loop of `timer_task_start`, and the place it ends at. -/
def startLoop (task : Ptr) : Nat → Timer → Nat → Option (Timer × Nat)
  | 0, _, _ => none
  | fuel + 1, T, idx =>
    let parent := idx / 2
    if idx ≠ parent ∧ T.cmp (T.e parent) task > 0 then startLoop task fuel (T.put idx (T.e parent)) parent
    else some (T, idx)

/-- `timer_task_start`, and whether it answers 0; `mem` is whether a full array can be grown. -/
def timerTaskStart (T : Timer) (task : Ptr) (mem : Bool) : Option (Timer × Bool) :=
  if T.len ≥ T.cap ∧ mem = false then some (T, false)
  else
    let T := if T.len ≥ T.cap then { T with cap := 2 * T.cap } else T
    if T.len = 0 then some (({ T.put 0 task with len := 1 }).setIdx task 0, true)
    else
      match startLoop task (T.len + 1) T T.len with
      | none => none
      | some (T, idx) => some ({ (T.put idx task).setIdx task idx with len := T.len + 1 }, true)

/-- The child to compare with: `left`, or the earlier of the two. -/
def minChild (T : Timer) (left right : Nat) : Nat :=
  if right < T.len then if T.cmp (T.e left) (T.e right) ≤ 0 then left else right else left

/-- The loop of `timer_task_pop`. -/
def popLoop (task : Ptr) : Nat → Timer → Nat → Nat → Nat → Option Timer
  | 0, _, _, _, _ => none
  | fuel + 1, T, idx, left, right =>
    if left ≥ T.len then some (T.put idx task)
    else
      let min := T.minChild left right
      if T.cmp (T.e min) task ≥ 0 then some (T.put idx task)
      else popLoop task fuel (T.put idx (T.e min)) min (2 * min) (2 * min + 1)

/-- `timer_task_pop` -/
def timerTaskPop (T : Timer) : Option (Timer × Option Ptr) :=
  if T.len = 0 then some (T, none)
  else
    let item := T.e 0
    let T := { T with len := T.len - 1 }
    match popLoop (T.e T.len) (T.len + 1) T 0 1 2 with
    | none => none
    | some T => some (T, some item)

/-- The loop of `timer_task_stop`; `task` is the one that is taken out. -/
def stopLoop (task item : Ptr) : Nat → Timer → Nat → Nat → Nat → Option Timer
  | 0, _, _, _, _ => none
  | fuel + 1, T, idx, left, right =>
    -- at a leaf it is the index of the task taken out that is written
    if left ≥ T.len then some ((T.put idx item).setIdx task idx)
    else
      let min := T.minChild left right
      if T.cmp (T.e min) item ≥ 0 then some ((T.put idx item).setIdx item idx)
      else stopLoop task item fuel ((T.put idx (T.e min)).setIdx (T.e min) idx) min (2 * min) (2 * min + 1)

/-- `timer_task_stop`, and whether it answers 0. -/
def timerTaskStop (T : Timer) (task : Ptr) : Option (Timer × Bool) :=
  if T.idx task ≥ T.len then some (T, false)
  else if task ≠ T.e (T.idx task) then some (T, false)
  else
    let idx := T.idx task
    let left := if idx = 0 then 1 else 2 * idx
    let right := if idx = 0 then 2 else 2 * idx + 1
    let T := { T with len := T.len - 1 }
    match stopLoop task (T.e T.len) (T.len + 1) T idx left right with
    | none => none
    | some T => some (T, true)

/-- The calls on a timer. Before a task is started its expiry is set (`timer_task_init`,
`timer_task_routine`). -/
inductive Op where
  | start (task : Ptr) (ttl : BitVec 64) (mem : Bool)
  | stop (task : Ptr)
  | pop

/-- What a call answers: whether it is 0, or the task popped. -/
inductive Ret where
  | code (ok : Bool)
  | task (t : Option Ptr)
  deriving DecidableEq, Repr

def step (T : Timer) : Op → Option (Timer × Ret)
  | .start task ttl mem =>
    match ({ T with ttl := Function.update T.ttl task ttl }).timerTaskStart task mem with
    | none => none
    | some (T, ok) => some (T, .code ok)
  | .stop task =>
    match T.timerTaskStop task with
    | none => none
    | some (T, ok) => some (T, .code ok)
  | .pop =>
    match T.timerTaskPop with
    | none => none
    | some (T, t) => some (T, .task t)

/-- The parent of a place. -/
def half (i : Nat) : Nat := i / 2

/-- When a task expires. -/
def expiry (T : Timer) (t : Ptr) : Int := (T.ttl t).toInt

/-- When the task at a place expires. -/
def key (T : Timer) (i : Nat) : Int := T.expiry (T.e i)

/-- The heap of the tasks in `S`. -/
structure Consistent (T : Timer) (S : Finset Ptr) : Prop where
  /-- No task expires before its parent. -/
  order : Ordered half T.key T.len
  /-- Every queued task's index points at itself. -/
  idx : ∀ t ∈ S, T.idx t < T.len ∧ T.e (T.idx t) = t
  /-- The queued tasks are those in the array, each once. -/
  queued : ∀ t, t ∈ S ↔ ∃ i < T.len, T.e i = t
  once : ∀ i < T.len, ∀ j < T.len, T.e i = T.e j → i = j

/-- The tasks started and not yet stopped or popped. -/
def after (S : Finset Ptr) : Op → Ret → Finset Ptr
  | .start task _ _, .code true => insert task S
  | .stop task, _ => S.erase task
  | .pop, .task (some t) => S.erase t
  | _, _ => S

/-- What a call is to answer. -/
def Answers (T : Timer) (S : Finset Ptr) : Op → Ret → Prop
  | .start _ _ mem, r => r = .code (decide (T.len < T.cap ∨ mem = true))
  | .stop task, r => r = .code (decide (task ∈ S))
  | .pop, r => (S = ∅ ∧ r = .task none) ∨ ∃ t ∈ S, r = .task (some t) ∧ ∀ u ∈ S, T.expiry t ≤ T.expiry u

/-- Every call of the run returns with the right answer, and the heap is consistent after each. -/
def AllRight : Timer → Finset Ptr → List Op → Prop
  | T, S, [] => T.Consistent S
  | T, S, op :: ops =>
    T.Consistent S ∧ ∃ T' r, T.step op = some (T', r) ∧ T.Answers S op r ∧ T'.AllRight (after S op r) ops

/-- A task under `i` or below it, along the earlier ones, stops `item`; each comparison there says
which of the two expires earlier. -/
inductive Settles (T : Timer) (item : Ptr) : Nat → Nat → Nat → Prop
  | here {i left right : Nat} (hleft : left < T.len) (hcmp : 0 ≤ T.cmp (T.e (T.minChild left right)) item)
      (hmin : ∀ j < T.len, j ≠ i → half j = i → T.expiry item ≤ T.key j) : Settles T item i left right
  | deeper {i left right m : Nat} (hleft : left < T.len) (hm : T.minChild left right = m)
      (hcmp : T.cmp (T.e m) item < 0) (hitem : T.key m ≤ T.expiry item) (hhalf : half m = i)
      (hmin : ∀ j < T.len, j ≠ i → half j = i → T.key m ≤ T.key j)
      (h : Settles T item m (2 * m) (2 * m + 1)) : Settles T item i left right

/-- The calls after which the heap is consistent: a task is started that is not queued and does
not expire before the one at half the length; a task is popped only when no other one is queued; a
task that is stopped is the last one, or the last one is not before the parent of the place and
finds a place above a leaf. -/
def Admits (T : Timer) (S : Finset Ptr) : Op → Prop
  | .start task ttl mem =>
    if T.cap ≤ T.len ∧ mem = false then
      task ∈ S → Ordered half (key { T with ttl := Function.update T.ttl task ttl }) T.len
    else
      task ∉ S ∧ (T.len = 0 ∨
        (T.ttl (T.e (half T.len)) - ttl).toInt ≤ 0 ∧ (T.ttl (T.e (half T.len))).toInt ≤ ttl.toInt)
  | .stop task =>
    task ∈ S → T.idx task = T.len - 1 ∨
      (T.idx task ≠ 0 → T.key (half (T.idx task)) ≤ T.key (T.len - 1)) ∧
      Settles { T with len := T.len - 1 } (T.e (T.len - 1)) (T.idx task)
        (if T.idx task = 0 then 1 else 2 * T.idx task) (if T.idx task = 0 then 2 else 2 * T.idx task + 1)
  | .pop => T.len ≤ 1

/-- The state with the tasks started and not yet stopped or popped. -/
def next (s : Timer × Finset Ptr) (op : Op) : Timer × Finset Ptr :=
  match s.1.step op with
  | none => s
  | some (T, r) => (T, after s.2 op r)

variable {T : Timer} {S : Finset Ptr} {task item : Ptr} {i : Nat}

theorem half_le (j : Nat) : half j ≤ j := Nat.div_le_self j 2

theorem half_ne {j : Nat} : half j ≠ j ↔ j ≠ 0 := by unfold half; omega

theorem key_put : (T.put i item).key = Function.update T.key i (T.expiry item) :=
  Function.comp_update T.expiry T.e i item

theorem Consistent.idx_e (h : T.Consistent S) (hi : i < T.len) : T.idx (T.e i) = i := by
  obtain ⟨hlt, he⟩ := h.idx (T.e i) ((h.queued _).2 ⟨i, hi, rfl⟩)
  exact h.once _ hlt i hi he

/-- An array in which each index points back holds each of its tasks once. -/
theorem consistent_of_idx (order : Ordered half T.key T.len) (queued : ∀ t, t ∈ S ↔ ∃ i < T.len, T.e i = t)
    (idx : ∀ i < T.len, T.idx (T.e i) = i) : T.Consistent S where
  order := order
  queued := queued
  idx := fun t ht => by
    obtain ⟨i, hi, rfl⟩ := (queued t).1 ht
    rw [idx i hi]
    exact ⟨hi, rfl⟩
  once := fun i hi j hj he => by rw [← idx i hi, ← idx j hj, he]

/-- The first task expires no later than any. -/
theorem Consistent.first_le (h : T.Consistent S) : ∀ u ∈ S, T.key 0 ≤ T.expiry u := by
  intro u hu
  obtain ⟨i, hi, rfl⟩ := (h.queued u).1 hu
  refine h.order.root_le (fun j _ hj => ?_) i hi
  exact Nat.lt_of_le_of_ne (half_le j) (half_ne.2 hj)

/-- The condition on a start where the array is not full. -/
theorem admits_start {ttl : BitVec 64} {mem : Bool} (hlen : T.len < T.cap) (ht : task ∉ S)
    (hle : T.len = 0 ∨
      (T.ttl (T.e (half T.len)) - ttl).toInt ≤ 0 ∧ (T.ttl (T.e (half T.len))).toInt ≤ ttl.toInt) :
    Admits T S (.start task ttl mem) := by
  simp only [Admits]
  rw [if_neg fun hfull => absurd hfull.1 (Nat.not_le_of_lt hlen)]
  exact ⟨ht, hle⟩

/-! ## Stopping a task -/

/-- The array while `timer_task_stop` looks for a place for `item`: the hole at `i` holds none
of the tasks that stay. -/
structure Sift (T : Timer) (S : Finset Ptr) (item : Ptr) (i : Nat) : Prop where
  hole : Hole half T.key T.len i (T.expiry item)
  queued : ∀ t, t ∈ S ↔ t = item ∨ ∃ j < T.len, j ≠ i ∧ T.e j = t
  idx : ∀ j < T.len, j ≠ i → T.idx (T.e j) = j
  new : ∀ j < T.len, j ≠ i → T.e j ≠ item
  lt : i < T.len

/-- `item` goes in at the hole, and its index is written. -/
theorem Sift.settle (h : Sift T S item i) (hmin : ∀ j < T.len, j ≠ i → half j = i → T.expiry item ≤ T.key j) :
    ((T.put i item).setIdx item i).Consistent S := by
  refine consistent_of_idx ?_ (fun t => ?_) fun j hj => ?_
  · show Ordered half (T.put i item).key T.len
    rw [key_put]
    exact h.hole.fill hmin
  · rw [h.queued]
    constructor
    · rintro (rfl | ⟨j, hj, hji, rfl⟩)
      · exact ⟨i, h.lt, Function.update_self ..⟩
      · exact ⟨j, hj, Function.update_of_ne hji ..⟩
    · rintro ⟨j, hj, rfl⟩
      by_cases hji : j = i
      · exact .inl (by rw [hji]; exact Function.update_self ..)
      · exact .inr ⟨j, hj, hji, (Function.update_of_ne hji ..).symm⟩
  · show Function.update T.idx item i (Function.update T.e i item j) = j
    by_cases hji : j = i
    · rw [hji, Function.update_self, Function.update_self]
    · rw [Function.update_of_ne hji, Function.update_of_ne (h.new j hj hji), h.idx j hj hji]

/-- The task at `m` goes up into the hole. -/
theorem Sift.move {m : Nat} (h : Sift T S item i) (hm : m < T.len) (hmi : m ≠ i) (hhalf : half m = i)
    (hmin : ∀ j < T.len, j ≠ i → half j = i → T.key m ≤ T.key j) (hitem : T.key m ≤ T.expiry item) :
    Sift ((T.put i (T.e m)).setIdx (T.e m) i) S item m where
  hole := by
    show Hole half (T.put i (T.e m)).key T.len m (T.expiry item)
    rw [key_put]
    exact h.hole.down half_le hm hmi hhalf hmin hitem
  queued := fun t => by
    rw [h.queued]
    refine or_congr_right ⟨?_, ?_⟩
    · rintro ⟨j, hj, hji, rfl⟩
      by_cases hjm : j = m
      · subst hjm
        exact ⟨i, h.lt, hmi.symm, Function.update_self ..⟩
      · exact ⟨j, hj, hjm, Function.update_of_ne hji ..⟩
    · rintro ⟨j, hj, hjm, rfl⟩
      by_cases hji : j = i
      · subst hji
        exact ⟨m, hm, hmi, (Function.update_self j (T.e m) T.e).symm⟩
      · have he : ((T.put i (T.e m)).setIdx (T.e m) i).e j = T.e j := Function.update_of_ne hji ..
        exact ⟨j, hj, hji, he.symm⟩
  idx := fun j hj hjm => by
    show Function.update T.idx (T.e m) i (Function.update T.e i (T.e m) j) = j
    by_cases hji : j = i
    · rw [hji, Function.update_self, Function.update_self]
    · have hne : T.e j ≠ T.e m := fun he => hjm (by rw [← h.idx j hj hji, he, h.idx m hm hmi])
      rw [Function.update_of_ne hji, Function.update_of_ne hne, h.idx j hj hji]
  new := fun j hj hjm => by
    show Function.update T.e i (T.e m) j ≠ item
    by_cases hji : j = i
    · rw [hji, Function.update_self]
      exact h.new m hm hmi
    · rw [Function.update_of_ne hji]
      exact h.new j hj hji
  lt := hm

/-- What the loop of `timer_task_stop` reads: the lengths, the expiries and what is at or above
`i`. -/
structure SameAbove (T T₁ : Timer) (i : Nat) : Prop where
  len : T₁.len = T.len
  ttl : T₁.ttl = T.ttl
  e : ∀ j, i < j → T₁.e j = T.e j

theorem SameAbove.refl (T : Timer) (i : Nat) : SameAbove T T i := ⟨rfl, rfl, fun _ _ => rfl⟩

theorem SameAbove.cmp {T₁ : Timer} (h : SameAbove T T₁ i) : T₁.cmp = T.cmp := by
  funext a b
  simp only [Timer.cmp, h.ttl]

theorem SameAbove.minChild {T₁ : Timer} (h : SameAbove T T₁ i) {left right : Nat} (hl : i < left) (hr : i < right) :
    T₁.minChild left right = T.minChild left right := by
  simp only [Timer.minChild, h.len, h.cmp, h.e left hl, h.e right hr]

theorem minChild_lt {left right : Nat} (hleft : left < T.len) : T.minChild left right < T.len := by
  unfold Timer.minChild
  split
  · split
    · exact hleft
    · assumption
  · exact hleft

theorem lt_minChild {left right : Nat} (hl : i < left) (hr : i < right) : i < T.minChild left right := by
  unfold Timer.minChild
  split
  · split
    exacts [hl, hr]
  · exact hl

theorem Settles.stopLoop {left right : Nat} (hs : Settles T item i left right) :
    ∀ {T₁ : Timer} {fuel : Nat}, SameAbove T T₁ i → i < left → i < right → T.len ≤ i + fuel → Sift T₁ S item i →
      ∃ T', stopLoop task item (fuel + 1) T₁ i left right = some T' ∧ T'.Consistent S := by
  induction hs with
  | @here i left right hleft hcmp hmin =>
    intro T₁ fuel hsame hl hr hfuel h
    have hnl : ¬left ≥ T₁.len := by rw [hsame.len]; omega
    have hge : T₁.cmp (T₁.e (T₁.minChild left right)) item ≥ 0 := by
      rw [hsame.minChild hl hr, hsame.cmp, hsame.e _ (lt_minChild hl hr)]
      exact hcmp
    refine ⟨_, by rw [Timer.stopLoop, if_neg hnl, if_pos hge], h.settle fun j hj hji hhalf => ?_⟩
    have hij : i < j := Nat.lt_of_le_of_ne (hhalf ▸ half_le j) (Ne.symm hji)
    have hmin := hmin j (hsame.len ▸ hj) hji hhalf
    simp only [key, expiry, hsame.ttl, hsame.e j hij] at hmin ⊢
    exact hmin
  | @deeper i left right m hleft hm hcmp hitem hhalf hmin hs ih =>
    intro T₁ fuel hsame hl hr hfuel h
    have him : i < m := hm ▸ lt_minChild hl hr
    have hmlt : m < T₁.len := by rw [hsame.len, ← hm]; exact minChild_lt hleft
    have hnl : ¬left ≥ T₁.len := by rw [hsame.len]; omega
    have hm₁ : T₁.minChild left right = m := by rw [hsame.minChild hl hr, hm]
    have hlt : ¬T₁.cmp (T₁.e m) item ≥ 0 := by rw [hsame.cmp, hsame.e m him]; omega
    have hkey : ∀ j, i < j → T₁.key j = T.key j := fun j hj => by simp only [key, expiry, hsame.ttl, hsame.e j hj]
    have hmove := h.move hmlt him.ne' hhalf (fun j hj hji hhj => by
      have hij : i < j := Nat.lt_of_le_of_ne (hhj ▸ half_le j) (Ne.symm hji)
      rw [hkey m him, hkey j hij]
      exact hmin j (hsame.len ▸ hj) hji hhj) (by
      rw [hkey m him]
      simpa only [expiry, hsame.ttl] using hitem)
    have hsame' : SameAbove T ((T₁.put i (T₁.e m)).setIdx (T₁.e m) i) m := by
      refine ⟨hsame.len, hsame.ttl, fun j hj => ?_⟩
      have hij : i < j := him.trans hj
      exact (Function.update_of_ne hij.ne' ..).trans (hsame.e j hij)
    obtain ⟨fuel, rfl⟩ : ∃ k, fuel = k + 1 := ⟨fuel - 1, by omega⟩
    have hfuel' : T.len ≤ m + fuel := by omega
    obtain ⟨T', hrun, hT'⟩ := ih hsame' (by omega) (by omega) hfuel' hmove
    refine ⟨T', ?_, hT'⟩
    rw [Timer.stopLoop, if_neg hnl]
    simp only [hm₁, if_neg hlt]
    exact hrun

/-- The last task of a heap stops being queued. -/
theorem Consistent.dropLast (h : T.Consistent S) {n : Nat} (hn : T.len = n + 1) :
    ({ T with len := n }).Consistent (S.erase (T.e n)) := by
  have hnl : n < T.len := by omega
  refine consistent_of_idx (h.order.mono (show n ≤ T.len by omega)) (fun t => ?_) fun i hi => ?_
  · rw [Finset.mem_erase, h.queued]
    constructor
    · rintro ⟨hne, i, hi, rfl⟩
      have hin : i ≠ n := fun h0 => hne (h0 ▸ rfl)
      exact ⟨i, show i < n by omega, rfl⟩
    · rintro ⟨i, hi, rfl⟩
      have hi : i < n := hi
      exact ⟨fun he => by have := h.once i (by omega) n hnl he; omega, i, by omega, rfl⟩
  · have hi : i < n := hi
    exact h.idx_e (by omega)

/-- A task is taken out of its place, which the last one is to fill. -/
theorem Consistent.sift (h : T.Consistent S) {n : Nat} (hn : T.len = n + 1) (hi : i < n)
    (habove : i ≠ 0 → T.key (half i) ≤ T.key n) : Sift { T with len := n } (S.erase (T.e i)) (T.e n) i where
  hole := (h.order.mono (show n ≤ T.len by omega)).hole hi fun hr => habove (half_ne.1 hr)
  queued := fun t => by
    rw [Finset.mem_erase, h.queued]
    constructor
    · rintro ⟨hne, j, hj, rfl⟩
      have hji : j ≠ i := fun h0 => hne (h0 ▸ rfl)
      by_cases hjn : j = n
      · exact .inl (by rw [hjn])
      · exact .inr ⟨j, show j < n by omega, hji, rfl⟩
    · rintro (rfl | ⟨j, hj, hji, rfl⟩)
      · exact ⟨fun he => by have := h.once n (by omega) i (by omega) he; omega, n, by omega, rfl⟩
      · have hj : j < n := hj
        exact ⟨fun he => hji (h.once j (by omega) i (by omega) he), j, by omega, rfl⟩
  idx := fun j hj _ => by
    have hj : j < n := hj
    exact h.idx_e (by omega)
  new := fun j hj _ he => by
    have hj : j < n := hj
    have := h.once j (by omega) n (by omega) he
    omega
  lt := hi

theorem Consistent.stop (h : T.Consistent S) (hop : Admits T S (.stop task)) :
    ∃ T', T.timerTaskStop task = some (T', decide (task ∈ S)) ∧ T'.Consistent (S.erase task) := by
  by_cases ht : task ∈ S
  case neg =>
    refine ⟨T, ?_, by rwa [Finset.erase_eq_of_notMem ht]⟩
    unfold timerTaskStop
    split
    · simp [ht]
    rename_i hlt
    have hne : task ≠ T.e (T.idx task) := fun he => ht ((h.queued task).2 ⟨T.idx task, by omega, he.symm⟩)
    simp [hne, ht]
  case pos =>
    obtain ⟨hi, he⟩ := h.idx task ht
    obtain ⟨n, hn⟩ : ∃ n, T.len = n + 1 := ⟨T.len - 1, by omega⟩
    have hn1 : T.len - 1 = n := by omega
    have hnl : ¬T.idx task ≥ T.len := by omega
    unfold timerTaskStop
    simp only [if_neg hnl, he, ne_eq, not_true_eq_false, if_false, hn1, decide_eq_true ht]
    have hop := hop ht
    rw [hn1] at hop
    generalize hleft : (if T.idx task = 0 then 1 else 2 * T.idx task) = left at hop ⊢
    generalize hright : (if T.idx task = 0 then 2 else 2 * T.idx task + 1) = right at hop ⊢
    have hl : T.idx task < left := by split at hleft <;> omega
    have hr : T.idx task < right := by split at hright <;> omega
    rcases hop with hlast | ⟨habove, hs⟩
    · -- the last task fills its own place
      have hge : left ≥ n := by omega
      have hput : (({ T with len := n } : Timer).put n (T.e n)).setIdx task n = { T with len := n } := by
        simp only [put, setIdx, Function.update_eq_self]
        rw [← hlast, Function.update_eq_self]
      have hd := h.dropLast hn
      rw [← hlast, he] at hd
      refine ⟨{ T with len := n }, ?_, hlast ▸ hd⟩
      rw [stopLoop, if_pos hge, hlast, hput]
    · have hin : T.idx task < n := by
        have : left < n := by cases hs with
          | here hlt => exact hlt
          | deeper hlt => exact hlt
        omega
      have hsift := h.sift hn hin habove
      rw [he] at hsift
      obtain ⟨T', hrun, hT'⟩ := hs.stopLoop (SameAbove.refl _ _) hl hr (Nat.le_add_left n _) hsift
      exact ⟨T', by rw [hrun], hT'⟩

/-! ## Starting and popping a task -/

/-- A task that is not queued may expire at any time. -/
theorem Consistent.setTtl (h : T.Consistent S) (ht : task ∉ S) (ttl : BitVec 64) :
    ({ T with ttl := Function.update T.ttl task ttl }).Consistent S := by
  have hkey : ∀ i < T.len, key { T with ttl := Function.update T.ttl task ttl } i = T.key i := by
    intro i hi
    have hne : T.e i ≠ task := fun he => ht ((h.queued task).2 ⟨i, hi, he⟩)
    simp only [key, expiry, Function.update_of_ne hne]
  refine ⟨fun j hj hr => ?_, h.idx, h.queued, h.once⟩
  rw [hkey j hj, hkey _ (Nat.lt_of_le_of_lt (half_le j) hj)]
  exact h.order j hj hr

/-- A task goes in at the end. -/
theorem Consistent.append (h : T.Consistent S) (ht : task ∉ S)
    (hkey : T.len ≠ 0 → T.key (half T.len) ≤ T.expiry task) :
    ({ (T.put T.len task).setIdx task T.len with len := T.len + 1 }).Consistent (insert task S) := by
  have hold : ∀ i < T.len, Function.update T.e T.len task i = T.e i := fun i hi =>
    Function.update_of_ne (by omega) ..
  have hne : ∀ i < T.len, T.e i ≠ task := fun i hi he => ht ((h.queued task).2 ⟨i, hi, he⟩)
  refine consistent_of_idx ?_ (fun t => ?_) fun i hi => ?_
  · show Ordered half (T.put T.len task).key (T.len + 1)
    rw [key_put]
    intro j hj hr
    have hhalf : half j < j := Nat.lt_of_le_of_ne (half_le j) hr
    rw [Function.update_of_ne (show half j ≠ T.len by omega)]
    by_cases hjl : j = T.len
    · subst hjl
      rw [Function.update_self]
      exact hkey (half_ne.1 hr)
    · rw [Function.update_of_ne hjl]
      exact h.order j (by omega) hr
  · rw [Finset.mem_insert, h.queued]
    constructor
    · rintro (rfl | ⟨i, hi, rfl⟩)
      · exact ⟨T.len, Nat.lt_succ_self _, Function.update_self ..⟩
      · exact ⟨i, Nat.lt_succ_of_lt hi, hold i hi⟩
    · rintro ⟨i, hi, rfl⟩
      rcases Nat.lt_succ_iff_lt_or_eq.1 hi with hi | rfl
      · exact .inr ⟨i, hi, (hold i hi).symm⟩
      · exact .inl (Function.update_self ..)
  · show Function.update T.idx task T.len (Function.update T.e T.len task i) = i
    rcases Nat.lt_succ_iff_lt_or_eq.1 hi with hi | rfl
    · rw [hold i hi, Function.update_of_ne (hne i hi), h.idx_e hi]
    · rw [Function.update_self, Function.update_self]

/-- The loop of `timer_task_start` stays where it begins. -/
theorem startLoop_stay {fuel : Nat} (h : T.cmp (T.e (half i)) task ≤ 0) :
    startLoop task (fuel + 1) T i = some (T, i) := by
  unfold startLoop
  exact if_neg fun h0 => by have h0 : T.cmp (T.e (half i)) task > 0 := h0.2; omega

theorem Consistent.start (h : T.Consistent S) {ttl : BitVec 64} {mem : Bool} (hop : Admits T S (.start task ttl mem)) :
    ∃ T', T.step (.start task ttl mem) = some (T', .code (decide (T.len < T.cap ∨ mem = true))) ∧
      T'.Consistent (after S (.start task ttl mem) (.code (decide (T.len < T.cap ∨ mem = true)))) := by
  unfold step timerTaskStart
  simp only [Admits, ge_iff_le] at hop ⊢
  by_cases hfull : T.cap ≤ T.len ∧ mem = false
  case pos =>
    obtain ⟨hcap, rfl⟩ := hfull
    rw [if_pos ⟨hcap, rfl⟩] at hop
    have hno : decide (T.len < T.cap ∨ false = true) = false := by simp [hcap]
    rw [if_pos ⟨hcap, rfl⟩, hno]
    refine ⟨_, rfl, ?_⟩
    by_cases ht : task ∈ S
    · exact ⟨hop ht, h.idx, h.queued, h.once⟩
    · exact h.setTtl ht ttl
  case neg =>
    rw [if_neg hfull] at hop
    obtain ⟨ht, hop⟩ := hop
    have hyes : decide (T.len < T.cap ∨ mem = true) = true := by
      rw [decide_eq_true_eq]
      cases mem with
      | true => exact .inr rfl
      | false => exact .inl (Nat.lt_of_not_le fun h0 => hfull ⟨h0, rfl⟩)
    rw [if_neg hfull, hyes]
    -- the capacity is read by no later test
    generalize hT : (if T.cap ≤ T.len then _ else _ : Timer) = T₁
    have hsame : T₁.len = T.len ∧ T₁.e = T.e ∧ T₁.idx = T.idx ∧ T₁.ttl = Function.update T.ttl task ttl := by
      subst hT
      split <;> exact ⟨rfl, rfl, rfl, rfl⟩
    obtain ⟨hlen, he, hidx, httl⟩ := hsame
    have h₁ : T₁.Consistent S := by
      have h₁ := h.setTtl ht ttl
      refine ⟨?_, by rw [hidx, hlen, he]; exact h₁.idx, by rw [hlen, he]; exact h₁.queued,
        by rw [hlen, he]; exact h₁.once⟩
      have hkey : T₁.key = key { T with ttl := Function.update T.ttl task ttl } := by
        funext i
        simp only [key, expiry, he, httl]
      rw [hkey, hlen]
      exact h₁.order
    have hnew : T₁.ttl task = ttl := by rw [httl]; exact Function.update_self ..
    rcases hop with h0 | ⟨hcmp, hle⟩
    · have happ := h₁.append ht fun hne => absurd (hlen.trans h0) hne
      rw [hlen, h0] at happ ⊢
      exact ⟨_, rfl, happ⟩
    · by_cases h0 : T₁.len = 0
      · have happ := h₁.append ht fun hne => absurd h0 hne
        rw [if_pos h0]
        rw [h0] at happ
        exact ⟨_, rfl, happ⟩
      have hhalf : half T₁.len < T₁.len := Nat.lt_of_le_of_ne (half_le _) (half_ne.2 h0)
      have hparent : T₁.ttl (T₁.e (half T₁.len)) = T.ttl (T.e (half T.len)) := by
        have hne : T₁.e (half T₁.len) ≠ task := fun h0 => ht ((h₁.queued task).2 ⟨_, hhalf, h0⟩)
        rw [httl, Function.update_of_ne hne, he, hlen]
      have hloop : startLoop task (T₁.len + 1) T₁ T₁.len = some (T₁, T₁.len) := by
        refine startLoop_stay ?_
        rw [Timer.cmp, hparent, hnew]
        exact hcmp
      rw [if_neg h0, hloop]
      refine ⟨_, rfl, h₁.append ht fun _ => ?_⟩
      rw [key, expiry, expiry, hparent, hnew]
      exact hle

theorem Consistent.pop (h : T.Consistent S) (hop : T.len ≤ 1) :
    ∃ T' r, T.timerTaskPop = some (T', r) ∧ Answers T S .pop (.task r) ∧ T'.Consistent (after S .pop (.task r)) := by
  unfold timerTaskPop
  by_cases h0 : T.len = 0
  · have hS : S = ∅ := Finset.eq_empty_of_forall_notMem fun t ht => by
      obtain ⟨i, hi, -⟩ := (h.queued t).1 ht
      omega
    exact ⟨T, none, by rw [if_pos h0], .inl ⟨hS, rfl⟩, h⟩
  · have h1 : T.len = 0 + 1 := by omega
    have hfirst : T.e 0 ∈ S := (h.queued _).2 ⟨0, by omega, rfl⟩
    have hput : ({ T with len := 0 } : Timer).put 0 (T.e 0) = { T with len := 0 } := by
      simp only [put, Function.update_eq_self]
    refine ⟨{ T with len := 0 }, some (T.e 0), ?_, .inr ⟨_, hfirst, rfl, h.first_le⟩, h.dropLast h1⟩
    rw [if_neg h0, h1]
    simp only [Nat.zero_add, Nat.sub_self, popLoop, ge_iff_le, Nat.zero_le, if_true, hput]

/-! ## Runs -/

theorem Consistent.step (h : T.Consistent S) {op : Op} (hop : Admits T S op) :
    ∃ T' r, T.step op = some (T', r) ∧ T.Answers S op r ∧ T'.Consistent (after S op r) := by
  cases op with
  | start task ttl mem =>
    obtain ⟨T', hrun, hT'⟩ := h.start hop
    exact ⟨T', _, hrun, rfl, hT'⟩
  | stop task =>
    obtain ⟨T', hrun, hT'⟩ := h.stop hop
    exact ⟨T', _, by rw [Timer.step, hrun], rfl, hT'⟩
  | pop =>
    obtain ⟨T', r, hrun, hr, hT'⟩ := h.pop hop
    exact ⟨T', _, by rw [Timer.step, hrun], hr, hT'⟩

theorem Consistent.run : ∀ {T : Timer} {S : Finset Ptr} (ops : List Op), T.Consistent S →
    Guarded next (fun s => Admits s.1 s.2) (T, S) ops → T.AllRight S ops
  | _, _, [], h, _ => h
  | T, S, op :: ops, h, hg => by
    obtain ⟨T', r, hrun, hr, hT'⟩ := h.step hg.1
    have hnext : next (T, S) op = (T', after S op r) := by simp only [next, hrun]
    exact ⟨h, T', r, hrun, hr, hT'.run ops (hnext ▸ hg.2)⟩

theorem init_consistent : timerCntxInit.Consistent ∅ :=
  consistent_of_idx (fun j hj => absurd hj (Nat.not_lt_zero j)) (fun t => by simp [timerCntxInit])
    fun i hi => absurd hi (Nat.not_lt_zero i)

/-- In a run whose calls are all admitted, the heap is consistent after each call, and a pop answers
a task that expires no later than any. -/
theorem timer_run_correct (ops : List Op) (hops : Guarded next (fun s => Admits s.1 s.2) (timerCntxInit, ∅) ops) :
    timerCntxInit.AllRight ∅ ops :=
  init_consistent.run ops hops

/-- Four tasks are started; the one at place 1 is stopped, and the last one stays where it fills
in. -/
theorem timer_run_correct_four : timerCntxInit.AllRight ∅
    [.start 1 5 true, .start 2 7 true, .start 3 20 true, .start 4 10 true, .stop 2, .stop 3, .stop 4, .pop] := by
  refine timer_run_correct [.start 1 5 true, .start 2 7 true, .start 3 20 true, .start 4 10 true, .stop 2, .stop 3,
    .stop 4, .pop] ⟨admits_start ?_ ?_ ?_, admits_start ?_ ?_ ?_, admits_start ?_ ?_ ?_, admits_start ?_ ?_ ?_,
      fun _ => .inr ⟨fun _ => ?_, .here ?_ ?_ ?_⟩, fun _ => .inl ?_, fun _ => .inl ?_, Nat.le_of_ble_eq_true ?_,
      trivial⟩
  all_goals decide

/-- A task that expires earlier is started second: the first one moves to place 1 and keeps index
0. -/
theorem start_earlier_leaves_idx : ¬∀ ops, timerCntxInit.AllRight ∅ ops := by
  intro h
  obtain ⟨-, T₁, r₁, h₁, -, -, T₂, r₂, h₂, -, hlast⟩ := h [.start 1 5 true, .start 2 3 true]
  have hend : ((timerCntxInit.step (.start 1 5 true)).bind fun x => x.1.step (.start 2 3 true)).map
      (fun x => (x.2, x.1.e (x.1.idx 1))) = some (.code true, 2) := by decide
  have hfirst : (timerCntxInit.step (.start 1 5 true)).map (·.2) = some (.code true) := by decide
  rw [h₁] at hend hfirst
  simp only [Option.bind_some, h₂, Option.map_some, Option.some.injEq, Prod.mk.injEq] at hend hfirst
  obtain ⟨rfl, hat⟩ := hend
  subst hfirst
  have hone := (hlast.idx 1 (by decide)).2
  rw [hat] at hone
  exact absurd hone (by decide)

end Timer

end BeehiveIm.Core
