/-
The queue with a signal (`sig_queue.c`): producers and consumers at once. A step is a push or a pop
of the queue, a signal, or what a thread does between two calls of the lock.

The signal is sent without the lock. One that comes after a consumer has found the queue empty and
before it waits wakes nobody, and the consumer waits beside an element. The pop is done after the
lock is given back. Two consumers that have found the same element leave one of them with `NULL`.
-/
import BeehiveIm.Core.Ring.Lanes
import BeehiveIm.Lib.Run
import Mathlib.Data.Finset.Card
import Mathlib.Tactic

namespace BeehiveIm.Core

open BeehiveIm.Lib

namespace SigQueue

/-- Where a thread stands. -/
inductive Pc where
  | idle
  /-- `sig_queue_push` has pushed and is to signal -/
  | signal
  /-- `sig_queue_pop` is to take the lock -/
  | lock
  /-- `while (queue_empty(sq->queue))` -/
  | test
  /-- before `pthread_cond_wait` -/
  | wait
  /-- in `pthread_cond_wait` -/
  | blocked
  /-- woken, to take the lock again -/
  | woken
  | unlock
  | pop
  deriving DecidableEq

/-- The thread has found the queue not empty and has not popped yet. -/
def Pc.Claiming (pc : Pc) : Prop := pc = .unlock ∨ pc = .pop

/-- The thread waits, or is about to. -/
def Pc.Waiting (pc : Pc) : Prop := pc = .wait ∨ pc = .blocked

/-- The thread will signal, look at the queue or pop. -/
def Pc.Awake (pc : Pc) : Prop := pc ≠ .idle ∧ ¬ pc.Waiting

end SigQueue

/-- `sig_queue_t`, with its threads. -/
structure SigQueue (τ : Type) where
  lock : Option τ
  /-- the threads in `pthread_cond_wait` -/
  ready : List τ
  queue : Ring
  pc : τ → SigQueue.Pc
  /-- what the calls of `sig_queue_pop` have returned -/
  popped : List Ptr

namespace SigQueue

/-- What a thread does next. -/
inductive Act (τ : Type) where
  /-- a call of `sig_queue_push` with an address, up to the queue's push -/
  | push (addr : { p : Ptr // p ≠ 0 })
  /-- a call of `sig_queue_pop` -/
  | pop
  /-- `pthread_cond_signal`, which wakes `u` if anybody waits -/
  | signal (u : τ)
  /-- the return of `pthread_cond_wait` without a signal -/
  | wake
  /-- the next step of the call -/
  | go

variable {τ : Type} [DecidableEq τ]

/-- `sig_queue_creat` -/
def sigQueueCreat (τ : Type) (max : BitVec 32) : SigQueue τ := ⟨none, [], Ring.ringCreat max, fun _ => .idle, []⟩

def goto (S : SigQueue τ) (t : τ) (pc : Pc) : SigQueue τ := { S with pc := Function.update S.pc t pc }

/-- `u` leaves the condition. -/
def leave (S : SigQueue τ) (u : τ) : SigQueue τ := { S with ready := S.ready.erase u }.goto u .woken

/-- The next step of a call of `sig_queue_pop`. -/
def go (S : SigQueue τ) (t : τ) : Option (SigQueue τ) :=
  match S.pc t with
  | .lock | .woken => if S.lock = none then some ({ S with lock := some t }.goto t .test) else none
  | .test => some (S.goto t (if S.queue.num = 0 then .wait else .unlock))
  | .wait => some ({ S with lock := none, ready := S.ready ++ [t] }.goto t .blocked)
  | .unlock => some ({ S with lock := none }.goto t .pop)
  | .pop => S.queue.ringPop.map fun r => { S with queue := r.1, popped := S.popped ++ [r.2] }.goto t .idle
  | _ => none

/-- A step of a thread; `none` where it cannot be taken. -/
def step (S : SigQueue τ) : τ × Act τ → Option (SigQueue τ)
  | (t, .push addr) =>
    if S.pc t = .idle then (S.queue.ringPush addr.1).map fun r => { S with queue := r.1 }.goto t .signal else none
  | (t, .pop) => if S.pc t = .idle then some (S.goto t .lock) else none
  | (t, .signal u) =>
    if S.pc t = .signal then
      if S.ready = [] then some (S.goto t .idle)
      else if u ∈ S.ready then some ((S.leave u).goto t .idle) else none
    else none
  | (t, .wake) => if t ∈ S.ready then some (S.leave t) else none
  | (t, .go) => S.go t

/-- Every call has returned or waits; one waits, and the queue is not empty. -/
def Stuck (S : SigQueue τ) : Prop :=
  S.queue.num ≠ 0 ∧ (∀ t, S.pc t = .idle ∨ S.pc t = .blocked) ∧ ∃ t, S.pc t = .blocked

/-- A consumer finds the queue not empty only when it has more elements than consumers
before it have found there and not popped yet; nobody signals while a consumer is about
to wait and none waits. -/
def Apart (S : SigQueue τ) : τ × Act τ → Prop
  | (t, .go) => S.pc t = .test → S.queue.num ≠ 0 →
      ∀ F : Finset τ, (∀ u ∈ F, (S.pc u).Claiming) → F.card < S.queue.num.toNat
  | (_, .signal _) => S.ready = [] → ∀ u, S.pc u ≠ .wait
  | _ => True

instance (pc : Pc) : Decidable pc.Claiming := inferInstanceAs (Decidable (_ ∨ _))

instance [Fintype τ] (S : SigQueue τ) : ∀ o, Decidable (S.Apart o)
  | (t, .go) => inferInstanceAs (Decidable (S.pc t = .test → S.queue.num ≠ 0 →
      ∀ F : Finset τ, (∀ u ∈ F, (S.pc u).Claiming) → F.card < S.queue.num.toNat))
  | (_, .signal _) => inferInstanceAs (Decidable (S.ready = [] → ∀ u, S.pc u ≠ .wait))
  | (_, .push _) => inferInstanceAs (Decidable True)
  | (_, .pop) => inferInstanceAs (Decidable True)
  | (_, .wake) => inferInstanceAs (Decidable True)

end SigQueue

/-! ## The queue alone -/

namespace Ring

/-- The ring has `num` addresses between its ends, none of them `NULL`. -/
structure Stocked (rq : Ring) : Prop where
  prod : rq.prod.tail = rq.prod.head
  cons : rq.cons.tail = rq.cons.head
  ends : rq.prod.head = rq.cons.head + rq.num
  room : rq.num ≤ rq.max
  addr : ∀ i < rq.num, rq.data (rq.cell (rq.cons.head + i)) ≠ 0

theorem ringCreat_stocked (max : BitVec 32) : (ringCreat max).Stocked where
  prod := rfl
  cons := rfl
  ends := rfl
  room := Nat.zero_le _
  addr := fun i hi => absurd (show i.toNat < 0 from hi) (Nat.not_lt_zero _)

/-- A push puts its address at the end, or finds no room. -/
theorem Stocked.push {rq : Ring} (h : rq.Stocked) {addr : Ptr} (h0 : addr ≠ 0) :
    ∃ rq' ret, rq.ringPush addr = some (rq', ret) ∧ rq'.Stocked ∧
      rq'.num.toNat = rq.num.toNat + ret.toNat := by
  have hmax := rq.max.isLt
  have hle : rq.num.toNat ≤ rq.max.toNat := h.room
  unfold ringPush ringMpush
  simp only [List.length_singleton]
  split_ifs with hroom htail
  · have hlt : rq.num.toNat < rq.max.toNat := by
      have hends := h.ends
      have hcons := h.cons
      simp only [hasRoom, decide_eq_true_eq, BitVec.le_def] at hroom
      rw [hcons, hends] at hroom
      bv_omega
    refine ⟨_, true, rfl, ⟨rfl, h.cons, ?_, ?_, fun i hi => ?_⟩, ?_⟩
    · show rq.prod.head + 1 = rq.cons.head + (rq.num + 1)
      rw [h.ends, BitVec.add_assoc]
    · show rq.num + 1 ≤ rq.max
      bv_omega
    · show Function.update rq.data (rq.cell rq.prod.head) addr (rq.cell (rq.cons.head + i)) ≠ 0
      by_cases hcell : rq.cell (rq.cons.head + i) = rq.cell rq.prod.head
      · rw [hcell, Function.update_self]
        exact h0
      · rw [Function.update_of_ne hcell]
        have hne : i ≠ rq.num := by
          rintro rfl
          exact hcell (by rw [h.ends])
        have hi' : i < rq.num + 1 := hi
        exact h.addr i (by bv_omega)
    · show (rq.num + 1).toNat = rq.num.toNat + 1
      bv_omega
  · exact absurd h.prod htail
  · exact ⟨rq, false, rfl, h, rfl⟩

/-- A pop takes an address from a ring that has one. -/
theorem Stocked.pop {rq : Ring} (h : rq.Stocked) (h0 : 0 < rq.num.toNat) :
    ∃ rq' addr, rq.ringPop = some (rq', addr) ∧ addr ≠ 0 ∧ rq'.Stocked ∧ rq'.num.toNat = rq.num.toNat - 1 := by
  have hends := h.ends
  have hdata : hasData rq.cons.head rq.prod.tail 1 = true := by
    rw [h.prod, hends]
    simp only [hasData, decide_eq_true_eq, BitVec.le_def]
    bv_omega
  have hfirst : rq.data (rq.cell rq.cons.head) ≠ 0 := by
    have := h.addr 0#32 (by bv_omega)
    rwa [BitVec.add_zero] at this
  unfold ringPop ringMpop
  simp only
  rw [if_pos hdata, if_pos h.cons]
  refine ⟨_, _, rfl, hfirst, ⟨h.prod, rfl, ?_, ?_, fun i hi => ?_⟩, ?_⟩
  · show rq.prod.head = rq.cons.head + 1 + (rq.num - 1)
    bv_omega
  · show rq.num - 1 ≤ rq.max
    have : rq.num ≤ rq.max := h.room
    bv_omega
  · show rq.data (rq.cell (rq.cons.head + 1 + i)) ≠ 0
    have hi' : i < rq.num - 1 := hi
    rw [BitVec.add_assoc]
    exact h.addr (1 + i) (by bv_omega)
  · show (rq.num - 1).toNat = rq.num.toNat - 1
    bv_omega

end Ring

namespace SigQueue

variable {τ : Type} [DecidableEq τ] {pc : τ → Pc} {n : Nat} {t : τ} {q : Pc} {S S' : SigQueue τ}

/-! ## Claims -/

/-- Among `n` elements there is one for each consumer that has found the queue not empty. -/
def Claims (n : Nat) (pc : τ → Pc) : Prop := ∀ F : Finset τ, (∀ u ∈ F, (pc u).Claiming) → F.card ≤ n

theorem Claims.mono {σ : Type} {pc : σ → Pc} {m : Nat} (h : Claims n pc) (hm : n ≤ m) : Claims m pc :=
  fun F hF => (h F hF).trans hm

/-- A thread that claims nothing new -/
theorem Claims.update (h : Claims n pc) (hq : q.Claiming → (pc t).Claiming) : Claims n (Function.update pc t q) := by
  intro F hF
  refine h F fun u hu => ?_
  have := hF u hu
  by_cases hut : u = t
  · subst hut
    rw [Function.update_self] at this
    exact hq this
  · rwa [Function.update_of_ne hut] at this

/-- The claims besides that of `t` -/
theorem claiming_erase {F : Finset τ} (hF : ∀ u ∈ F, (Function.update pc t q u).Claiming) :
    ∀ u ∈ F.erase t, (pc u).Claiming := by
  intro u hu
  rw [Finset.mem_erase] at hu
  have := hF u hu.2
  rwa [Function.update_of_ne hu.1] at this

/-- There is an element left to claim. -/
theorem Claims.take (h : ∀ F : Finset τ, (∀ u ∈ F, (pc u).Claiming) → F.card < n) :
    Claims n (Function.update pc t q) := by
  intro F hF
  have hlt := h (F.erase t) (claiming_erase hF)
  have := Finset.pred_card_le_card_erase (s := F) (a := t)
  omega

/-- A thread takes the element it has claimed. -/
theorem Claims.drop (h : Claims n pc) (ht : (pc t).Claiming) (hq : ¬ q.Claiming) :
    Claims (n - 1) (Function.update pc t q) := by
  intro F hF
  have htF : t ∉ F := by
    intro htF
    have := hF t htF
    rw [Function.update_self] at this
    exact hq this
  have hle := h (insert t F) fun u hu => by
    rcases Finset.mem_insert.1 hu with rfl | hu'
    · exact ht
    · have := hF u hu'
      rwa [Function.update_of_ne (by rintro rfl; exact htF hu')] at this
  rw [Finset.card_insert_of_notMem htF] at hle
  omega

/-! ## Waiting threads -/

/-- While a thread waits, there is a thread awake for each of `n` elements. -/
def Served (n : Nat) (pc : τ → Pc) : Prop :=
  (∃ t, (pc t).Waiting) → ∃ F : Finset τ, (∀ u ∈ F, (pc u).Awake) ∧ n ≤ F.card

theorem waiting_of_update (hq : q.Waiting → (pc t).Waiting) (hw : ∃ u, (Function.update pc t q u).Waiting) :
    ∃ u, (pc u).Waiting := by
  obtain ⟨u, hu⟩ := hw
  by_cases hut : u = t
  · subst hut
    rw [Function.update_self] at hu
    exact ⟨u, hq hu⟩
  · rw [Function.update_of_ne hut] at hu
    exact ⟨u, hu⟩

theorem Served.update (h : Served n pc) (ha : (pc t).Awake → q.Awake) (hq : q.Waiting → (pc t).Waiting) :
    Served n (Function.update pc t q) := by
  intro hw
  obtain ⟨F, hF, hn⟩ := h (waiting_of_update hq hw)
  refine ⟨F, fun u hu => ?_, hn⟩
  by_cases hut : u = t
  · subst hut
    rw [Function.update_self]
    exact ha (hF u hu)
  · rw [Function.update_of_ne hut]
    exact hF u hu

/-- One more thread awake -/
theorem Served.rouse (h : Served n pc) (ht : ¬ (pc t).Awake) (hq : q.Awake) :
    Served (n + 1) (Function.update pc t q) := by
  intro hw
  obtain ⟨F, hF, hn⟩ := h (waiting_of_update (fun hwait => absurd hwait hq.2) hw)
  have htF : t ∉ F := fun htF => ht (hF t htF)
  refine ⟨insert t F, fun u hu => ?_, by rw [Finset.card_insert_of_notMem htF]; omega⟩
  rcases Finset.mem_insert.1 hu with rfl | hu'
  · rwa [Function.update_self]
  · rw [Function.update_of_ne (by rintro rfl; exact htF hu')]
    exact hF u hu'

/-- One thread awake less, and one element to serve less -/
theorem Served.rest (h : Served (n + 1) pc) (hq : ¬ q.Waiting) : Served n (Function.update pc t q) := by
  intro hw
  obtain ⟨F, hF, hn⟩ := h (waiting_of_update (fun hwait => absurd hwait hq) hw)
  refine ⟨F.erase t, fun u hu => ?_, ?_⟩
  · rw [Finset.mem_erase] at hu
    rw [Function.update_of_ne hu.1]
    exact hF u hu.2
  · have := Finset.pred_card_le_card_erase (s := F) (a := t)
    omega

/-! ## Steps -/

structure Inv {τ : Type} (S : SigQueue τ) : Prop where
  stocked : S.queue.Stocked
  nodup : S.ready.Nodup
  ready : ∀ t, t ∈ S.ready ↔ S.pc t = .blocked
  popped : 0 ∉ S.popped
  claims : Claims S.queue.num.toNat S.pc
  served : Served S.queue.num.toNat S.pc

theorem sigQueueCreat_inv {σ : Type} (max : BitVec 32) : (sigQueueCreat σ max).Inv where
  stocked := Ring.ringCreat_stocked max
  nodup := List.nodup_nil
  ready := fun t => by simp [sigQueueCreat]
  popped := List.not_mem_nil
  claims := fun F hF => by
    have hempty : F = ∅ := Finset.eq_empty_of_forall_notMem fun u hu => by
      simpa [sigQueueCreat, Pc.Claiming] using hF u hu
    rw [hempty]
    exact Nat.zero_le _
  served := fun ⟨t, ht⟩ => by simp [sigQueueCreat, Pc.Waiting] at ht

/-- A move of a thread that does not wait touches no waiting thread. -/
theorem ready_update (h : ∀ t, t ∈ S.ready ↔ S.pc t = .blocked) (ht : S.pc t ≠ .blocked) (hq : q ≠ .blocked) (u : τ) :
    u ∈ S.ready ↔ Function.update S.pc t q u = .blocked := by
  rw [h u]
  by_cases hut : u = t
  · subst hut
    rw [Function.update_self]
    exact iff_of_false ht hq
  · rw [Function.update_of_ne hut]

theorem ready_erase (hn : S.ready.Nodup) (h : ∀ t, t ∈ S.ready ↔ S.pc t = .blocked) (hq : q ≠ .blocked) (u : τ) :
    u ∈ S.ready.erase t ↔ Function.update S.pc t q u = .blocked := by
  rw [hn.mem_erase_iff, h u]
  by_cases hut : u = t
  · subst hut
    rw [Function.update_self]
    exact iff_of_false (fun hu => hu.1 rfl) hq
  · rw [Function.update_of_ne hut]
    exact and_iff_right hut

/-- A step that leaves the queue alone -/
theorem Inv.goto (h : S.Inv) (lock : Option τ) (ht : S.pc t ≠ .blocked) (hq : q ≠ .blocked)
    (hc : Claims S.queue.num.toNat (Function.update S.pc t q))
    (hs : Served S.queue.num.toNat (Function.update S.pc t q)) : ({ S with lock := lock }.goto t q).Inv where
  stocked := h.stocked
  nodup := h.nodup
  ready := ready_update h.ready ht hq
  popped := h.popped
  claims := hc
  served := hs

theorem Inv.leave (h : S.Inv) (ht : t ∈ S.ready) : (S.leave t).Inv ∧ Served (S.queue.num.toNat + 1) (S.leave t).pc := by
  have hpc : S.pc t = .blocked := (h.ready t).1 ht
  have hserved : Served (S.queue.num.toNat + 1) (S.leave t).pc :=
    h.served.rouse (by simp [hpc, Pc.Awake, Pc.Waiting]) (by simp [Pc.Awake, Pc.Waiting])
  refine ⟨⟨h.stocked, h.nodup.erase t, ready_erase h.nodup h.ready (by simp), h.popped,
    h.claims.update (by simp [Pc.Claiming]), fun hw => ?_⟩, hserved⟩
  obtain ⟨F, hF, hn⟩ := hserved hw
  exact ⟨F, hF, (Nat.le_succ _).trans hn⟩

theorem Inv.push (h : S.Inv) {addr : { p : Ptr // p ≠ 0 }} (hs : S.step (t, .push addr) = some S') : S'.Inv := by
  simp only [step] at hs
  split_ifs at hs with hpc
  obtain ⟨rq', ret, hpush, hstocked, hnum⟩ := h.stocked.push addr.2
  rw [hpush] at hs
  cases hs
  have hclaims : Claims rq'.num.toNat (Function.update S.pc t .signal) :=
    (h.claims.mono (by omega)).update (by simp [Pc.Claiming])
  have hserved : Served rq'.num.toNat (Function.update S.pc t .signal) := by
    have hrouse := h.served.rouse (t := t) (q := .signal) (by simp [hpc, Pc.Awake]) (by simp [Pc.Awake, Pc.Waiting])
    have hle : rq'.num.toNat ≤ S.queue.num.toNat + 1 := by
      cases ret <;> simp_all
    intro hw
    obtain ⟨F, hF, hn⟩ := hrouse hw
    exact ⟨F, hF, hle.trans hn⟩
  exact ⟨hstocked, h.nodup, ready_update h.ready (by simp [hpc]) (by simp), h.popped, hclaims, hserved⟩

theorem Inv.signal (h : S.Inv) {u : τ} (hok : S.Apart (t, .signal u)) (hs : S.step (t, .signal u) = some S') :
    S'.Inv := by
  simp only [step] at hs
  split_ifs at hs with hpc hready hu
  · cases hs
    refine h.goto S.lock (by simp [hpc]) (by simp) (h.claims.update (by simp [Pc.Claiming])) fun hw => ?_
    -- nobody waits, and nobody is about to
    obtain ⟨v, hv⟩ := waiting_of_update (by simp [Pc.Waiting]) hw
    rcases hv with hv | hv
    · exact absurd hv (hok hready v)
    · rw [← h.ready v, hready] at hv
      exact absurd hv List.not_mem_nil
  · cases hs
    obtain ⟨hinv, hserved⟩ := h.leave hu
    have hne : t ≠ u := by
      rintro rfl
      rw [h.ready t, hpc] at hu
      cases hu
    have hpc' : (S.leave u).pc t = .signal := by
      show Function.update S.pc u .woken t = _
      rw [Function.update_of_ne hne, hpc]
    exact hinv.goto S.lock (by simp [hpc']) (by simp) (hinv.claims.update (by simp [Pc.Claiming]))
      (hserved.rest (by simp [Pc.Waiting]))

theorem Inv.go (h : S.Inv) (hok : S.Apart (t, .go)) (hs : S.go t = some S') : S'.Inv := by
  cases hpc : S.pc t with
  | idle => simp [SigQueue.go, hpc] at hs
  | signal => simp [SigQueue.go, hpc] at hs
  | blocked => simp [SigQueue.go, hpc] at hs
  | lock =>
    simp only [SigQueue.go, hpc] at hs
    split_ifs at hs
    cases hs
    exact h.goto _ (by simp [hpc]) (by simp) (h.claims.update (by simp [Pc.Claiming]))
      (h.served.update (by simp [Pc.Awake, Pc.Waiting]) (by simp [Pc.Waiting]))
  | woken =>
    simp only [SigQueue.go, hpc] at hs
    split_ifs at hs
    cases hs
    exact h.goto _ (by simp [hpc]) (by simp) (h.claims.update (by simp [Pc.Claiming]))
      (h.served.update (by simp [Pc.Awake, Pc.Waiting]) (by simp [Pc.Waiting]))
  | test =>
    simp only [SigQueue.go, hpc] at hs
    cases hs
    by_cases h0 : S.queue.num = 0
    · rw [if_pos h0]
      -- an empty queue leaves nobody to be served
      refine h.goto S.lock (by simp [hpc]) (by simp) (h.claims.update (by simp [Pc.Claiming])) fun _ => ?_
      exact ⟨∅, fun u hu => absurd hu (Finset.notMem_empty u), by simp [h0]⟩
    · rw [if_neg h0]
      exact h.goto S.lock (by simp [hpc]) (by simp) (Claims.take (hok hpc h0))
        (h.served.update (by simp [Pc.Awake, Pc.Waiting]) (by simp [Pc.Waiting]))
  | wait =>
    simp only [SigQueue.go, hpc] at hs
    cases hs
    have hnot : t ∉ S.ready := by
      rw [h.ready t, hpc]
      simp
    refine ⟨h.stocked, ?_, fun u => ?_, h.popped, h.claims.update (by simp [Pc.Claiming]),
      h.served.update (by simp [hpc, Pc.Awake, Pc.Waiting]) (by simp [hpc, Pc.Waiting])⟩
    · exact List.nodup_append'.2 ⟨h.nodup, List.nodup_singleton t, by simpa using hnot⟩
    · show u ∈ S.ready ++ [t] ↔ Function.update S.pc t .blocked u = .blocked
      rw [List.mem_append, List.mem_singleton, h.ready u]
      by_cases hut : u = t
      · simp [hut]
      · rw [Function.update_of_ne hut]
        simp [hut]
  | unlock =>
    simp only [SigQueue.go, hpc] at hs
    cases hs
    exact h.goto none (by simp [hpc]) (by simp) (h.claims.update (by simp [hpc, Pc.Claiming]))
      (h.served.update (by simp [Pc.Awake, Pc.Waiting]) (by simp [Pc.Waiting]))
  | pop =>
    -- the element it has found is still there
    have hpos : 0 < S.queue.num.toNat := by
      have := h.claims {t} (by simp [hpc, Pc.Claiming])
      rw [Finset.card_singleton] at this
      omega
    obtain ⟨rq', addr, hpop, haddr, hstocked, hnum⟩ := h.stocked.pop hpos
    simp only [SigQueue.go, hpc, hpop] at hs
    cases hs
    refine ⟨hstocked, h.nodup, ready_update h.ready (by simp [hpc]) (by simp), ?_, ?_, ?_⟩
    · show 0 ∉ S.popped ++ [addr]
      rw [List.mem_append, List.mem_singleton, not_or]
      exact ⟨h.popped, haddr.symm⟩
    · show Claims rq'.num.toNat _
      rw [hnum]
      exact h.claims.drop (by simp [hpc, Pc.Claiming]) (by simp [Pc.Claiming])
    · show Served rq'.num.toNat _
      have hserved : Served (rq'.num.toNat + 1) S.pc := by
        rw [hnum, Nat.sub_add_cancel hpos]
        exact h.served
      exact hserved.rest (by simp [Pc.Waiting])

theorem Inv.step (h : S.Inv) {o : τ × Act τ} (hok : S.Apart o) (hs : S.step o = some S') : S'.Inv := by
  obtain ⟨t, act⟩ := o
  cases act with
  | push addr => exact h.push hs
  | pop =>
    simp only [SigQueue.step] at hs
    split_ifs at hs with hpc
    cases hs
    exact h.goto S.lock (by simp [hpc]) (by simp) (h.claims.update (by simp [Pc.Claiming]))
      (h.served.update (by simp [Pc.Awake, Pc.Waiting]) (by simp [Pc.Waiting]))
  | signal u => exact h.signal hok hs
  | wake =>
    simp only [SigQueue.step] at hs
    split_ifs at hs with hready
    cases hs
    exact (h.leave hready).1
  | go => exact h.go hok hs

theorem Inv.not_stuck {σ : Type} {S : SigQueue σ} (h : S.Inv) : ¬ S.Stuck := by
  rintro ⟨h0, hrest, t, ht⟩
  obtain ⟨F, hF, hn⟩ := h.served ⟨t, .inr ht⟩
  have hempty : F = ∅ := Finset.eq_empty_of_forall_notMem fun u hu => by
    have hawake := hF u hu
    rcases hrest u with hidle | hblocked
    · exact hawake.1 hidle
    · exact hawake.2 (.inr hblocked)
  rw [hempty, Finset.card_empty, Nat.le_zero] at hn
  exact h0 (by simpa using congrArg (BitVec.ofNat 32) hn)

/-- In a run whose consumers find no more than there is and whose signals come when nobody is about
to wait, every pop returns an address and nobody waits beside an element. -/
theorem sig_queue_serves (max : BitVec 32) (ops : List (τ × Act τ))
    (hok : Guarded (fun S o => (step S o).getD S) Apart (sigQueueCreat τ max) ops) {S : SigQueue τ}
    (hrun : ops.foldlM step (sigQueueCreat τ max) = some S) : 0 ∉ S.popped ∧ ¬ S.Stuck := by
  have hinv : S.Inv :=
    run_kept step Apart Inv (fun _ _ _ h hok hs => h.step hok hs) ops _ S (sigQueueCreat_inv max) hok hrun
  exact ⟨hinv.popped, hinv.not_stuck⟩

/-- A consumer waits, is woken by the push and takes its element. -/
def servedRun : List (Fin 2 × Act (Fin 2)) :=
  [(0, .pop), (0, .go), (0, .go), (0, .go), (1, .push ⟨7, by decide⟩), (1, .signal 0), (0, .go), (0, .go), (0, .go),
  (0, .go)]

theorem sig_queue_serves_one : ∃ S, servedRun.foldlM step (sigQueueCreat (Fin 2) 4) = some S ∧ S.popped = [7] ∧
    0 ∉ S.popped ∧ ¬ S.Stuck := by
  have hpopped : (servedRun.foldlM step (sigQueueCreat (Fin 2) 4)).map (·.popped) = some [7] := by decide
  obtain ⟨S, hrun, hS⟩ := Option.map_eq_some_iff.1 hpopped
  exact ⟨S, hrun, hS, sig_queue_serves 4 servedRun (by decide) hrun⟩

/-- One producer and two consumers. -/
local instance threeThreads : NeZero 3 := ⟨by decide⟩

/-- Two consumers find the same element. -/
def doubleRun : List (Fin 3 × Act (Fin 3)) :=
  [(2, .push ⟨7, by decide⟩), (2, .signal 0), (0, .pop), (0, .go), (0, .go), (0, .go), (1, .pop), (1, .go), (1, .go),
    (1, .go), (0, .go), (1, .go)]

/-- A push and its signal come between the test of a consumer and its wait. -/
def lostRun : List (Fin 3 × Act (Fin 3)) :=
  [(0, .pop), (0, .go), (0, .go), (2, .push ⟨7, by decide⟩), (2, .signal 0), (0, .go)]

/-- A pop returns `NULL`; and a consumer waits beside an element, with nobody to wake it. -/
theorem sig_queue_fails :
    (¬ ∀ (ops : List (Fin 3 × Act (Fin 3))) (S : SigQueue (Fin 3)),
      ops.foldlM step (sigQueueCreat (Fin 3) 4) = some S → 0 ∉ S.popped) ∧
    ¬ ∀ (ops : List (Fin 3 × Act (Fin 3))) (S : SigQueue (Fin 3)),
      ops.foldlM step (sigQueueCreat (Fin 3) 4) = some S → ¬ S.Stuck := by
  constructor
  · intro h
    have hpopped : (doubleRun.foldlM step (sigQueueCreat (Fin 3) 4)).map (·.popped) = some [7, 0] := by decide
    obtain ⟨S, hrun, hS⟩ := Option.map_eq_some_iff.1 hpopped
    exact h doubleRun S hrun (by simp [hS])
  · intro h
    have hends : (lostRun.foldlM step (sigQueueCreat (Fin 3) 4)).map (fun S => (S.queue.num, S.pc 0, S.pc 1, S.pc 2)) =
        some (1, .blocked, .idle, .idle) := by decide
    obtain ⟨S, hrun, hS⟩ := Option.map_eq_some_iff.1 hends
    simp only [Prod.mk.injEq] at hS
    obtain ⟨hnum, h0, h1, h2⟩ := hS
    refine h lostRun S hrun ⟨by simp [hnum], fun t => ?_, 0, h0⟩
    fin_cases t
    · exact .inr h0
    · exact .inl h1
    · exact .inl h2

end SigQueue

end BeehiveIm.Core
