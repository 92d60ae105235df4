/-
A connection of the WebSocket server (`lib/lws/comm.go`, `lib/lws/websocket.go`): calls of
`AsyncSend`, `Kick` and `ConnPoolDel` at once, and its send routine. Each call takes the lock of a
copy of the pool that it has made for itself, so that no call keeps another out; a step is what a
call does up to what another can see.
-/
import BeehiveIm.Lib.Run
import Mathlib.Logic.Function.Basic

namespace BeehiveIm.Lws

open BeehiveIm.Lib

abbrev Slice := List (BitVec 8)

/-- Calls for the connection -/
inductive Op where
  | asyncSend (data : Slice)
  | kick
  | connPoolDel

/-- Where a call stands that has found the client in the pool. -/
inductive Pc where
  /-- `AsyncSend` is to look at `iskick` -/
  | sendLook (data : Slice)
  /-- `client.sendq <- data`, or a second of waiting -/
  | send (data : Slice)
  /-- `delete(pool.list, cid)` -/
  | delete
  /-- `Kick` or `ConnPoolDel` is to look at `iskick` -/
  | look
  /-- `close(client.sendq)` -/
  | close
  /-- `client.iskick = true` -/
  | mark
  deriving DecidableEq

/-- Where `send_routine` stands; the slices of a message are those that its writer was given. -/
inductive Routine where
  | wait
  /-- before `NextWriter` -/
  | taken (data : Slice)
  /-- before `n := len(client.sendq)` -/
  | count (mesg : List Slice)
  | drain (n : Nat) (mesg : List Slice)
  | done

structure Conn (τ : Type) where
  listed : Bool
  iskick : Bool
  closed : Bool
  sendq : List Slice
  routine : Routine
  calls : τ → Option Pc
  /-- the messages written on the connection -/
  wrote : List (List Slice)
  /-- the slices that `AsyncSend` has returned 0 for -/
  accepted : List Slice
  /-- how often `close(client.sendq)` was called -/
  closes : Nat
  /-- a slice was sent to the closed channel -/
  sentClosed : Bool

/-- `ok` is whether the connection takes what is written. -/
inductive Event (τ : Type) where
  | call (t : τ) (op : Op)
  | go (t : τ)
  | timeout (t : τ)
  | routine (ok : Bool)
  | tick (ok : Bool)

namespace Conn

variable {τ : Type}

def init : Conn τ where
  listed := true
  iskick := false
  closed := false
  sendq := []
  routine := .wait
  calls _ := none
  wrote := []
  accepted := []
  closes := 0
  sentClosed := false

/-- `pool.list[cid]`, and where a call stands then -/
def call (c : Conn τ) (op : Op) : Option Pc :=
  if c.listed then
    match op with
    | .asyncSend data => some (.sendLook data)
    | .kick => some .look
    | .connPoolDel => some .delete
  else none

section

variable [DecidableEq τ]

def goTo (c : Conn τ) (t : τ) (pc : Option Pc) : Conn τ := { c with calls := Function.update c.calls t pc }

/-- A step of a call; it panics at a channel that is closed, and it waits at one that is full. A
channel without a buffer gives the slice to the routine that waits for it. -/
def go (sendqMax : Nat) (c : Conn τ) (t : τ) : Pc → Option (Conn τ)
  | .sendLook data => some (c.goTo t (if c.iskick then none else some (.send data)))
  | .send data =>
    if c.closed then some { c.goTo t none with sentClosed := true }
    else if c.sendq.length < sendqMax then
      some { c.goTo t none with sendq := c.sendq ++ [data], accepted := c.accepted ++ [data] }
    else
      match c.sendq, c.routine with
      | [], .wait => some { c.goTo t none with routine := .taken data, accepted := c.accepted ++ [data] }
      | _, _ => none
  | .delete => some { c.goTo t (some .look) with listed := false }
  | .look => some (c.goTo t (if c.iskick then none else some .close))
  | .close => some { c.goTo t (if c.closed then none else some .mark) with closed := true, closes := c.closes + 1 }
  | .mark => some { c.goTo t none with iskick := true }

end

/-- A step of `send_routine`. What is received of a closed channel that is empty is nil. -/
def sendRoutine (c : Conn τ) (ok : Bool) : Option (Conn τ) :=
  match c.routine with
  | .wait =>
    match c.sendq with
    | data :: sendq => some { c with sendq := sendq, routine := .taken data }
    | [] => if c.closed then some { c with routine := .done } else none
  | .taken data => some { c with routine := if ok then .count [data] else .done }
  | .count mesg => some { c with routine := .drain c.sendq.length mesg }
  | .drain 0 mesg =>
    some (if ok then { c with routine := .wait, wrote := c.wrote ++ [mesg] } else { c with routine := .done })
  | .drain (n + 1) mesg =>
    match c.sendq with
    | data :: sendq => some { c with sendq := sendq, routine := .drain n (mesg ++ [data]) }
    | [] => if c.closed then some { c with routine := .drain n mesg } else none
  | .done => none

/-- `none` is for what cannot happen. -/
def step [DecidableEq τ] (sendqMax : Nat) (c : Conn τ) : Event τ → Option (Conn τ)
  | .call t op => if c.calls t = none then some (c.goTo t (c.call op)) else none
  | .go t =>
    match c.calls t with
    | none => none
    | some pc => c.go sendqMax t pc
  | .timeout t =>
    match c.calls t with
    | some (.send _) => some (c.goTo t none)
    | _ => none
  | .routine ok => c.sendRoutine ok
  | .tick ok =>
    match c.routine with
    | .wait => some { c with routine := if ok then .wait else .done }
    | _ => none

/-- What is accepted is written, each slice as a message of its own and in order, all of it by the
end of the routine; the channel is closed once where the connection has been kicked or removed, and
nothing is sent to it then. -/
structure Sound (c : Conn τ) : Prop where
  own : ∀ mesg ∈ c.wrote, ∃ data, mesg = [data]
  order : c.wrote.flatten <+: c.accepted
  all : c.routine = .done → c.wrote = c.accepted.map fun data => [data]
  once : c.closes ≤ 1
  ends : c.iskick = true ∨ c.listed = false → (∀ t, c.calls t = none) → c.closes = 1
  safe : c.sentClosed = false

/-- A step of a call does not go wrong: no sender looks at `iskick` between a close and its mark,
none is past its look at a close, and no two calls are on their way to close at once. -/
def CallGuard (c : Conn τ) : Pc → Prop
  | .sendLook _ => c.iskick = false → c.closed = false
  | .look => c.iskick = false → ∀ t, c.calls t ≠ some .close ∧ c.calls t ≠ some .mark
  | .close => ∀ t data, c.calls t ≠ some (.send data)
  | _ => True

/-- Nor does one of the routine: the queue is empty when it counts what is in it, and the
connection takes what it writes. -/
def RoutineGuard (c : Conn τ) (ok : Bool) : Routine → Prop
  | .taken _ | .drain 0 _ => ok = true
  | .count _ => c.sendq = []
  | _ => True

def Guard (c : Conn τ) : Event τ → Prop
  | .go t => ∀ pc, c.calls t = some pc → c.CallGuard pc
  | .routine ok => c.RoutineGuard ok c.routine
  | .tick ok => ok = true
  | _ => True

end Conn

/-- The slices that the routine has in its hand. -/
def Routine.hand : Routine → List Slice
  | .wait | .done => []
  | .taken data => [data]
  | .count mesg | .drain _ mesg => mesg

/-- A call on its way to close, or to say that it has. -/
def Pc.Closes (pc : Pc) : Prop := pc = .close ∨ pc = .mark

/-- One slice in each message: in the one that is written, too, and nothing is to come to it. -/
def Routine.Single : Routine → Prop
  | .count mesg => ∃ data, mesg = [data]
  | .drain n mesg => n = 0 ∧ ∃ data, mesg = [data]
  | _ => True

namespace Conn

variable {τ : Type} {c c' : Conn τ} {t : τ}

/-- What is accepted is on its way in order, a slice in a message. -/
structure Line (c : Conn τ) : Prop where
  own : ∀ mesg ∈ c.wrote, ∃ data, mesg = [data]
  order : c.accepted = c.wrote.flatten ++ (c.routine.hand ++ c.sendq)
  single : c.routine.Single
  done : c.routine = .done → c.closed = true ∧ c.sendq = []

/-- The channel is closed once, by a call that then marks the connection, and no sender
is past its look then. -/
structure Gate (c : Conn τ) : Prop where
  closes : c.closes = if c.closed then 1 else 0
  safe : c.sentClosed = false
  send : ∀ t data, c.calls t = some (.send data) → c.closed = false
  close : ∀ t, c.calls t = some .close → c.closed = false
  mark : ∀ t, c.calls t = some .mark → c.closed = true
  one : ∀ t t' pc pc', c.calls t = some pc → c.calls t' = some pc' → pc.Closes → pc'.Closes → t = t'
  kicked : c.iskick = true → c.closed = true
  marked : c.closed = true → c.iskick = true ∨ ∃ t, c.calls t = some .mark
  gone : c.listed = false → c.closed = true ∨ ∃ t, c.calls t = some .look ∨ c.calls t = some .close

/-! ## The routine -/

theorem Line.sendRoutine (h : Line c) {ok : Bool} (hg : c.RoutineGuard ok c.routine)
    (hs : c.sendRoutine ok = some c') : Line c' := by
  have horder := h.order
  have hsingle := h.single
  unfold Conn.sendRoutine at hs
  cases hroutine : c.routine with
  | wait =>
    rw [hroutine] at hs horder
    cases hsendq : c.sendq with
    | nil =>
      rw [hsendq] at hs horder
      dsimp only at hs
      split at hs
      · rename_i hclosed
        cases hs
        exact ⟨h.own, horder, trivial, fun _ => ⟨hclosed, rfl⟩⟩
      · cases hs
    | cons data sendq =>
      rw [hsendq] at hs horder
      cases hs
      exact ⟨h.own, horder, trivial, fun hd => by cases hd⟩
  | taken data =>
    rw [hroutine] at hs hg horder
    cases hs
    rw [show ok = true from hg]
    exact ⟨h.own, horder, ⟨data, rfl⟩, fun hd => by cases hd⟩
  | count mesg =>
    rw [hroutine] at hs hg horder hsingle
    cases hs
    have hnil : c.sendq.length = 0 := List.length_eq_zero_iff.mpr hg
    exact ⟨h.own, horder, ⟨hnil, hsingle⟩, fun hd => by cases hd⟩
  | drain n mesg =>
    rw [hroutine] at hs hg horder hsingle
    obtain ⟨rfl, data, rfl⟩ := hsingle
    rw [show ok = true from hg] at hs
    cases hs
    refine ⟨fun mesg hmesg => ?_, ?_, trivial, fun hd => by cases hd⟩
    · rcases List.mem_append.mp hmesg with hmesg | hmesg
      · exact h.own mesg hmesg
      · exact ⟨data, List.mem_singleton.mp hmesg⟩
    · simpa [Routine.hand] using horder
  | done =>
    rw [hroutine] at hs
    cases hs

theorem Gate.sendRoutine (h : Gate c) {ok : Bool} (hs : c.sendRoutine ok = some c') : Gate c' := by
  unfold Conn.sendRoutine at hs
  split at hs
  · split at hs
    · cases hs
      exact { h with }
    · split at hs
      · cases hs
        exact { h with }
      · cases hs
  · cases hs
    exact { h with }
  · cases hs
    exact { h with }
  · cases ok with
    | true =>
      cases hs
      exact { h with }
    | false =>
      cases hs
      exact { h with }
  · split at hs
    · cases hs
      exact { h with }
    · split at hs
      · cases hs
        exact { h with }
      · cases hs
  · cases hs

theorem eq_map_flatten {α : Type} : ∀ l : List (List α), (∀ m ∈ l, ∃ a, m = [a]) → l = l.flatten.map fun a => [a]
  | [], _ => rfl
  | m :: l, h => by
    obtain ⟨a, rfl⟩ := h m List.mem_cons_self
    rw [List.flatten_cons, List.map_append, ← eq_map_flatten l fun m hm => h m (List.mem_cons_of_mem _ hm)]
    rfl

/-! ## The calls -/

/-- A slice is accepted, into the queue or by the routine that waits. -/
theorem Line.accept (h : Line c) {data : Slice} {sendq : List Slice} {routine : Routine}
    (hline : routine.hand ++ sendq = c.routine.hand ++ c.sendq ++ [data]) (hsingle : routine.Single)
    (hdone : routine ≠ .done) (calls : τ → Option Pc) :
    Line { c with calls := calls, sendq := sendq, routine := routine, accepted := c.accepted ++ [data] } where
  own := h.own
  order := by
    dsimp only
    rw [hline, h.order]
    simp
  single := hsingle
  done hd := absurd hd hdone

section

variable [DecidableEq τ]

theorem calls_goTo {pc : Option Pc} {t' : τ} {p : Pc} (hp : (c.goTo t pc).calls t' = some p) :
    t' = t ∧ pc = some p ∨ t' ≠ t ∧ c.calls t' = some p := by
  unfold Conn.goTo at hp
  dsimp only at hp
  rw [Function.update_apply] at hp
  split at hp
  · rename_i ht
    exact .inl ⟨ht, hp⟩
  · rename_i hne
    exact .inr ⟨hne, hp⟩

theorem Gate.goTo (h : Gate c) {pc : Option Pc}
    (hold : ∀ p, c.calls t = some p → p ≠ .mark ∧
      (p = .look ∨ p = .close → c.closed = true ∨ pc = some .look ∨ pc = some .close))
    (hsend : ∀ data, pc = some (.send data) → c.closed = false)
    (hmark : pc ≠ some .mark)
    (hclose : pc = some .close → c.closed = false ∧ ∀ t' p, c.calls t' = some p → ¬p.Closes) : Gate (c.goTo t pc) := by
  have hnew : ∀ p, pc = some p → p.Closes → ∀ t' p', c.calls t' = some p' → ¬p'.Closes := by
    rintro p hp (rfl | rfl)
    · exact (hclose hp).2
    · exact absurd hp hmark
  have hself : (c.goTo t pc).calls t = pc := Function.update_self ..
  have hne : ∀ {t'}, t' ≠ t → (c.goTo t pc).calls t' = c.calls t' := fun ht => Function.update_of_ne ht ..
  constructor
  · exact h.closes
  · exact h.safe
  · intro t' data hp
    rcases calls_goTo hp with ⟨-, hp⟩ | ⟨-, hp⟩
    · exact hsend data hp
    · exact h.send t' data hp
  · intro t' hp
    rcases calls_goTo hp with ⟨-, hp⟩ | ⟨-, hp⟩
    · exact (hclose hp).1
    · exact h.close t' hp
  · intro t' hp
    rcases calls_goTo hp with ⟨-, hp⟩ | ⟨-, hp⟩
    · exact absurd hp hmark
    · exact h.mark t' hp
  · intro t₁ t₂ p₁ p₂ hp₁ hp₂ hc₁ hc₂
    rcases calls_goTo hp₁ with ⟨ht₁, hpc₁⟩ | ⟨-, hp₁⟩
    · rcases calls_goTo hp₂ with ⟨ht₂, -⟩ | ⟨-, hp₂⟩
      · rw [ht₁, ht₂]
      · exact absurd hc₂ (hnew p₁ hpc₁ hc₁ t₂ p₂ hp₂)
    · rcases calls_goTo hp₂ with ⟨-, hpc₂⟩ | ⟨-, hp₂⟩
      · exact absurd hc₁ (hnew p₂ hpc₂ hc₂ t₁ p₁ hp₁)
      · exact h.one t₁ t₂ p₁ p₂ hp₁ hp₂ hc₁ hc₂
  · exact h.kicked
  · intro hclosed
    rcases h.marked hclosed with hkick | ⟨t', ht'⟩
    · exact .inl hkick
    · refine .inr ⟨t', ?_⟩
      rw [hne]
      · exact ht'
      · rintro rfl
        exact (hold _ ht').1 rfl
  · intro hlisted
    rcases h.gone hlisted with hclosed | ⟨t', ht'⟩
    · exact .inl hclosed
    · by_cases ht : t' = t
      · subst ht
        have hp : c.closed = true ∨ pc = some .look ∨ pc = some .close := by
          rcases ht' with hp | hp
          · exact (hold _ hp).2 (.inl rfl)
          · exact (hold _ hp).2 (.inr rfl)
        exact hp.imp_right fun hpc => ⟨t', by rw [hself]; exact hpc⟩
      · exact .inr ⟨t', by rw [hne ht]; exact ht'⟩

/-- A call that is not on its way to close goes on to where no call closes. -/
theorem Gate.goOn (h : Gate c) {old pc : Option Pc} (ht : c.calls t = old)
    (hold : old ≠ some .look ∧ old ≠ some .close ∧ old ≠ some .mark)
    (hsend : ∀ data, pc = some (.send data) → c.closed = false) (hnew : pc ≠ some .close ∧ pc ≠ some .mark) :
    Gate (c.goTo t pc) := by
  subst ht
  obtain ⟨hlook, hclose, hmark⟩ := hold
  refine h.goTo (fun p hp => ⟨?_, ?_⟩) hsend hnew.2 fun hpc => absurd hpc hnew.1
  · rintro rfl
    exact hmark hp
  · rintro (rfl | rfl)
    · exact absurd hp hlook
    · exact absurd hp hclose

theorem Gate.call (h : Gate c) (ht : c.calls t = none) (op : Op) : Gate (c.goTo t (c.call op)) := by
  unfold Conn.call
  split
  · cases op with
    | asyncSend data => exact h.goOn ht (by simp) (by simp) (by simp)
    | kick => exact h.goOn ht (by simp) (by simp) (by simp)
    | connPoolDel => exact h.goOn ht (by simp) (by simp) (by simp)
  · exact h.goOn ht (by simp) (by simp) (by simp)

/-- A sender that stops waits no longer, whatever it leaves. -/
theorem Gate.sent (h : Gate c) {data : Slice} (ht : c.calls t = some (.send data)) : Gate (c.goTo t none) :=
  h.goOn ht (by simp) (by simp) (by simp)

/-- What stands at a close or a mark is the only one; once it has gone on, no other call
is on its way to close. -/
theorem Gate.closes_goTo (h : Gate c) {p p' : Pc} {pc : Option Pc} {t' : τ} (ht : c.calls t = some p) (hp : p.Closes)
    (hp' : (c.goTo t pc).calls t' = some p') :
    t' = t ∧ pc = some p' ∨ c.calls t' = some p' ∧ p' ≠ .close ∧ p' ≠ .mark := by
  rcases calls_goTo hp' with hself | ⟨hne, hother⟩
  · exact .inl hself
  · refine .inr ⟨hother, fun hclose => ?_, fun hmark => ?_⟩
    · exact hne (h.one t t' p p' ht hother hp (.inl hclose)).symm
    · exact hne (h.one t t' p p' ht hother hp (.inr hmark)).symm

theorem Gate.close_step (h : Gate c) (ht : c.calls t = some .close) (hsend : ∀ t data, c.calls t ≠ some (.send data)) :
    Gate { c.goTo t (some .mark) with closed := true, closes := c.closes + 1 } := by
  have hopen := h.close t ht
  have hother : ∀ {t' p}, (c.goTo t (some .mark)).calls t' = some p → _ := fun hp => h.closes_goTo ht (.inl rfl) hp
  constructor
  · simp [h.closes, hopen]
  · exact h.safe
  · intro t' data hp
    rcases hother hp with ⟨-, ⟨⟩⟩ | ⟨hp, -⟩
    exact absurd hp (hsend t' data)
  · intro t' hp
    rcases hother hp with ⟨-, ⟨⟩⟩ | ⟨-, hclose, -⟩
    exact absurd rfl hclose
  · exact fun _ _ => rfl
  · intro t₁ t₂ p₁ p₂ hp₁ hp₂ hc₁ hc₂
    rcases hother hp₁ with ⟨rfl, -⟩ | ⟨-, hclose, hmark⟩
    · rcases hother hp₂ with ⟨rfl, -⟩ | ⟨-, hclose, hmark⟩
      · rfl
      · exact (hc₂.elim hclose hmark).elim
    · exact (hc₁.elim hclose hmark).elim
  · exact fun _ => rfl
  · exact fun _ => .inr ⟨t, Function.update_self ..⟩
  · exact fun _ => .inl rfl

theorem Gate.mark_step (h : Gate c) (ht : c.calls t = some .mark) : Gate { c.goTo t none with iskick := true } := by
  have hclosed := h.mark t ht
  have hother : ∀ {t' p}, (c.goTo t none).calls t' = some p → c.calls t' = some p ∧ p ≠ .close ∧ p ≠ .mark := by
    intro t' p hp
    rcases h.closes_goTo ht (.inr rfl) hp with ⟨-, ⟨⟩⟩ | hp
    exact hp
  constructor
  · exact h.closes
  · exact h.safe
  · exact fun t' data hp => h.send t' data (hother hp).1
  · exact fun t' hp => absurd rfl (hother hp).2.1
  · exact fun _ _ => hclosed
  · intro t₁ t₂ p₁ p₂ hp₁ _ hc₁ _
    obtain ⟨-, hclose, hmark⟩ := hother hp₁
    exact (hc₁.elim hclose hmark).elim
  · exact fun _ => hclosed
  · exact fun _ => .inl rfl
  · exact fun _ => .inl hclosed

/-- A call keeps the order of what is accepted, and the gate. -/
theorem go_keeps {sendqMax : Nat} {pc : Pc} (hl : Line c) (h : Gate c) (ht : c.calls t = some pc)
    (hg : c.CallGuard pc) (hs : c.go sendqMax t pc = some c') : Line c' ∧ Gate c' := by
  cases pc with
  | sendLook data =>
    cases hs
    refine ⟨{ hl with }, h.goOn ht (by simp) (fun data' hpc => ?_) ?_⟩
    · split at hpc
      · cases hpc
      · rename_i hkick
        exact hg (Bool.eq_false_iff.mpr hkick)
    · split
      · simp
      · simp
  | send data =>
    have hopen := h.send t data ht
    have hsent := h.sent ht
    unfold Conn.go at hs
    dsimp only at hs
    rw [hopen] at hs
    split at hs
    · rename_i hclosed
      cases hclosed
    · split at hs
      · cases hs
        refine ⟨hl.accept (by simp) hl.single (fun hd => ?_) _, { hsent with }⟩
        rw [(hl.done hd).1] at hopen
        cases hopen
      · split at hs
        · rename_i hsendq hroutine
          cases hs
          have hsingle : (Routine.taken data).Single := trivial
          refine ⟨hl.accept ?_ hsingle (by rintro ⟨⟩) _, { hsent with }⟩
          change [data] ++ c.sendq = c.routine.hand ++ c.sendq ++ [data]
          rw [hsendq, hroutine]
          rfl
        · cases hs
  | delete =>
    cases hs
    have hlook : Gate (c.goTo t (some .look)) := h.goOn ht (by simp) (by simp) (by simp)
    exact ⟨{ hl with }, { hlook with gone := fun _ => .inr ⟨t, .inl (Function.update_self ..)⟩ }⟩
  | look =>
    cases hs
    refine ⟨{ hl with }, ?_⟩
    split
    · rename_i hkick
      refine h.goTo (fun p hp => ?_) (fun _ hpc => by cases hpc) (by rintro ⟨⟩) fun hpc => by cases hpc
      obtain rfl := Option.some.inj (ht.symm.trans hp)
      exact ⟨by rintro ⟨⟩, fun _ => .inl (h.kicked hkick)⟩
    · rename_i hkick
      have hnone := hg (Bool.eq_false_iff.mpr hkick)
      refine h.goTo (fun p hp => ?_) (fun _ hpc => by cases hpc) (by rintro ⟨⟩) fun _ => ⟨?_, ?_⟩
      · obtain rfl := Option.some.inj (ht.symm.trans hp)
        exact ⟨by rintro ⟨⟩, fun _ => .inr (.inr rfl)⟩
      · by_contra hclosed
        rcases h.marked (Bool.not_eq_false _ ▸ hclosed) with hk | ⟨t', ht'⟩
        · exact hkick hk
        · exact (hnone t').2 ht'
      · rintro t' p' hp' (rfl | rfl)
        · exact (hnone t').1 hp'
        · exact (hnone t').2 hp'
  | close =>
    have hopen := h.close t ht
    unfold Conn.go at hs
    dsimp only at hs
    rw [hopen] at hs
    cases hs
    exact ⟨{ hl with done := fun hd => ⟨rfl, (hl.done hd).2⟩ }, h.close_step ht hg⟩
  | mark =>
    cases hs
    exact ⟨{ hl with }, h.mark_step ht⟩

/-! ## Runs -/

structure Inv (c : Conn τ) : Prop extends Line c, Gate c

omit [DecidableEq τ] in
theorem Inv.init : Inv (init : Conn τ) where
  own mesg hmesg := by cases hmesg
  order := rfl
  single := trivial
  done hd := by cases hd
  closes := rfl
  safe := rfl
  send t data hp := by cases hp
  close t hp := by cases hp
  mark t hp := by cases hp
  one t t' pc pc' hp := by cases hp
  kicked hk := by cases hk
  marked hc := by cases hc
  gone hl := by cases hl

theorem Inv.step (h : Inv c) {sendqMax : Nat} {e : Event τ} (hg : c.Guard e) (hs : c.step sendqMax e = some c') :
    Inv c' := by
  cases e with
  | call t op =>
    unfold Conn.step at hs
    dsimp only at hs
    split at hs
    · rename_i ht
      cases hs
      exact { h.toLine, h.toGate.call ht op with }
    · cases hs
  | go t =>
    unfold Conn.step at hs
    dsimp only at hs
    split at hs
    · cases hs
    · rename_i pc ht
      obtain ⟨hline, hgate⟩ := go_keeps h.toLine h.toGate ht (hg pc ht) hs
      exact { hline, hgate with }
  | timeout t =>
    unfold Conn.step at hs
    dsimp only at hs
    split at hs
    · rename_i data ht
      cases hs
      exact { h.toLine, h.toGate.sent ht with }
    · cases hs
  | routine ok =>
    exact { h.toLine.sendRoutine hg hs, h.toGate.sendRoutine hs with }
  | tick ok =>
    unfold Conn.step at hs
    dsimp only at hs
    split at hs
    · rename_i hroutine
      cases hs
      have horder := h.order
      rw [hroutine] at horder
      rw [show ok = true from hg]
      exact { h with order := horder, single := trivial, done := fun hd => by cases hd }
    · cases hs

omit [DecidableEq τ] in
theorem Inv.sound (h : Inv c) : c.Sound where
  own := h.own
  order := ⟨_, h.order.symm⟩
  all hd := by
    have horder := h.order
    rw [hd, (h.done hd).2] at horder
    rw [horder]
    simpa [Routine.hand] using eq_map_flatten c.wrote h.own
  once := by
    rw [h.closes]
    split <;> omega
  ends hend hquiet := by
    have hclosed : c.closed = true := by
      rcases hend with hkick | hgone
      · exact h.kicked hkick
      · rcases h.gone hgone with hclosed | ⟨t, ht | ht⟩
        · exact hclosed
        · cases (hquiet t).symm.trans ht
        · cases (hquiet t).symm.trans ht
    rw [h.closes, if_pos hclosed]
  safe := h.safe

/-- In every run that keeps to the guard, each slice that is accepted is written as a message of its
own, and the channel is closed once. -/
theorem sends_apart (sendqMax : Nat) (es : List (Event τ)) (c : Conn τ)
    (hg : Guarded (fun c e => (c.step sendqMax e).getD c) Guard init es)
    (hrun : es.foldlM (Conn.step sendqMax) init = some c) : c.Sound :=
  (run_kept (Conn.step sendqMax) Guard Inv (fun _ _ _ h hok hs => h.step hok hs) es _ _ Inv.init hg hrun).sound

omit [DecidableEq τ] in
theorem guard_go {pc : Pc} (ht : c.calls t = some pc) (h : c.CallGuard pc) : c.Guard (.go t) := by
  intro p hp
  obtain rfl := Option.some.inj (ht.symm.trans hp)
  exact h

/-- A slice is sent, and another one while the first is written; then the connection is removed. -/
def sendsTwo : List (Event Bool) := [.call true (.asyncSend [1]), .go true, .go true, .routine true, .routine true,
  .routine true, .call true (.asyncSend [2]), .go true, .go true, .routine true, .routine true, .routine true,
  .routine true, .routine true, .call false .connPoolDel, .go false, .go false, .go false, .go false, .routine true]

theorem sends_apart_once : ∃ c, sendsTwo.foldlM (Conn.step 4) init = some c ∧ c.wrote = [[[1]], [[2]]] ∧ c.Sound := by
  obtain ⟨c, hc, hwrote⟩ := Option.map_eq_some_iff.mp
    (by decide : (sendsTwo.foldlM (Conn.step 4) init).map (·.wrote) = some [[[1]], [[2]]])
  refine ⟨c, hc, hwrote, sends_apart 4 sendsTwo c ?_ hc⟩
  refine ⟨trivial, guard_go rfl fun _ => rfl, guard_go rfl trivial, trivial, rfl, rfl, trivial,
    guard_go rfl fun _ => rfl, guard_go rfl trivial, rfl, trivial, rfl, rfl, rfl, trivial,
    guard_go rfl trivial, guard_go rfl fun _ t => ?_, guard_go rfl fun t data => ?_, guard_go rfl trivial, trivial,
    trivial⟩
  · cases t
    · exact ⟨by decide, by decide⟩
    · exact ⟨by decide, by decide⟩
  · cases t
    · rintro ⟨⟩
    · rintro ⟨⟩

/-- Two slices are in the queue when the routine comes for the first: they become one message. -/
theorem slices_merged : ¬∀ (sendqMax : Nat) (es : List (Event Nat)) (c : Conn Nat),
    es.foldlM (Conn.step sendqMax) init = some c → c.Sound := by
  intro hall
  let es : List (Event Nat) := [.call 0 (.asyncSend [1]), .go 0, .go 0, .call 0 (.asyncSend [2]), .go 0, .go 0,
    .routine true, .routine true, .routine true, .routine true, .routine true]
  obtain ⟨c, hc, hwrote⟩ := Option.map_eq_some_iff.mp
    (by decide : (es.foldlM (Conn.step 4) init).map (·.wrote) = some [[[1], [2]]])
  obtain ⟨data, hdata⟩ := (hall 4 es c hc).own [[1], [2]] (by simp [hwrote])
  cases hdata

end

end Conn

end BeehiveIm.Lws
