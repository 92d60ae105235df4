/-
The connection pool of the SEQSVR clients (`lib/thrift_pool/pool.go`) under concurrent calls. A step
is what one call does from one `Lock` to the `Unlock`, or one call of a callback between two such
sections; calls that stand at the same place with the same local variables are alike, so that the
calls are a multiset of places. A connection is its number, and each is given to `Put` by the one
who has it from `Get`. Left out: the errors answered.

What `active` counts, and that each connection is in one place. `Get` and `Put` count a
connection off in a section of its own, so that between two sections `active` also counts what
is in the hands of a call.
-/
import Mathlib.Data.Multiset.AddSub
import Mathlib.Data.Multiset.MapFold
import Mathlib.Algebra.BigOperators.Group.Multiset.Basic
import Mathlib.Data.Multiset.Count
import Mathlib.Tactic.Abel

namespace BeehiveIm.ThriftPool

abbrev Conn := Nat

/-- `idleConn` -/
structure IdleConn where
  c : Conn
  t : Int
  deriving DecidableEq

/-- `Pool`, the most recently used idle connection first. -/
structure Pool where
  maxIdle : Int
  maxActive : Int
  idleTimeout : Int
  closed : Bool
  active : Int
  idle : List IdleConn

/-- What a call is to do next. -/
inductive Pc where
  /-- `Get`: `p.Close` of a connection pruned, in round `i` of `n` -/
  | pruneClose (c : Conn) (i n : Nat)
  /-- `p.mu.Lock()`, and on with the pruning -/
  | prune (i n : Nat)
  /-- `test(ic.c, ic.t)` of a connection taken from the idle ones, in round `i` of `n` -/
  | test (ic : IdleConn) (i n : Nat)
  /-- `p.Close` of a connection that failed its test -/
  | testClose (c : Conn) (i n : Nat)
  /-- `p.mu.Lock()`, `p.active -= 1`, and on with the next round -/
  | testDec (i n : Nat)
  /-- `dial()` -/
  | dial
  /-- `p.active -= 1` after `dial` failed -/
  | dialDec
  /-- `Put`: `p.active -= 1` for a connection that is not kept -/
  | putDec (c : Conn)
  /-- `p.Close(c)` -/
  | putClose (c : Conn)
  /-- `Release`: the connections still to be closed -/
  | release (idle : List IdleConn)
  deriving DecidableEq

namespace Pool

/-- The rounds of `Get` that look for an idle connection, to the next `Unlock`, and where the call
then stands, if it has not returned. -/
def takeIdle (p : Pool) (i n : Nat) : Pool × Option Pc :=
  match if i < n then p.idle else [] with
  | ic :: idle => ({ p with idle := idle }, some (.test ic i n))
  | [] =>
    if p.maxActive > 0 ∧ p.active ≥ p.maxActive then (p, none)
    else ({ p with active := p.active + 1 }, some .dial)

/-- The rounds that prune stale connections. -/
def prune (p : Pool) (i n : Nat) (now : Int) : Pool × Option Pc :=
  match if i < n then p.idle.getLast? else none with
  | none => p.takeIdle 0 p.idle.length
  | some ic =>
    if ic.t + p.idleTimeout > now then p.takeIdle 0 p.idle.length
    else ({ p with idle := p.idle.dropLast, active := p.active - 1 }, some (.pruneClose ic.c i n))

/-- `Get` to its first `Unlock` -/
def get (p : Pool) (now : Int) : Pool × Option Pc :=
  if p.closed then (p, none)
  else if p.idleTimeout > 0 then p.prune 0 p.idle.length now
  else p.takeIdle 0 p.idle.length

/-- `Put` to its first `Unlock`; the connection that `forceClose` is to close has no section
before. -/
def put (p : Pool) (c : Conn) (forceClose : Bool) (now : Int) : Pool × Option Pc :=
  if forceClose then (p, some (.putDec c))
  else if p.closed then (p, some (.putDec c))
  else
    let idle := ⟨c, now⟩ :: p.idle
    if (idle.length : Int) > p.maxIdle then
      ({ p with idle := idle.dropLast }, some (.putDec (idle.getLast (List.cons_ne_nil _ _)).c))
    else ({ p with idle := idle }, none)

/-- `Release` to its `Unlock` -/
def release (p : Pool) : Pool × Option Pc :=
  ({ p with idle := [], closed := true, active := p.active - p.idle.length }, some (.release p.idle))

end Pool

/-- The pool and the calls under way. `borrowed` are the connections handed out and not
given to `Put` since, `closed` those closed, once for each time; `next` is the number
of the next one dialled. -/
structure World where
  pool : Pool
  calls : Multiset Pc
  borrowed : Multiset Conn
  closed : Multiset Conn
  next : Conn

/-- `more` is the next step of a call at `pc`; `ok` is what its callback answers. -/
inductive Act where
  | get (now : Int)
  | put (c : Conn) (forceClose : Bool) (now : Int)
  | release
  | more (pc : Pc) (ok : Bool) (now : Int)

namespace World

def init (maxIdle maxActive idleTimeout : Int) : World where
  pool := ⟨maxIdle, maxActive, idleTimeout, false, 0, []⟩
  calls := 0
  borrowed := 0
  closed := 0
  next := 0

/-- A section of a call leaves the pool so and gets to a place. -/
def lock (w : World) (r : Pool × Option Pc) : World :=
  { w with pool := r.1, calls := r.2.elim 0 (fun pc => {pc}) + w.calls }

def goto (w : World) (pc : Pc) : World := { w with calls := {pc} + w.calls }

def handOut (w : World) (c : Conn) : World := { w with borrowed := {c} + w.borrowed }

/-- `p.Close(c)` -/
def close (w : World) (c : Conn) : World := { w with closed := {c} + w.closed }

/-- `p.active -= 1` -/
def dec (w : World) : World := { w with pool := { w.pool with active := w.pool.active - 1 } }

/-- The next step of a call, which is no longer among `calls`. -/
def more (w : World) (ok : Bool) (now : Int) : Pc → World
  | .pruneClose c i n => (w.close c).goto (.prune (i + 1) n)
  | .prune i n => w.lock (w.pool.prune i n now)
  | .test ic i n => if ok then w.handOut ic.c else w.goto (.testClose ic.c i n)
  | .testClose c i n => (w.close c).goto (.testDec i n)
  | .testDec i n => w.dec.lock (w.dec.pool.takeIdle (i + 1) n)
  | .dial => if ok then { w.handOut w.next with next := w.next + 1 } else w.goto .dialDec
  | .dialDec => w.dec
  | .putDec c => w.dec.goto (.putClose c)
  | .putClose c => w.close c
  | .release [] => w
  | .release (ic :: idle) => (w.close ic.c).goto (.release idle)

def step (w : World) : Act → World
  | .get now => w.lock (w.pool.get now)
  | .put c forceClose now =>
    if c ∈ w.borrowed then { w with borrowed := w.borrowed.erase c }.lock (w.pool.put c forceClose now) else w
  | .release => w.lock w.pool.release
  | .more pc ok now => if pc ∈ w.calls then { w with calls := w.calls.erase pc }.more ok now pc else w

def run (w : World) (acts : List Act) : World := acts.foldl step w

end World

/-- The connections in the hands of a call. -/
def Pc.held : Pc → Multiset Conn
  | .pruneClose c _ _ => {c}
  | .test ic _ _ => {ic.c}
  | .testClose c _ _ => {c}
  | .putDec c => {c}
  | .putClose c => {c}
  | .release idle => (idle.map IdleConn.c : List Conn)
  | _ => 0

/-- Whether a call that is not dialling has something still to count off or to hand out. -/
def Pc.inHand : Pc → Bool
  | .test _ _ _ => true
  | .testClose _ _ _ => true
  | .testDec _ _ => true
  | .dialDec => true
  | .putDec _ => true
  | _ => false

/-- What a call is counted for. -/
def Pc.counted (pc : Pc) : Nat := if pc = .dial ∨ pc.inHand = true then 1 else 0

/-- The connections in the hands of the calls. -/
def heldIn (calls : Multiset Pc) : Multiset Conn := (calls.map Pc.held).sum

/-- What the calls are counted for. -/
def countedIn (calls : Multiset Pc) : Nat := (calls.map Pc.counted).sum

@[simp] theorem heldIn_add (pc : Pc) (calls : Multiset Pc) : heldIn ({pc} + calls) = pc.held + heldIn calls := by
  simp [heldIn]

@[simp] theorem countedIn_add (pc : Pc) (calls : Multiset Pc) :
    countedIn ({pc} + calls) = pc.counted + countedIn calls := by
  simp [countedIn]

/-- The numbers of the idle connections. -/
def Pool.conns (p : Pool) : Multiset Conn := (p.idle.map IdleConn.c : List Conn)

namespace World

/-- All connections, each as often as there are places it is in. -/
def places (w : World) : Multiset Conn := w.pool.conns + w.borrowed + heldIn w.calls + w.closed

/-- The calls that are dialling. -/
def dialling (w : World) : Nat := w.calls.count .dial

/-- The calls with a connection to count off, or one taken from the idle ones to hand out. -/
def inHand (w : World) : Nat := w.calls.countP fun pc => pc.inHand = true

end World

/-! ## Sections -/

/-- A section of a call that has `before` in hand and is counted for `n` leaves it at `r.2`. -/
structure Section (p : Pool) (before : Multiset Conn) (n : Nat) (r : Pool × Option Pc) : Prop where
  conns : r.1.conns + r.2.elim 0 Pc.held = p.conns + before
  active : r.1.active - r.1.idle.length - (r.2.elim 0 Pc.counted : Nat) = p.active - p.idle.length - n
  limit : 0 < p.maxActive → p.active ≤ p.maxActive → r.1.active ≤ p.maxActive
  maxActive : r.1.maxActive = p.maxActive

theorem takeIdle_section (p : Pool) (i n : Nat) : Section p 0 0 (p.takeIdle i n) := by
  unfold Pool.takeIdle
  split
  · rename_i ic idle h
    have hidle : p.idle = ic :: idle := by
      split at h
      · exact h
      · cases h
    refine ⟨?_, ?_, fun _ h => h, rfl⟩
    · simp only [Pool.conns, hidle, Option.elim_some, Pc.held, List.map_cons, ← Multiset.cons_coe,
        ← Multiset.singleton_add]
      abel
    · simp [hidle, Pc.counted, Pc.inHand]
      omega
  · split
    · exact ⟨by simp, by simp, fun _ h => h, rfl⟩
    · rename_i hmax
      refine ⟨by simp [Pool.conns, Pc.held], ?_, fun h0 _ => ?_, rfl⟩
      · simp [Pc.counted]
        omega
      · show p.active + 1 ≤ p.maxActive
        omega

theorem prune_section (p : Pool) (i n : Nat) (now : Int) : Section p 0 0 (p.prune i n now) := by
  unfold Pool.prune
  split
  · exact takeIdle_section p 0 _
  split
  · exact takeIdle_section p 0 _
  rename_i ic h _
  have hidle : p.idle = p.idle.dropLast ++ [ic] := by
    split at h
    · obtain ⟨l, hl⟩ := List.getLast?_eq_some_iff.1 h
      rw [hl, List.dropLast_concat]
    · cases h
  have hlen : p.idle.length = p.idle.dropLast.length + 1 := by
    conv_lhs => rw [hidle]
    simp
  refine ⟨?_, ?_, fun _ _ => ?_, rfl⟩
  · have hconns : p.conns = (p.idle.dropLast.map IdleConn.c : List Conn) + {ic.c} := by
      conv_lhs => rw [Pool.conns, hidle, List.map_append, ← Multiset.coe_add]
      rfl
    rw [hconns]
    simp [Pool.conns, Pc.held]
  · have hcount : Pc.counted (.pruneClose ic.c i n) = 0 := rfl
    simp only [Option.elim_some, hcount]
    omega
  · show p.active - 1 ≤ p.maxActive
    omega

theorem get_section (p : Pool) (now : Int) : Section p 0 0 (p.get now) := by
  unfold Pool.get
  split
  · exact ⟨by simp, by simp, fun _ h => h, rfl⟩
  split
  · exact prune_section p 0 _ now
  · exact takeIdle_section p 0 _

theorem put_section (p : Pool) (c : Conn) (forceClose : Bool) (now : Int) :
    Section p {c} 1 (p.put c forceClose now) := by
  unfold Pool.put
  have hno : Section p {c} 1 (p, some (.putDec c)) :=
    ⟨rfl, by simp [Pc.counted, Pc.inHand], fun _ h => h, rfl⟩
  split
  · exact hno
  split
  · exact hno
  simp only
  split
  · have hsplit : (⟨c, now⟩ : IdleConn) :: p.idle =
        ((⟨c, now⟩ : IdleConn) :: p.idle).dropLast ++ [(⟨c, now⟩ :: p.idle).getLast (List.cons_ne_nil _ _)] :=
      (List.dropLast_append_getLast _).symm
    refine ⟨?_, ?_, fun _ h => h, rfl⟩
    · have hconns := congrArg (fun l : List IdleConn => ((l.map IdleConn.c : List Conn) : Multiset Conn)) hsplit
      simp only [List.map_append, List.map_cons, List.map_nil, ← Multiset.coe_add, Multiset.coe_singleton] at hconns
      simp only [Pool.conns, Option.elim_some, Pc.held]
      rw [← hconns, ← Multiset.cons_coe, ← Multiset.singleton_add, add_comm]
    · simp [Pc.counted, Pc.inHand]
  · refine ⟨?_, ?_, fun _ h => h, rfl⟩
    · simp only [Pool.conns, Option.elim_none, List.map_cons, ← Multiset.cons_coe, ← Multiset.singleton_add]
      abel
    · simp
      omega

theorem release_section (p : Pool) : Section p 0 0 p.release := by
  refine ⟨?_, ?_, fun _ h => ?_, rfl⟩
  · simp [Pool.release, Pool.conns, Pc.held]
  · simp [Pool.release, Pc.counted, Pc.inHand]
  · show p.active - p.idle.length ≤ p.maxActive
    omega

/-! ## Steps -/

/-- Each connection is in one place, and the counter is right. -/
structure Inv (w : World) : Prop where
  once : w.places.Nodup
  old : ∀ c ∈ w.places, c < w.next
  active : w.pool.active = w.pool.idle.length + w.borrowed.card + countedIn w.calls
  limit : 0 < w.pool.maxActive → w.pool.active ≤ w.pool.maxActive

variable {w : World}

/-- A step that moves connections from one place to another. -/
theorem Inv.of_eq {w' : World} (h : Inv w) (hplaces : w'.places = w.places) (hnext : w'.next = w.next)
    (hactive : w'.pool.active - w'.pool.idle.length - w'.borrowed.card - countedIn w'.calls =
      w.pool.active - w.pool.idle.length - w.borrowed.card - countedIn w.calls)
    (hlimit : 0 < w'.pool.maxActive → w'.pool.active ≤ w'.pool.maxActive) : Inv w' where
  once := hplaces ▸ h.once
  old := by rw [hplaces, hnext]; exact h.old
  active := by have := h.active; omega
  limit := hlimit

/-- A section of a call that has `before` in hand, which is counted for `n`. -/
theorem Inv.lock {w₀ : World} {before : Multiset Conn} {n : Nat} {r : Pool × Option Pc} (h : Inv w₀)
    (hs : Section w.pool before n r)
    (hplaces : w.places + before = w₀.places) (hnext : w.next = w₀.next)
    (hactive : w.pool.active - w.pool.idle.length - w.borrowed.card - countedIn w.calls - n =
      w₀.pool.active - w₀.pool.idle.length - w₀.borrowed.card - countedIn w₀.calls)
    (hlimit : 0 < w.pool.maxActive → w.pool.active ≤ w.pool.maxActive) : Inv (w.lock r) := by
  refine h.of_eq ?_ hnext ?_ fun h0 => ?_
  · rw [← hplaces]
    have hheld : heldIn (r.2.elim 0 (fun pc => {pc}) + w.calls) = r.2.elim 0 Pc.held + heldIn w.calls := by
      cases r.2 with
      | none => rw [Option.elim_none, Option.elim_none, zero_add, zero_add]
      | some pc => exact heldIn_add pc w.calls
    simp only [World.places, World.lock, hheld]
    calc r.1.conns + w.borrowed + (r.2.elim 0 Pc.held + heldIn w.calls) + w.closed
        = r.1.conns + r.2.elim 0 Pc.held + (w.borrowed + heldIn w.calls + w.closed) := by abel
      _ = w.pool.conns + before + (w.borrowed + heldIn w.calls + w.closed) := by rw [hs.conns]
      _ = w.pool.conns + w.borrowed + heldIn w.calls + w.closed + before := by abel
  · have hcounted : countedIn (r.2.elim 0 (fun pc => {pc}) + w.calls) = r.2.elim 0 Pc.counted + countedIn w.calls := by
      cases r.2 with
      | none => rw [Option.elim_none, Option.elim_none, zero_add, zero_add]
      | some pc => exact countedIn_add pc w.calls
    simp only [World.lock, hcounted]
    have := hs.active
    omega
  · have hmax : r.1.maxActive = w.pool.maxActive := hs.maxActive
    have h0 : 0 < w.pool.maxActive := hmax ▸ h0
    show r.1.active ≤ r.1.maxActive
    rw [hmax]
    exact hs.limit h0 (hlimit h0)

/-- A connection is dialled and handed out. -/
theorem Inv.dialled (h : Inv w) {rest : Multiset Pc} (hcalls : w.calls = {Pc.dial} + rest) :
    Inv { w with calls := rest, borrowed := {w.next} + w.borrowed, next := w.next + 1 } := by
  have hplaces : World.places { w with calls := rest, borrowed := {w.next} + w.borrowed, next := w.next + 1 } =
      w.next ::ₘ w.places := by
    simp only [World.places, hcalls, heldIn_add, Pc.held, ← Multiset.singleton_add]
    abel
  refine ⟨?_, ?_, ?_, h.limit⟩
  · rw [hplaces, Multiset.nodup_cons]
    exact ⟨fun hmem => Nat.lt_irrefl _ (h.old _ hmem), h.once⟩
  · rw [hplaces]
    intro c hc
    rcases Multiset.mem_cons.1 hc with rfl | hc
    · exact Nat.lt_succ_self _
    · exact Nat.lt_succ_of_lt (h.old c hc)
  · have hactive := h.active
    have hone : Pc.counted .dial = 1 := rfl
    simp only [hcalls, countedIn_add, hone] at hactive
    simp only [Multiset.card_add, Multiset.card_singleton]
    omega

theorem Inv.more (h : Inv w) {pc : Pc} {rest : Multiset Pc} (hcalls : w.calls = {pc} + rest) (ok : Bool) (now : Int) :
    Inv ({ w with calls := rest }.more ok now pc) := by
  have hheld : heldIn w.calls = pc.held + heldIn rest := by rw [hcalls, heldIn_add]
  have hcounted : countedIn w.calls = pc.counted + countedIn rest := by rw [hcalls, countedIn_add]
  -- the place the call leaves, and what is in hand there
  have hplaces : World.places { w with calls := rest } + pc.held = w.places := by
    simp only [World.places, hheld]
    abel
  have hgoto : ∀ pc' : Pc, pc'.held = pc.held → pc'.counted = pc.counted → Inv ({ w with calls := rest }.goto pc') := by
    intro pc' hh hc
    refine h.of_eq ?_ rfl ?_ h.limit
    · simp only [World.places, World.goto, heldIn_add, hheld, hh]
    · simp only [World.goto, countedIn_add, hcounted, hc]
  have hclose : ∀ (c : Conn) (pc' : Pc), pc.held = {c} + pc'.held → pc'.counted = pc.counted →
      Inv (({ w with calls := rest }.close c).goto pc') := by
    intro c pc' hh hc
    refine h.of_eq ?_ rfl ?_ h.limit
    · simp only [World.places, World.goto, World.close, hheld, hh, heldIn_add]
      abel
    · simp only [World.goto, World.close, countedIn_add, hcounted, hc]
  have hdec : 0 < w.pool.maxActive → w.pool.active - 1 ≤ w.pool.maxActive := fun h0 => by
    have := h.limit h0
    omega
  cases pc with
  | pruneClose c i n => exact hclose c _ rfl rfl
  | prune i n =>
    refine h.lock (prune_section _ i n now) hplaces rfl ?_ h.limit
    have h0 : Pc.counted (.prune i n) = 0 := rfl
    simp only [hcounted, h0]
    omega
  | test ic i n =>
    cases ok with
    | true =>
      refine h.of_eq ?_ rfl ?_ h.limit
      · rw [← hplaces]
        simp only [World.more, if_true, World.places, World.handOut, Pc.held]
        abel
      · have h1 : Pc.counted (.test ic i n) = 1 := rfl
        simp only [World.more, if_true, World.handOut, hcounted, h1, Multiset.card_add, Multiset.card_singleton]
        omega
    | false => exact hgoto _ rfl rfl
  | testClose c i n => exact hclose c _ rfl rfl
  | testDec i n =>
    refine h.lock (takeIdle_section _ (i + 1) n) hplaces rfl ?_ hdec
    have h1 : Pc.counted (.testDec i n) = 1 := rfl
    simp only [World.dec, hcounted, h1]
    omega
  | dial =>
    cases ok with
    | true => exact h.dialled hcalls
    | false => exact hgoto _ rfl rfl
  | dialDec =>
    refine h.of_eq (by rw [← hplaces]; exact (add_zero _).symm) rfl ?_ hdec
    have h1 : Pc.counted .dialDec = 1 := rfl
    simp only [World.more, World.dec, hcounted, h1]
    omega
  | putDec c =>
    refine h.of_eq ?_ rfl ?_ hdec
    · rw [← hplaces]
      simp only [World.more, World.dec, World.places, World.goto, Pool.conns, heldIn_add, Pc.held]
      abel
    · have h1 : Pc.counted (.putDec c) = 1 := rfl
      have h0 : Pc.counted (.putClose c) = 0 := rfl
      simp only [World.more, World.dec, World.goto, countedIn_add, hcounted, h1, h0]
      omega
  | putClose c =>
    refine h.of_eq ?_ rfl ?_ h.limit
    · rw [← hplaces]
      simp only [World.more, World.close, World.places, Pc.held]
      abel
    · have h0 : Pc.counted (.putClose c) = 0 := rfl
      simp only [World.more, World.close, hcounted, h0]
      omega
  | release idle =>
    cases idle with
    | nil =>
      refine h.of_eq (by rw [← hplaces]; exact (add_zero _).symm) rfl ?_ h.limit
      have h0 : Pc.counted (.release []) = 0 := rfl
      simp only [World.more, hcounted, h0]
      omega
    | cons ic idle => exact hclose ic.c _ rfl rfl

theorem Inv.step (h : Inv w) (act : Act) : Inv (w.step act) := by
  cases act with
  | get now => exact h.lock (get_section _ now) (add_zero _) rfl (by omega) h.limit
  | put c forceClose now =>
    unfold World.step
    simp only
    split
    · rename_i hc
      have hborrowed : w.borrowed = {c} + w.borrowed.erase c := by
        rw [Multiset.singleton_add, Multiset.cons_erase hc]
      refine h.lock (put_section _ c forceClose now) ?_ rfl ?_ h.limit
      · show w.pool.conns + w.borrowed.erase c + heldIn w.calls + w.closed + {c} = w.places
        rw [World.places, hborrowed, Multiset.erase_add_left_pos _ (Multiset.mem_singleton_self c),
          Multiset.erase_singleton]
        abel
      · have hcard : w.borrowed.card = (w.borrowed.erase c).card + 1 := by
          conv_lhs => rw [hborrowed]
          rw [Multiset.card_add, Multiset.card_singleton, add_comm]
        simp only [hcard]
        omega
    · exact h
  | release => exact h.lock (release_section _) (add_zero _) rfl (by omega) h.limit
  | more pc ok now =>
    unfold World.step
    simp only
    split
    · rename_i hpc
      exact h.more (by rw [Multiset.singleton_add, Multiset.cons_erase hpc]) ok now
    · exact h

/-- No step changes the limit. -/
theorem step_maxActive (w : World) (act : Act) : (w.step act).pool.maxActive = w.pool.maxActive := by
  cases act with
  | get now => exact (get_section _ now).maxActive
  | put c forceClose now =>
    unfold World.step
    simp only
    split
    · exact (put_section _ c forceClose now).maxActive
    · rfl
  | release => rfl
  | more pc ok now =>
    unfold World.step
    simp only
    split
    · cases pc with
      | prune i n => exact (prune_section _ i n now).maxActive
      | testDec i n => exact (takeIdle_section _ (i + 1) n).maxActive
      | test ic i n => cases ok <;> rfl
      | dial => cases ok <;> rfl
      | release idle => cases idle <;> rfl
      | _ => rfl
    · rfl

theorem run_maxActive (acts : List Act) : ∀ w : World, (w.run acts).pool.maxActive = w.pool.maxActive := by
  induction acts with
  | nil => exact fun _ => rfl
  | cons act acts ih => exact fun w => (ih (w.step act)).trans (step_maxActive w act)

theorem countedIn_eq (calls : Multiset Pc) :
    countedIn calls = calls.count .dial + calls.countP fun pc => pc.inHand = true := by
  induction calls using Multiset.induction with
  | empty => rfl
  | cons pc calls ih =>
    rw [← Multiset.singleton_add, countedIn_add, ih, Multiset.singleton_add, Multiset.count_cons, Multiset.countP_cons]
    have hone : pc.counted = (if Pc.dial = pc then 1 else 0) + if pc.inHand = true then 1 else 0 := by
      cases pc <;> rfl
    omega

theorem Inv.run (acts : List Act) : ∀ {w : World}, Inv w → Inv (w.run acts) := by
  induction acts with
  | nil => exact fun h => h
  | cons act acts ih => exact fun h => ih (h.step act)

theorem init_inv (maxIdle maxActive idleTimeout : Int) : Inv (.init maxIdle maxActive idleTimeout) where
  once := Multiset.nodup_zero
  old := fun c hc => absurd hc (Multiset.notMem_zero c)
  active := rfl
  limit := fun h => h.le

/-- In every run `active` is the number of the idle connections, of the borrowed ones, of those
being dialled and of those in the hands of a call that are still to be counted off or handed out,
and is within the limit; no connection is closed twice, and none that is closed is handed out. -/
theorem pool_run_correct (maxIdle maxActive idleTimeout : Int) (acts : List Act) :
    let w := (World.init maxIdle maxActive idleTimeout).run acts
    w.pool.active = w.pool.idle.length + w.borrowed.card + w.dialling + w.inHand ∧
      (0 < maxActive → w.pool.active ≤ maxActive) ∧ w.closed.Nodup ∧ w.borrowed.Nodup ∧
      ∀ c ∈ w.borrowed, c ∉ w.closed ∧ c ∉ w.pool.conns := by
  intro w
  have h : Inv w := (init_inv maxIdle maxActive idleTimeout).run acts
  have hactive := h.active
  rw [countedIn_eq] at hactive
  have honce := h.once
  rw [World.places, Multiset.nodup_add, Multiset.nodup_add, Multiset.nodup_add] at honce
  obtain ⟨⟨⟨-, hborrowed, hidle⟩, -, -⟩, hclosed, hdisjoint⟩ := honce
  have hmax : w.pool.maxActive = maxActive := run_maxActive acts _
  refine ⟨?_, fun h0 => hmax ▸ h.limit (hmax.symm ▸ h0), hclosed, hborrowed,
    fun c hc => ⟨fun hmem => ?_, fun hmem => ?_⟩⟩
  · rw [hactive, World.dialling, World.inHand]
    omega
  · refine Multiset.disjoint_left.1 hdisjoint ?_ hmem
    exact Multiset.mem_add.2 (.inl (Multiset.mem_add.2 (.inr hc)))
  · exact Multiset.disjoint_left.1 hidle hmem hc

/-- A connection that `Put` is to close is counted until the section that counts it off. -/
theorem put_counts_connection : ¬∀ (maxIdle maxActive idleTimeout : Int) (acts : List Act),
    let w := (World.init maxIdle maxActive idleTimeout).run acts
    w.pool.active = w.pool.idle.length + w.borrowed.card + w.dialling := by
  intro h
  exact absurd (h 1 0 0 [.get 0, .more .dial true 0, .put 0 true 0]) (by decide)

end BeehiveIm.ThriftPool
