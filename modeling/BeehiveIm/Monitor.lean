/-
The listeners as the monitor has them (`exec/monitor/controllers/mesg.go`): the address of each node
and the node of each address. A report is handled as a program of Redis commands; its pipeline goes
out when the handler returns, and Redis carries it out command by command. Commands do not fail, and
what goes into other keys and fields, which no report reads, is left out.

The registry of the listeners under reports that are handled at once. An entry is never changed, so
two that contradict each other stay; as long as none is written that does, whatever one map still
lacks of the other is owed by a report in flight.
-/
import BeehiveIm.Lib.Prog
import Mathlib.Data.Option.Basic
import Mathlib.Tactic.Push

namespace BeehiveIm.Monitor

open BeehiveIm.Lib

/-- What is read of a `MesgLsndInfo`. -/
structure MesgLsndInfo where
  nid : BitVec 32
  nation : String
  ip : String
  port : BitVec 32

/-- `IM_FMT_IP_PORT_STR` -/
def MesgLsndInfo.addr (req : MesgLsndInfo) : String := req.ip ++ ":" ++ toString req.port.toNat

/-- A LSND-INFO, with the node of its header. -/
structure Packet where
  nid : BitVec 32
  body : Except String MesgLsndInfo

/-- The field `ATTR` of `im:lsnd:nid:%d:attr`, and `im:lsnd:addr:to:nid`. -/
structure Store where
  nidToAddr : BitVec 32 → Option String
  addrToNid : String → Option (BitVec 32)

def Store.empty : Store := ⟨fun _ => none, fun _ => none⟩

/-! ## Commands -/

inductive Cmd where
  | hexistsAddr (addr : String)
  | hgetAddr (addr : String)
  | hexistsNid (nid : BitVec 32)
  | hgetNid (nid : BitVec 32)
  | hsetnxNid (nid : BitVec 32) (addr : String)
  | hsetnxAddr (addr : String) (nid : BitVec 32)

abbrev Cmd.Reply : Cmd → Type
  | .hexistsAddr _ | .hexistsNid _ => Bool
  | .hgetAddr _ => Option (BitVec 32)
  | .hgetNid _ => Option String
  | _ => Unit

/-- `HSETNX` -/
def setnx {κ β : Type} [DecidableEq κ] (f : κ → Option β) (key : κ) (b : β) : κ → Option β :=
  match f key with
  | none => Function.update f key (some b)
  | some _ => f

def exec : (c : Cmd) → Store → c.Reply × Store
  | .hexistsAddr addr, s => ((s.addrToNid addr).isSome, s)
  | .hgetAddr addr, s => (s.addrToNid addr, s)
  | .hexistsNid nid, s => ((s.nidToAddr nid).isSome, s)
  | .hgetNid nid, s => (s.nidToAddr nid, s)
  | .hsetnxNid nid addr, s => ((), { s with nidToAddr := setnx s.nidToAddr nid addr })
  | .hsetnxAddr addr nid, s => ((), { s with addrToNid := setnx s.addrToNid addr nid })

abbrev Redis := Prog Cmd.Reply

/-- `Do`, and `Send` in a pipeline. -/
def redo (c : Cmd) : Redis c.Reply := .issue c .ret

/-! ## Reports -/

/-- `lsnd_info_isvalid` -/
def lsndInfoIsvalid (req : MesgLsndInfo) : Bool := req.nid ≠ 0 ∧ req.port ≠ 0 ∧ req.nation ≠ "" ∧ req.ip ≠ ""

/-- `lsnd_info_parse` -/
def lsndInfoParse (p : Packet) : Option MesgLsndInfo :=
  if p.nid = 0 then none
  else
    match p.body with
    | .error _ => none
    | .ok req => if lsndInfoIsvalid req then some req else none

/-- The second half of `lsnd_info_has_conflict` -/
def nidHasConflict (req : MesgLsndInfo) : Redis (Except String Bool) := do
  if ← redo (.hexistsNid req.nid) then
    match ← redo (.hgetNid req.nid) with
    | none => return .error "redigo: nil returned"
    | some addr => return .ok (addr ≠ req.addr)
  else return .ok false

/-- `lsnd_info_has_conflict` -/
def lsndInfoHasConflict (req : MesgLsndInfo) : Redis (Except String Bool) := do
  if ← redo (.hexistsAddr req.addr) then
    match ← redo (.hgetAddr req.addr) with
    | none => return .error "redigo: nil returned"
    | some nid => if nid ≠ req.nid then return .ok true else nidHasConflict req
  else nidHasConflict req

/-- The pipeline of a report -/
def register (nid : BitVec 32) (addr : String) : Redis Unit := do
  redo (.hsetnxNid nid addr)
  redo (.hsetnxAddr addr nid)

/-- `lsnd_info_handler` -/
def lsndInfoHandler (req : MesgLsndInfo) : Redis Unit := do
  match ← lsndInfoHasConflict req with
  | .error _ => return ()
  | .ok has => if has then return () else register req.nid req.addr

/-- `MonLsndInfoHandler` -/
def monLsndInfoHandler (p : Packet) : Redis Unit :=
  match lsndInfoParse p with
  | none => return ()
  | some req => lsndInfoHandler req

/-- The registry, and the reports that are being handled. -/
abbrev Reports (τ : Type) := Pool Cmd.Reply Store τ Unit

/-- The two maps are inverse to each other. -/
def Store.Inverse (s : Store) : Prop := ∀ nid addr, s.nidToAddr nid = some addr ↔ s.addrToNid addr = some nid

/-- What a command would write contradicts nothing: a node gets an address that is not another's,
and an address does not get a node that has another. -/
def Store.Clear (s : Store) : Cmd → Prop
  | .hsetnxNid nid addr => s.nidToAddr nid = none →
      (∀ nid', s.addrToNid addr = some nid' → nid' = nid) ∧ ∀ nid', s.nidToAddr nid' ≠ some addr
  | .hsetnxAddr addr nid => s.addrToNid addr = none → ∀ addr', s.nidToAddr nid = some addr' → addr' = addr
  | _ => True

/-- A step whose command, if it carries one out, is clear. -/
def Fine {τ : Type} (w : Reports τ) (o : τ × Act Packet) : Prop :=
  o.2 = .go → ∀ c k, w.calls o.1 = some (.issue c k) → w.store.Clear c

/-! ## The registry -/

theorem setnx_eq_some {κ β : Type} [DecidableEq κ] {f : κ → Option β} {key k : κ} {b b' : β} :
    setnx f key b k = some b' ↔ f k = some b' ∨ f key = none ∧ k = key ∧ b' = b := by
  unfold setnx
  cases h : f key with
  | none =>
    by_cases hk : k = key
    · subst hk
      simp [h, eq_comm]
    · simp [hk]
  | some _ => simp

variable {τ : Type} {s s' : Store} {c : Cmd}

/-! ## What has gone wrong stays wrong -/

/-- Two entries that cannot both stand. -/
def Store.Broken (s : Store) : Prop :=
  (∃ nid nid' addr, s.nidToAddr nid = some addr ∧ s.addrToNid addr = some nid' ∧ nid' ≠ nid) ∨
  (∃ nid addr addr', s.addrToNid addr = some nid ∧ s.nidToAddr nid = some addr' ∧ addr' ≠ addr) ∨
  ∃ nid nid' addr, s.nidToAddr nid = some addr ∧ s.nidToAddr nid' = some addr ∧ nid' ≠ nid

theorem Store.Broken.not_inverse (h : s.Broken) : ¬s.Inverse := by
  intro hinv
  rcases h with ⟨nid, nid', addr, hnid, haddr, hne⟩ | ⟨nid, addr, addr', haddr, hnid, hne⟩ |
    ⟨nid, nid', addr, hnid, hnid', hne⟩
  · exact hne (Option.some.inj (haddr.symm.trans ((hinv nid addr).1 hnid)))
  · exact hne (Option.some.inj (hnid.symm.trans ((hinv nid addr).2 haddr)))
  · exact hne (Option.some.inj (((hinv nid' addr).1 hnid').symm.trans ((hinv nid addr).1 hnid)))

/-- No entry is ever changed. -/
structure Store.Grows (s s' : Store) : Prop where
  nidToAddr : ∀ nid addr, s.nidToAddr nid = some addr → s'.nidToAddr nid = some addr
  addrToNid : ∀ addr nid, s.addrToNid addr = some nid → s'.addrToNid addr = some nid

theorem Store.Broken.grows (hs : s.Broken) (h : s.Grows s') : s'.Broken := by
  rcases hs with ⟨nid, nid', addr, hnid, haddr, hne⟩ | ⟨nid, addr, addr', haddr, hnid, hne⟩ |
    ⟨nid, nid', addr, hnid, hnid', hne⟩
  · exact .inl ⟨nid, nid', addr, h.nidToAddr _ _ hnid, h.addrToNid _ _ haddr, hne⟩
  · exact .inr (.inl ⟨nid, addr, addr', h.addrToNid _ _ haddr, h.nidToAddr _ _ hnid, hne⟩)
  · exact .inr (.inr ⟨nid, nid', addr, h.nidToAddr _ _ hnid, h.nidToAddr _ _ hnid', hne⟩)

theorem exec_grows (c : Cmd) (s : Store) : s.Grows (exec c s).2 := by
  cases c with
  | hsetnxNid nid addr => exact ⟨fun _ _ h => setnx_eq_some.2 (.inl h), fun _ _ h => h⟩
  | hsetnxAddr addr nid => exact ⟨fun _ _ h => h, fun _ _ h => setnx_eq_some.2 (.inl h)⟩
  | _ => exact ⟨fun _ _ h => h, fun _ _ h => h⟩

/-- A command that is not clear breaks the maps. -/
theorem exec_broken (h : ¬s.Clear c) : (exec c s).2.Broken := by
  have hgrows := exec_grows c s
  cases c with
  | hsetnxNid nid addr =>
    unfold Store.Clear at h
    push Not at h
    obtain ⟨hnone, h⟩ := h
    have hnew : (exec (.hsetnxNid nid addr) s).2.nidToAddr nid = some addr := setnx_eq_some.2 (.inr ⟨hnone, rfl, rfl⟩)
    by_cases hother : ∃ nid', s.addrToNid addr = some nid' ∧ nid' ≠ nid
    · obtain ⟨nid', haddr, hne⟩ := hother
      exact .inl ⟨nid, nid', addr, hnew, haddr, hne⟩
    · push Not at hother
      obtain ⟨nid', hnid'⟩ := h hother
      refine .inr (.inr ⟨nid, nid', addr, hnew, hgrows.nidToAddr _ _ hnid', ?_⟩)
      rintro rfl
      cases hnone.symm.trans hnid'
  | hsetnxAddr addr nid =>
    unfold Store.Clear at h
    push Not at h
    obtain ⟨hnone, addr', hnid, hne⟩ := h
    exact .inr (.inl ⟨nid, addr, addr', setnx_eq_some.2 (.inr ⟨hnone, rfl, rfl⟩), hgrows.nidToAddr _ _ hnid, hne⟩)
  | _ => exact absurd trivial h

variable [DecidableEq τ] {w : Reports τ}

theorem next_grows (w : Reports τ) (o : τ × Act Packet) :
    w.store.Grows (Pool.next exec monLsndInfoHandler w o).store := by
  have hrefl : w.store.Grows w.store := ⟨fun _ _ h => h, fun _ _ h => h⟩
  rcases Pool.next_cases exec monLsndInfoHandler w o with h | ⟨_, -, h⟩ | ⟨_, -, h⟩ | ⟨c, _, -, -, h⟩
  · rw [h]
    exact hrefl
  · rw [h]
    exact hrefl
  · rw [h]
    exact hrefl
  · rw [h]
    exact exec_grows c w.store

theorem next_broken {o : τ × Act Packet} (h : ¬Fine w o) : (Pool.next exec monLsndInfoHandler w o).store.Broken := by
  obtain ⟨t, act⟩ := o
  unfold Fine at h
  push Not at h
  obtain ⟨rfl, c, k, hcall, hclear⟩ := h
  unfold Pool.next
  rw [Pool.step_issue hcall]
  exact exec_broken hclear

theorem run_broken : ∀ (ops : List (τ × Act Packet)) (w : Reports τ), w.store.Broken ∨
    ¬Guarded (Pool.next exec monLsndInfoHandler) Fine w ops →
    (ops.foldl (Pool.next exec monLsndInfoHandler) w).store.Broken
  | [], _, h => h.resolve_right (not_not.2 trivial)
  | o :: ops, w, h => by
    refine run_broken ops _ ?_
    rcases h with h | h
    · exact .inl (h.grows (next_grows w o))
    · by_cases hfine : Fine w o
      · exact .inr fun hrest => h ⟨hfine, hrest⟩
      · exact .inl (next_broken hfine)

/-! ## What holds while all goes well -/

variable {α β : Type} {nid : BitVec 32} {addr : String}

/-- The next command of a program writes the node for the address. -/
def Due (addr : String) (nid : BitVec 32) (p : Redis α) : Prop := ∃ k, p = .issue (.hsetnxAddr addr nid) k

/-- A program writes a node for an address just after it has written the address for the node. -/
def Registers : Redis Unit → Prop
  | .ret _ => True
  | .issue c k => ∀ r, Registers (k r) ∧ ∀ addr nid, Due addr nid (k r) ↔ c = .hsetnxNid nid addr

/-- One that has written nothing yet. -/
def Fresh (p : Redis Unit) : Prop := Registers p ∧ ∀ addr nid, ¬Due addr nid p

/-- The commands of the check -/
def Asks : Cmd → Prop
  | .hsetnxNid .. | .hsetnxAddr .. => False
  | _ => True

theorem Fresh.ret (a : Unit) : Fresh (.ret a) := ⟨trivial, fun _ _ h => nomatch h⟩

theorem Fresh.bind {f : α → Redis Unit} (hf : ∀ a, Fresh (f a)) : ∀ {p : Redis α}, p.Only Asks → Fresh (p >>= f)
  | .ret a, _ => hf a
  | .issue c k, hp => by
    refine ⟨fun r => ?_, ?_⟩
    · obtain ⟨hreg, hdue⟩ := Fresh.bind hf (hp.2 r)
      refine ⟨hreg, fun addr nid => iff_of_false (hdue addr nid) ?_⟩
      rintro rfl
      exact hp.1
    · rintro addr nid ⟨k', h⟩
      cases h
      exact hp.1

theorem register_fresh (nid : BitVec 32) (addr : String) : Fresh (register nid addr) := by
  refine ⟨fun _ => ⟨fun _ => ⟨trivial, fun _ _ => iff_of_false (fun h => nomatch h) (fun h => nomatch h)⟩,
    fun addr' nid' => ?_⟩, fun _ _ h => nomatch h⟩
  constructor
  · rintro ⟨k', h⟩
    cases h
    rfl
  · intro h
    cases h
    exact ⟨_, rfl⟩

theorem nidHasConflict_asks (req : MesgLsndInfo) : (nidHasConflict req).Only Asks := by
  refine ⟨trivial, fun has => ?_⟩
  cases has with
  | false => trivial
  | true =>
    refine ⟨trivial, fun addr => ?_⟩
    cases addr with
    | none => trivial
    | some addr => trivial

theorem lsndInfoHasConflict_asks (req : MesgLsndInfo) : (lsndInfoHasConflict req).Only Asks := by
  refine ⟨trivial, fun has => ?_⟩
  cases has with
  | false => exact nidHasConflict_asks req
  | true =>
    refine ⟨trivial, fun nid => ?_⟩
    cases nid with
    | none => trivial
    | some nid =>
      by_cases h : nid ≠ req.nid
      · simp [Prog.bind, h]
      · simpa [Prog.bind, h] using nidHasConflict_asks req

theorem monLsndInfoHandler_fresh (p : Packet) : Fresh (monLsndInfoHandler p) := by
  unfold monLsndInfoHandler
  split
  · exact Fresh.ret ()
  · rename_i req _
    refine Fresh.bind (fun r => ?_) (lsndInfoHasConflict_asks req)
    cases r with
    | error err => exact Fresh.ret ()
    | ok has =>
      cases has with
      | true => exact Fresh.ret ()
      | false => exact register_fresh req.nid req.addr

/-- What the maps and the reports in flight keep as long as every step is fine. -/
structure Inv (w : Reports τ) : Prop where
  registers : ∀ t p, w.calls t = some p → Registers p
  written : ∀ t p addr nid, w.calls t = some p → Due addr nid p → ∃ addr', w.store.nidToAddr nid = some addr'
  agree : ∀ nid addr, w.store.addrToNid addr = some nid → w.store.nidToAddr nid = some addr
  unique : ∀ nid nid' addr, w.store.nidToAddr nid = some addr → w.store.nidToAddr nid' = some addr → nid = nid'
  owed : ∀ nid addr, w.store.nidToAddr nid = some addr → w.store.addrToNid addr = some nid ∨ ∃ t p, w.calls t = some p ∧
    Due addr nid p

omit [DecidableEq τ] in
theorem init_inv : Inv (Pool.init .empty : Reports τ) where
  registers _ _ h := nomatch h
  written _ _ _ _ h := nomatch h
  agree _ _ h := nomatch h
  unique _ _ _ h := nomatch h
  owed _ _ h := nomatch h

/-- A report that takes the place of another in flight. -/
theorem Inv.replace {t : τ} {q : Option (Redis Unit)} (hw : Inv w)
    (hold : ∀ p addr nid, w.calls t = some p → ¬Due addr nid p)
    (hnew : ∀ p, q = some p → Fresh p) : Inv { w with calls := Function.update w.calls t q } where
  registers t' p hp := by
    rcases eq_or_ne t' t with rfl | hne
    · exact (hnew p (by simpa using hp)).1
    · exact hw.registers t' p (by simpa [hne] using hp)
  written t' p addr nid hp hdue := by
    rcases eq_or_ne t' t with rfl | hne
    · exact absurd hdue ((hnew p (by simpa using hp)).2 addr nid)
    · exact hw.written t' p addr nid (by simpa [hne] using hp) hdue
  agree := hw.agree
  unique := hw.unique
  owed nid addr h := by
    refine (hw.owed nid addr h).imp_right ?_
    rintro ⟨t', p, hp, hdue⟩
    have hne : t' ≠ t := fun heq => hold p addr nid (heq ▸ hp) hdue
    exact ⟨t', p, by simpa [hne] using hp, hdue⟩

/-- What the others in flight owe is still owed after a command of one of them. -/
theorem owed_of_ne {t : τ} {q : Redis Unit} (hold : ∀ p, w.calls t = some p → ¬Due addr nid p)
    (h : ∃ t p, w.calls t = some p ∧ Due addr nid p) :
    ∃ t' p, Function.update w.calls t (some q) t' = some p ∧ Due addr nid p := by
  obtain ⟨t', p, hp, hdue⟩ := h
  have hne : t' ≠ t := fun heq => hold p (heq ▸ hp) hdue
  exact ⟨t', p, by rw [Function.update_of_ne hne]; exact hp, hdue⟩

theorem Inv.issue {t : τ} {k : c.Reply → Redis Unit} (hw : Inv w) (hcall : w.calls t = some (.issue c k))
    (hclear : w.store.Clear c) : Inv ⟨(exec c w.store).2, Function.update w.calls t (some (k (exec c w.store).1))⟩ := by
  have hgrows := exec_grows c w.store
  obtain ⟨hreg, hdue⟩ : Registers (k (exec c w.store).1) ∧ ∀ addr nid, Due addr nid (k (exec c w.store).1) ↔
    c = .hsetnxNid nid addr :=
    hw.registers t _ hcall _
  have hothers : ∀ addr nid, (∀ k', Prog.issue c k ≠ .issue (.hsetnxAddr addr nid) k') → ∀ p, w.calls t = some p →
      ¬Due addr nid p := by
    rintro addr nid hne p hp ⟨k', rfl⟩
    exact hne k' (Option.some.inj (hcall.symm.trans hp))
  have hregisters : ∀ t' p, Function.update w.calls t (some (k (exec c w.store).1)) t' = some p → Registers p := by
    intro t' p hp
    rcases eq_or_ne t' t with rfl | hne
    · obtain rfl : k (exec c w.store).1 = p := by simpa using hp
      exact hreg
    · exact hw.registers t' p (by simpa [hne] using hp)
  have hwritten : (∀ addr nid, c = .hsetnxNid nid addr → ∃ addr', (exec c w.store).2.nidToAddr nid = some addr') →
      ∀ t' p addr nid, Function.update w.calls t (some (k (exec c w.store).1)) t' = some p → Due addr nid p →
        ∃ addr', (exec c w.store).2.nidToAddr nid = some addr' := by
    intro hnew t' p addr nid hp hp'
    rcases eq_or_ne t' t with rfl | hne
    · obtain rfl : k (exec c w.store).1 = p := by simpa using hp
      exact hnew addr nid ((hdue addr nid).1 hp')
    · obtain ⟨addr', haddr⟩ := hw.written t' p addr nid (by simpa [hne] using hp) hp'
      exact ⟨addr', hgrows.nidToAddr _ _ haddr⟩
  cases c with
  | hsetnxNid nid addr =>
    refine ⟨hregisters, hwritten ?_, ?_, ?_, ?_⟩
    · rintro addr' nid' h
      cases h
      cases hnid : w.store.nidToAddr nid with
      | none => exact ⟨addr, setnx_eq_some.2 (.inr ⟨hnid, rfl, rfl⟩)⟩
      | some addr' => exact ⟨addr', hgrows.nidToAddr _ _ hnid⟩
    · exact fun nid' addr' h => hgrows.nidToAddr _ _ (hw.agree nid' addr' h)
    · intro nid₁ nid₂ addr' h₁ h₂
      rcases setnx_eq_some.1 h₁ with hold₁ | ⟨hnone, rfl, rfl⟩
      · rcases setnx_eq_some.1 h₂ with hold₂ | ⟨hnone, rfl, rfl⟩
        · exact hw.unique _ _ _ hold₁ hold₂
        · exact absurd hold₁ ((hclear hnone).2 nid₁)
      · rcases setnx_eq_some.1 h₂ with hold₂ | ⟨-, rfl, -⟩
        · exact absurd hold₂ ((hclear hnone).2 nid₂)
        · rfl
    · intro nid' addr' h
      rcases setnx_eq_some.1 h with h | ⟨-, rfl, rfl⟩
      · exact (hw.owed nid' addr' h).imp_right (owed_of_ne (hothers addr' nid' fun k' h => nomatch h))
      · exact .inr ⟨t, _, Function.update_self .., (hdue _ _).2 rfl⟩
  | hsetnxAddr addr nid =>
    refine ⟨hregisters, hwritten (fun _ _ h => nomatch h), ?_, hw.unique, ?_⟩
    · intro nid' addr' h
      rcases setnx_eq_some.1 h with h | ⟨hnone, rfl, rfl⟩
      · exact hw.agree nid' addr' h
      · obtain ⟨addr'', hnid⟩ := hw.written t _ _ _ hcall ⟨k, rfl⟩
        obtain rfl := hclear hnone addr'' hnid
        exact hnid
    · intro nid' addr' h
      rcases hw.owed nid' addr' h with hnid | hdue'
      · exact .inl (hgrows.addrToNid _ _ hnid)
      · by_cases heq : addr' = addr ∧ nid' = nid
        · -- What was owed is paid: by this command, or by one that has the same right to the address.
          obtain ⟨rfl, rfl⟩ := heq
          cases haddr : w.store.addrToNid addr' with
          | none => exact .inl (setnx_eq_some.2 (.inr ⟨haddr, rfl, rfl⟩))
          | some nid'' =>
            obtain rfl := hw.unique _ _ _ (hw.agree nid'' addr' haddr) h
            exact .inl (hgrows.addrToNid _ _ haddr)
        · refine .inr (owed_of_ne (hothers addr' nid' ?_) hdue')
          intro k' h'
          cases h'
          exact heq ⟨rfl, rfl⟩
  | _ =>
    refine ⟨hregisters, hwritten (fun _ _ h => nomatch h), hw.agree, hw.unique, fun nid addr h => ?_⟩
    exact (hw.owed nid addr h).imp_right (owed_of_ne (hothers addr nid fun k' h => nomatch h))

theorem Inv.next {o : τ × Act Packet} (hw : Inv w) (hfine : Fine w o) :
    Inv (Pool.next exec monLsndInfoHandler w o) := by
  rcases Pool.next_cases exec monLsndInfoHandler w o with h | ⟨p, hcall, h⟩ | ⟨a, hcall, h⟩ | ⟨c, k, hgo, hcall, h⟩
  · rw [h]
    exact hw
  · rw [h]
    refine hw.replace (fun p addr nid hp => ?_) fun q hq => ?_
    · cases hcall.symm.trans hp
    · cases hq
      exact monLsndInfoHandler_fresh p
  · rw [h]
    refine hw.replace (fun p addr nid hp => ?_) fun q hq => nomatch hq
    cases hcall.symm.trans hp
    exact fun hdue => nomatch hdue
  · rw [h]
    exact hw.issue hcall (hfine hgo c k hcall)

theorem run_inv : ∀ (ops : List (τ × Act Packet)) {w : Reports τ}, Inv w →
    Guarded (Pool.next exec monLsndInfoHandler) Fine w ops → Inv (ops.foldl (Pool.next exec monLsndInfoHandler) w)
  | [], _, hw, _ => hw
  | _ :: ops, _, hw, h => run_inv ops (hw.next h.1) h.2

/-- The registry after a run of reports in flight together. -/
def after (ops : List (τ × Act Packet)) : Reports τ := ops.foldl (Pool.next exec monLsndInfoHandler) (Pool.init .empty)

/-- Once all reports of a run have been handled, the maps are inverse to each other exactly when no
command of the run wrote what contradicts them. -/
theorem registry_inverse_iff (ops : List (τ × Act Packet)) (hidle : ∀ t, (after ops).calls t = none) :
    (after ops).store.Inverse ↔ Guarded (Pool.next exec monLsndInfoHandler) Fine (Pool.init .empty) ops := by
  constructor
  · intro hinv
    by_contra h
    exact (run_broken ops (Pool.init .empty) (.inr h)).not_inverse hinv
  · intro h nid addr
    have hw : Inv (after ops) := run_inv ops init_inv h
    refine ⟨fun hnid => (hw.owed nid addr hnid).resolve_right ?_, hw.agree nid addr⟩
    rintro ⟨t, p, hp, -⟩
    cases (hidle t).symm.trans hp

/-- The report of a node at `10.0.0.1:9000`. -/
def report (nid : BitVec 32) : Packet := ⟨nid, .ok ⟨nid, "CN", "10.0.0.1", 9000⟩⟩

/-- One report alone -/
theorem registry_inverse_alone :
    let ops : List (Bool × Act Packet) := (true, .call (report 1)) :: List.replicate 5 (true, .go)
    (after ops).store.Inverse ↔ Guarded (Pool.next exec monLsndInfoHandler) Fine (Pool.init .empty) ops :=
  registry_inverse_iff _ fun t => by cases t <;> rfl

/-- Two nodes report the same address, and both ask before either writes. -/
theorem address_of_two_nodes : ¬∀ ops : List (Bool × Act Packet), (∀ t, (after ops).calls t = none) →
    (after ops).store.Inverse := by
  intro h
  have hinv := h ([(true, .call (report 1)), (false, .call (report 2)), (true, .go), (true, .go), (false, .go),
    (false, .go)] ++
    List.replicate 3 (true, .go) ++ List.replicate 3 (false, .go)) fun t => by cases t <;> rfl
  have haddr := (hinv 2 "10.0.0.1:9000").1 (by decide)
  exact absurd haddr (by decide)

end BeehiveIm.Monitor
