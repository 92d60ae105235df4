/-
The receive buffers of the RTMQ server (`rtmq_rsvr.c`, `rtmq_worker.c`): who takes and who drops a
reference. The buffer a connection receives into is held by the connection, and every user message
queued to a worker holds the buffer it lies in. Left out: what the messages say, and the references
of messages to be sent, which are other blocks.

The count of a receive buffer is the number of its holders, and it is released with the last
one: every path that takes a holder away drops one reference, except the scan for connections
idle for 60 s, which drops two.
-/
import BeehiveIm.Core.Mref
import BeehiveIm.Lib.Run

namespace BeehiveIm.Rtmq

open BeehiveIm.Lib BeehiveIm.Core MrefTab

/-- A connection (`rtmq_sck_t`): its serial number and `recv.base`. -/
structure Sck where
  sid : Nat
  base : Addr
  deriving DecidableEq

/-- `heap` are the buffers allocated and not released, `recvq` the buffers the queued messages lie
in. -/
structure RecvBuff where
  mref : MrefTab
  heap : List Addr
  conns : List Sck
  recvq : List Addr

namespace RecvBuff

def init : RecvBuff where
  mref := mrefInit
  heap := []
  conns := []
  recvq := []

/-- `mref_alloc` of a buffer, the allocator answering with `addr`. -/
def mrefAlloc (S : RecvBuff) (addr : Addr) : Option RecvBuff :=
  (S.mref.mrefAdd addr).map fun mref => { S with mref := mref, heap := addr :: S.heap }

/-- `mref_dec`, with the release of the buffer; a second release is a fault. -/
def decRef (S : RecvBuff) (addr : Addr) : Option RecvBuff :=
  match S.mref.mrefDec addr with
  | none => none
  | some (mref, false) => some { S with mref := mref }
  | some (mref, true) => if addr ∈ S.heap then some { S with mref := mref, heap := S.heap.erase addr } else none

def find (S : RecvBuff) (sid : Nat) : Option Sck := S.conns.find? fun sck => sck.sid = sid

/-- `rtmq_rsvr_sck_creat`; a connection whose buffer could not be allocated ends the process. -/
def rtmqRsvrSckCreat (S : RecvBuff) (sid : Nat) (addr : Option Addr) : Option RecvBuff :=
  match addr with
  | none => S.decRef 0
  | some addr => (S.mrefAlloc addr).map fun S => { S with conns := ⟨sid, addr⟩ :: S.conns }

/-- `rtmq_rsvr_exp_mesg_proc`; `queued` is whether the message is for the connection's node and has
a place in the queue. Its header is read from the buffer. -/
def rtmqRsvrExpMesgProc (S : RecvBuff) (sck : Sck) (queued : Bool) : Option RecvBuff :=
  if sck.base ∈ S.heap then
    if queued then
      (S.mref.mrefInc sck.base).map fun mref => { S with mref := mref, recvq := sck.base :: S.recvq }
    else some S
  else none

/-- `rtmq_rsvr_sck_free` -/
def rtmqRsvrSckFree (S : RecvBuff) (sck : Sck) : Option RecvBuff := S.decRef sck.base

/-- `rtmq_rsvr_del_conn_hdl` -/
def rtmqRsvrDelConnHdl (S : RecvBuff) (sck : Sck) : Option RecvBuff :=
  { S with conns := S.conns.erase sck }.rtmqRsvrSckFree sck

/-- `rtmq_rsvr_switch_recv_buff`, which copies from the old buffer; without memory
the connection is closed. -/
def rtmqRsvrSwitchRecvBuff (S : RecvBuff) (sck : Sck) (addr : Option Addr) : Option RecvBuff :=
  match addr with
  | none => S.rtmqRsvrDelConnHdl sck
  | some addr =>
    (S.mrefAlloc addr).bind fun S =>
      if sck.base ∈ S.heap then
        { S with conns := ⟨sck.sid, addr⟩ :: S.conns.erase sck }.decRef sck.base
      else none

/-- A connection that `rtmq_rsvr_event_timeout_hdl` finds idle for 60 s. -/
def rtmqRsvrEventTimeoutHdl (S : RecvBuff) (sck : Sck) : Option RecvBuff :=
  (S.decRef sck.base).bind fun S => S.rtmqRsvrDelConnHdl sck

/-- `rtmq_worker_cmd_proc_req_hdl` on one queued message: it reads the message and drops its
reference. -/
def rtmqWorkerCmdProcReqHdl (S : RecvBuff) (base : Addr) : Option RecvBuff :=
  if base ∈ S.heap then { S with recvq := S.recvq.erase base }.decRef base else none

/-- What happens to the connections. `close` is a read error, a disconnect, a failed handler or the
idle check of `rtmq_rsvr_set_rdset`; `timeout` is the scan of `rtmq_rsvr_event_timeout_hdl`. -/
inductive Event where
  | accept (sid : Nat) (addr : Option Addr)
  | mesg (sid : Nat) (queued : Bool)
  | switch (sid : Nat) (addr : Option Addr)
  | work (base : Addr)
  | close (sid : Nat)
  | timeout (sid : Nat)

/-- An event on a connection that is not open, or on a message that is not queued, does not
happen. -/
def step (S : RecvBuff) : Event → Option RecvBuff
  | .accept sid addr => if (S.find sid).isSome then some S else S.rtmqRsvrSckCreat sid addr
  | .mesg sid queued => (S.find sid).elim (some S) fun sck => S.rtmqRsvrExpMesgProc sck queued
  | .switch sid addr => (S.find sid).elim (some S) fun sck => S.rtmqRsvrSwitchRecvBuff sck addr
  | .work base => if base ∈ S.recvq then S.rtmqWorkerCmdProcReqHdl base else some S
  | .close sid => (S.find sid).elim (some S) S.rtmqRsvrDelConnHdl
  | .timeout sid => (S.find sid).elim (some S) S.rtmqRsvrEventTimeoutHdl

def run (events : List Event) : Option RecvBuff := events.foldlM step init

/-! ## The references -/

/-- The connections that receive into `a`, and the queued messages that lie in it. -/
def refs (S : RecvBuff) (a : Addr) : Nat := (S.conns.map Sck.base).count a + S.recvq.count a

/-- The counts are `c`, and the buffers that have a reference are the ones not released. -/
structure Kept (S : RecvBuff) (c : Addr → Nat) : Prop where
  counts : Counts S.mref c
  nodup : S.heap.Nodup
  mem_heap : ∀ a, a ∈ S.heap ↔ c a ≠ 0

variable {S : RecvBuff} {c : Addr → Nat} {a : Addr} {sck : Sck}

/-! ## One reference -/

theorem Kept.alloc (h : Kept S c) (ha : a ∉ S.heap) (hlow : 0 ≤ a.toInt) :
    ∃ S', S.mrefAlloc a = some S' ∧ Kept S' (Function.update c a 1) ∧ S'.conns = S.conns ∧ S'.recvq = S.recvq ∧
      S'.heap = a :: S.heap := by
  have h0 : c a = 0 := by by_contra h1; exact ha ((h.mem_heap a).2 h1)
  obtain ⟨mref, hadd, hc⟩ := h.counts.add h0 hlow
  refine ⟨{ S with mref := mref, heap := a :: S.heap }, by simp [mrefAlloc, hadd],
    ⟨hc, List.nodup_cons.2 ⟨ha, h.nodup⟩, fun b => ?_⟩, rfl, rfl, rfl⟩
  by_cases hb : b = a
  · subst hb; simp
  · simp [hb, h.mem_heap b]

theorem Kept.inc (h : Kept S c) (ha : c a ≠ 0) :
    ∃ mref, S.mref.mrefInc a = some mref ∧ Kept { S with mref := mref } (Function.update c a (c a + 1)) := by
  obtain ⟨mref, hinc, hc⟩ := h.counts.inc ha
  refine ⟨mref, hinc, hc, h.nodup, fun b => ?_⟩
  by_cases hb : b = a
  · subst hb; simp [h.mem_heap b, ha]
  · simp [hb, h.mem_heap b]

/-- Whoever holds a buffer may drop it. -/
theorem Kept.dec (h : Kept S c) (ha : c a ≠ 0) :
    ∃ S', S.decRef a = some S' ∧ Kept S' (Function.update c a (c a - 1)) ∧ S'.conns = S.conns ∧
      S'.recvq = S.recvq := by
  obtain ⟨mref, hdec, hc⟩ := h.counts.dec ha
  have hmem := (h.mem_heap a).2 ha
  unfold decRef
  rw [hdec]
  by_cases h1 : c a = 1
  · simp only [h1, decide_true, if_pos hmem]
    rw [h1] at hc
    refine ⟨_, rfl, ⟨hc, h.nodup.erase a, fun b => ?_⟩, rfl, rfl⟩
    by_cases hb : b = a
    · subst hb; simp [h.nodup.mem_erase_iff]
    · simp [h.nodup.mem_erase_iff, hb, h.mem_heap b]
  · simp only [h1, decide_false]
    refine ⟨_, rfl, ⟨hc, h.nodup, fun b => ?_⟩, rfl, rfl⟩
    by_cases hb : b = a
    · subst hb
      have : c b - 1 ≠ 0 := by omega
      simp [this, hmem]
    · simp [hb, h.mem_heap b]

/-! ## The holders -/

theorem find_mem {sid : Nat} (h : S.find sid = some sck) : sck ∈ S.conns := List.mem_of_find?_eq_some h

theorem refs_conn (h : sck ∈ S.conns) : refs S sck.base ≠ 0 := by
  have : 0 < (S.conns.map Sck.base).count sck.base := List.count_pos_iff.2 (List.mem_map_of_mem h)
  unfold refs
  omega

theorem refs_queued (h : a ∈ S.recvq) : refs S a ≠ 0 := by
  have : 0 < S.recvq.count a := List.count_pos_iff.2 h
  unfold refs
  omega

/-- A connection less. -/
theorem refs_erase (h : sck ∈ S.conns) (b : Addr) :
    refs S b = refs { S with conns := S.conns.erase sck } b + if b = sck.base then 1 else 0 := by
  have hp := ((List.perm_cons_erase h).map Sck.base).count_eq b
  unfold refs
  rw [hp, List.map_cons, List.count_cons]
  simp only [beq_iff_eq, eq_comm (a := b)]
  omega

theorem update_pred {c : Addr → Nat} {d : Addr → Nat} (h : ∀ b, c b = d b + if b = a then 1 else 0) :
    Function.update c a (c a - 1) = d := by
  funext b
  by_cases hb : b = a
  · subst hb; simp [h b]
  · simp [hb, h b]

theorem update_succ {c : Addr → Nat} {d : Addr → Nat} (h : ∀ b, d b = c b + if b = a then 1 else 0) :
    Function.update c a (c a + 1) = d := by
  funext b
  by_cases hb : b = a
  · subst hb; simp [h b]
  · simp [hb, h b]

/-- The count of every buffer is the number of its holders. -/
abbrev Inv (S : RecvBuff) : Prop := Kept S (refs S)

theorem Kept.of_eq {S' : RecvBuff} {d : Addr → Nat} (h : Kept S' d) (hd : d = c) : Kept S' c := hd ▸ h

theorem Inv.close (h : Inv S) (hs : sck ∈ S.conns) : ∃ S', S.rtmqRsvrDelConnHdl sck = some S' ∧ Inv S' := by
  have h₁ : Kept { S with conns := S.conns.erase sck } (refs S) := ⟨h.counts, h.nodup, h.mem_heap⟩
  obtain ⟨S', hdec, hk, hconns, hq⟩ := h₁.dec (refs_conn hs)
  refine ⟨S', hdec, hk.of_eq ?_⟩
  rw [update_pred (refs_erase hs)]
  funext b
  simp only [refs, hconns, hq]

/-- What the allocator answers: a block that is not in use, in the lower half of the address
space. -/
structure Fresh (S : RecvBuff) (addr : Addr) : Prop where
  free : addr ∉ S.heap
  low : 0 ≤ addr.toInt

theorem Inv.accept (h : Inv S) (sid : Nat) (ha : Fresh S a) :
    ∃ S', S.rtmqRsvrSckCreat sid (some a) = some S' ∧ Inv S' := by
  obtain ⟨S', halloc, hk, hconns, hq, -⟩ := h.alloc ha.free ha.low
  have h0 : refs S a = 0 := by by_contra h1; exact ha.free ((h.mem_heap a).2 h1)
  refine ⟨{ S' with conns := ⟨sid, a⟩ :: S'.conns }, by simp [rtmqRsvrSckCreat, halloc],
    Kept.of_eq ⟨hk.counts, hk.nodup, hk.mem_heap⟩ ?_⟩
  rw [show (1 : Nat) = refs S a + 1 by omega]
  refine update_succ fun b => ?_
  simp only [refs, hconns, hq, List.map_cons, List.count_cons, beq_iff_eq, eq_comm (a := a)]
  omega

theorem Inv.mesg (h : Inv S) (hs : sck ∈ S.conns) (queued : Bool) :
    ∃ S', S.rtmqRsvrExpMesgProc sck queued = some S' ∧ Inv S' := by
  unfold rtmqRsvrExpMesgProc
  rw [if_pos ((h.mem_heap _).2 (refs_conn hs))]
  cases queued with
  | false => exact ⟨S, rfl, h⟩
  | true =>
    obtain ⟨mref, hinc, hk⟩ := h.inc (refs_conn hs)
    refine ⟨{ S with mref := mref, recvq := sck.base :: S.recvq }, by simp [hinc],
      Kept.of_eq ⟨hk.counts, hk.nodup, hk.mem_heap⟩ (update_succ fun b => ?_)⟩
    simp only [refs, List.count_cons, beq_iff_eq, eq_comm (a := sck.base)]
    omega

theorem Inv.switch (h : Inv S) (hs : sck ∈ S.conns) (ha : Fresh S a) :
    ∃ S', S.rtmqRsvrSwitchRecvBuff sck (some a) = some S' ∧ Inv S' := by
  obtain ⟨S₁, halloc, hk, hconns, hq, hheap⟩ := h.alloc ha.free ha.low
  have hbase := (h.mem_heap _).2 (refs_conn hs)
  have hne : sck.base ≠ a := fun h0 => ha.free (h0 ▸ hbase)
  have h0 : refs S a = 0 := by by_contra h1; exact ha.free ((h.mem_heap a).2 h1)
  have h₂ : Kept { S₁ with conns := ⟨sck.sid, a⟩ :: S₁.conns.erase sck } (Function.update (refs S) a 1) :=
    ⟨hk.counts, hk.nodup, hk.mem_heap⟩
  obtain ⟨S', hdec, hk', hconns', hq'⟩ := h₂.dec (a := sck.base) (by simp [hne, refs_conn hs])
  refine ⟨S', ?_, hk'.of_eq (update_pred fun b => ?_)⟩
  · simp only [rtmqRsvrSwitchRecvBuff, halloc, Option.bind_some]
    rw [if_pos (by rw [hheap]; exact .tail _ hbase)]
    exact hdec
  · have := refs_erase hs b
    simp only [refs] at this h0
    by_cases hb : b = a
    · subst hb
      simp only [refs, hconns', hq', hconns, hq, List.map_cons, List.count_cons, Function.update_self]
      simp only [beq_self_eq_true, if_true, hne.symm, if_false] at this ⊢
      omega
    · simp only [refs, hconns', hq', hconns, hq, List.map_cons, List.count_cons, Function.update_of_ne hb, beq_iff_eq,
        Ne.symm hb, if_false]
      omega

theorem Inv.work (h : Inv S) (ha : a ∈ S.recvq) : ∃ S', S.rtmqWorkerCmdProcReqHdl a = some S' ∧ Inv S' := by
  have h₁ : Kept { S with recvq := S.recvq.erase a } (refs S) := ⟨h.counts, h.nodup, h.mem_heap⟩
  obtain ⟨S', hdec, hk, hconns, hq⟩ := h₁.dec (refs_queued ha)
  refine ⟨S', ?_, hk.of_eq (update_pred fun b => ?_)⟩
  · rw [rtmqWorkerCmdProcReqHdl, if_pos ((h.mem_heap a).2 (refs_queued ha))]
    exact hdec
  · simp only [refs, hconns, hq, (List.perm_cons_erase ha).count_eq b, List.count_cons, beq_iff_eq, eq_comm (a := a)]
    omega

/-! ## Runs -/

/-- The events a run may have: the allocator gives out free blocks, a new connection gets its
buffer, and the scan for connections idle for 60 s closes none. -/
def Admits (S : RecvBuff) : Event → Prop
  | .accept sid addr => S.find sid = none → ∃ a, addr = some a ∧ Fresh S a
  | .switch _ addr => ∀ a, addr = some a → Fresh S a
  | .timeout sid => S.find sid = none
  | .mesg _ _ | .work _ | .close _ => True

theorem Inv.step (h : Inv S) (e : Event) (he : S.Admits e) : ∃ S', S.step e = some S' ∧ Inv S' := by
  cases e with
  | accept sid addr =>
    unfold RecvBuff.step
    simp only
    split
    · exact ⟨S, rfl, h⟩
    · rename_i hf
      obtain ⟨a, rfl, ha⟩ := he (by simpa using hf)
      exact h.accept sid ha
  | mesg sid queued =>
    unfold RecvBuff.step
    cases hf : S.find sid with
    | none => exact ⟨S, by simp [hf], h⟩
    | some sck => simpa [hf] using h.mesg (find_mem hf) queued
  | switch sid addr =>
    unfold RecvBuff.step
    cases hf : S.find sid with
    | none => exact ⟨S, by simp [hf], h⟩
    | some sck =>
      cases addr with
      | none => simpa [hf, rtmqRsvrSwitchRecvBuff] using h.close (find_mem hf)
      | some a => simpa [hf] using h.switch (find_mem hf) (he a rfl)
  | work base =>
    unfold RecvBuff.step
    simp only
    split
    · rename_i hb
      exact h.work hb
    · exact ⟨S, rfl, h⟩
  | close sid =>
    unfold RecvBuff.step
    cases hf : S.find sid with
    | none => exact ⟨S, by simp [hf], h⟩
    | some sck => simpa [hf] using h.close (find_mem hf)
  | timeout sid =>
    unfold RecvBuff.step
    have hf : S.find sid = none := he
    exact ⟨S, by simp [hf], h⟩

theorem init_inv : Inv init := ⟨mrefInit_counts, List.nodup_nil, by simp [init, refs]⟩

/-- In a run without such a scan no block is released twice or read after its release, the count of
every buffer is the number of its holders, and the buffers not released are those that have one. -/
theorem recvBuff_run_correct (events : List Event)
    (he : Guarded (fun S e => (S.step e).getD S) Admits init events) :
    ∃ S, run events = some S ∧ Counts S.mref (refs S) ∧ S.heap.Nodup ∧ ∀ a, a ∈ S.heap ↔ refs S a ≠ 0 := by
  obtain ⟨S, hrun, h⟩ := run_invariant RecvBuff.step Admits Inv (fun S e h he => Inv.step h e he)
    events init init_inv he
  exact ⟨S, hrun, h.counts, h.nodup, h.mem_heap⟩

/-- A message outlives the switch of its connection's buffer and the connection. -/
theorem recvBuff_run_correct_switch : ∃ S,
    run [.accept 1 (some 4096), .mesg 1 true, .switch 1 (some 8192), .close 1, .work 4096] = some S ∧
      Counts S.mref (refs S) ∧ S.heap.Nodup ∧ ∀ a, a ∈ S.heap ↔ refs S a ≠ 0 := by
  refine recvBuff_run_correct [.accept 1 (some 4096), .mesg 1 true, .switch 1 (some 8192), .close 1, .work 4096]
    ⟨fun _ => ⟨4096, rfl, ⟨by decide, by decide⟩⟩, trivial, fun a ha => ?_, trivial, trivial, trivial⟩
  obtain rfl : (8192 : Addr) = a := Option.some.inj ha
  exact ⟨by decide, by decide⟩

/-- The scan for idle connections drops the reference of the connection twice: a buffer with one
queued message is released under it. -/
theorem recvBuff_timeout_releases : ¬∀ events S, run events = some S → ∀ a, a ∈ S.heap ↔ refs S a ≠ 0 := by
  intro h
  have hend : (run [.accept 1 (some 4096), .mesg 1 true, .timeout 1]).map (fun S => (S.heap, S.recvq)) =
      some ([], [4096]) := by decide +kernel
  obtain ⟨S, hrun, hS⟩ := Option.map_eq_some_iff.1 hend
  obtain ⟨hheap, hq⟩ := Prod.mk.inj hS
  have h0 : refs S 4096 ≠ 0 := refs_queued (by rw [hq]; simp)
  have := (h _ S hrun 4096).2 h0
  rw [hheap] at this
  cases this

end RecvBuff

end BeehiveIm.Rtmq
