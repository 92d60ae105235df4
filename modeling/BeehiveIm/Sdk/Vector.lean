/-
The server thread: how messages go from the list and the queue into the write vector and out of it,
and that this keeps what is known of them.
-/
import BeehiveIm.Sdk.Base

namespace BeehiveIm.Sdk

open BeehiveIm.Core

/-- The bytes of a message -/
def mesgBytes (head : Nat → MesgHead) (addr : Nat) : List (Nat × Nat) :=
  wholeBytes addr (mesgHeaderSize + (head addr).length)

/-- A message of the server thread's own, as it goes into the vector. -/
def ownOrig (head : Nat → MesgHead) (addr : Nat) : WiovOrig :=
  ⟨addr, mesgHeaderSize + (head addr).length, 0, World.MEM_DEALLOC, World.MEM_DEALLOC⟩

variable {w w' : World} {m : Nat} {es : List Entry}

theorem map_fst_cut (k : Nat) (es : List Entry) : (cut k es).map Prod.fst = es.map Prod.fst := by
  cases es <;> rfl

/-- The messages of the list that there was place for are in the vector, behind what was there. -/
theorem addMesgs_spec (head : Nat → MesgHead) (list : List Nat) : ∀ {send : Wiov} {es : List Entry}, send.Holds es →
    ∃ moved, list = moved ++ (World.addMesgs head list send).1 ∧
      (World.addMesgs head list send).2.Holds (es ++ moved.map fun addr => (ownOrig head addr).whole) ∧
      (World.addMesgs head list send).2.iovMax = send.iovMax ∧
      (World.addMesgs head list send).2.pending = send.pending ++ moved.flatMap (mesgBytes head) ∧
      (send.wiovIsfull = false → moved.head? = list.head?) := by
  induction list with
  | nil => exact fun h => ⟨[], rfl, by simpa [World.addMesgs] using h, rfl, by simp [World.addMesgs], fun _ => rfl⟩
  | cons addr list ih =>
    intro send es h
    rw [World.addMesgs]
    split
    · rename_i hfull
      exact ⟨[], rfl, by simpa using h, rfl, by simp, fun hnot => by simp [hfull] at hnot⟩
    · rename_i hfull
      obtain ⟨send', hadd, hholds⟩ := h.add (ownOrig head addr) (by simpa using hfull)
      have hadd' := hadd
      rw [ownOrig] at hadd'
      rw [hadd']
      obtain ⟨moved, hlist, hh, hmax, hpend, -⟩ := ih hholds
      refine ⟨addr :: moved, congrArg (addr :: ·) hlist, by simpa using hh, hmax.trans (Wiov.iovMax_add hadd), ?_,
        fun _ => rfl⟩
      rw [hpend, h.pending_add hadd, List.flatMap_cons, List.append_assoc]
      rfl

/-- Whether a message is an acknowledgement does not depend on how much was read. -/
theorem sdkAckSuccHdl_isNone (w : World) (ctx : Cntx) (mesg : Mesg) (n : Nat) :
    (World.sdkAckSuccHdl ctx { w with unread := n } mesg).isNone = (w.sdkAckSuccHdl ctx mesg).isNone := by
  unfold World.sdkAckSuccHdl
  split
  · rfl
  · simp only [World.query]
    split
    · split
      · split <;> rfl
      · rfl
    · rfl
    · rfl

namespace Base

/-- The server thread goes on; what it has in its hands does not come from nowhere. -/
theorem resume (h : Base w) {pc : Ssvr} (hhand : pc.hand = []) (hcalls : ∀ c ∈ pc.calls, w.EntryOk (callOrig c)) :
    Base { w with pc := pc } :=
  { h with
    queue := fun m hm => by
      rcases List.mem_append.1 hm with hm | hm
      · simp only [hhand] at hm
        cases hm
      · exact h.queue m (List.mem_append_right _ hm)
    entry := fun orig ho => by
      rcases List.mem_append.1 ho with ho | ho
      · exact h.entry orig (List.mem_append_left _ ho)
      · obtain ⟨c, hc, rfl⟩ := List.mem_map.1 ho
        exact hcalls c hc }

theorem entry_of_call (h : Base w) {c : Called} (hc : c ∈ w.pc.calls) : w.EntryOk (callOrig c) :=
  h.entry _ (List.mem_append_right _ (List.mem_map_of_mem hc))

theorem entry_of_send (h : Base w) (hes : w.send.Holds es) {e : Entry} (he : e ∈ es) : w.EntryOk e.1 := by
  refine h.entry _ (List.mem_append_left _ ?_)
  rw [origs_of_holds hes]
  exact List.mem_map_of_mem he

theorem sdkSsvrSendData (h : Base w) : Base w.sdkSsvrSendData := by
  rw [World.sdkSsvrSendData]
  split
  · exact h.resume rfl (by simp [Ssvr.calls])
  · obtain ⟨es, hes, hpart⟩ := h.send
    obtain ⟨moved, hlist, hholds, hmax, -, -⟩ := addMesgs_spec w.head w.mesgList hes
    have hown : ∀ addr ∈ moved, w.Own addr :=
      fun addr ha => h.mesgs addr (by rw [hlist]; exact List.mem_append_left _ ha)
    exact { h with
      queue := fun m hm => h.queue m (List.mem_append_right _ hm)
      send := by
        refine ⟨_, hholds, fun e he => ?_⟩
        rcases List.mem_append.1 he with he | he
        · exact hpart e he
        · obtain ⟨addr, -, rfl⟩ := List.mem_map.1 he
          exact ⟨whole_part _, rfl⟩
      max := by
        simp only [hmax]
        exact h.max
      entry := fun orig ho => by
        simp only [Ssvr.calls, List.map_nil, List.append_nil, origs_of_holds hholds, List.map_append,
          List.map_map] at ho
        rcases List.mem_append.1 ho with ho | ho
        · obtain ⟨e, he, rfl⟩ := List.mem_map.1 ho
          exact h.entry_of_send hes he
        · obtain ⟨addr, ha, rfl⟩ := List.mem_map.1 ho
          exact .inr ⟨rfl, rfl, hown addr ha⟩
      mesgs := fun addr ha => h.mesgs addr (by rw [hlist]; exact List.mem_append_right _ ha) }

theorem sdkQueueLpop (h : Base w) : Base w.sdkQueueLpop := by
  rw [World.sdkQueueLpop]
  split
  · exact h.resume rfl (by simp [Ssvr.calls])
  · split
    · exact h.resume rfl (by simp [Ssvr.calls])
    · rename_i addr sendq hq
      exact { h with
        queue := fun m hm => h.queue m (List.mem_append_right _ (by rw [hq]; exact hm))
        entry := fun orig ho => h.entry orig (List.mem_append_left _ (by simpa [Ssvr.calls] using ho)) }

/-- A message popped goes into the vector. -/
theorem wiovAdd (h : Base w) {addr : Nat} (hacc : addr ∈ w.accepted) {send : Wiov}
    (hadd : w.send.wiovItemAdd ⟨addr, mesgHeaderSize + (w.head addr).length, 0, World.SDK_SEND_SUCC_HDL,
      World.SDK_SEND_FAIL_HDL⟩ = some send) : Base { w with send := send, pc := .fill } := by
  obtain ⟨es, hes, hpart⟩ := h.send
  have hholds := hes.of_add hadd
  exact { h with
    queue := fun m hm => h.queue m (List.mem_append_right _ hm)
    send := by
      refine ⟨_, hholds, fun e he => ?_⟩
      rcases List.mem_append.1 he with he | he
      · exact hpart e he
      · obtain rfl := List.mem_singleton.1 he
        exact ⟨whole_part _, rfl⟩
    max := by
      simp only [Wiov.iovMax_add hadd]
      exact h.max
    entry := fun orig ho => by
      simp only [Ssvr.calls, List.map_nil, List.append_nil, origs_of_holds hholds, List.map_append] at ho
      rcases List.mem_append.1 ho with ho | ho
      · obtain ⟨e, he, rfl⟩ := List.mem_map.1 ho
        exact h.entry_of_send hes he
      · obtain rfl := List.mem_singleton.1 ho
        exact .inl ⟨rfl, rfl, hacc⟩ }

theorem sdkSendDataIsTimeoutAndHdl (h : Base w) {addr : Nat} (hpc : w.pc = .popped addr) :
    Base (w.sdkSendDataIsTimeoutAndHdl addr) := by
  have hacc : addr ∈ w.accepted := h.queue addr (by simp [hpc, Ssvr.hand])
  rw [World.sdkSendDataIsTimeoutAndHdl]
  split
  · exact h.keeps (Keeps.fault w)
  · exact h.resume rfl (by simp [Ssvr.calls])
  · rename_i node _
    split
    · exact (h.keeps ((Keeps.setStat w node.item _).trans (Keeps.tell _ _ _))).resume rfl (by simp [Ssvr.calls])
    · have hs := h.keeps (Keeps.setStat w node.item .sending)
      simp only
      split
      · exact hs.keeps (Keeps.fault _)
      · rename_i send hadd
        exact hs.wiovAdd hacc hadd

theorem wiovClean (h : Base w) (off : Bool) : Base (w.wiovClean off) := by
  obtain ⟨es, hes, hpart⟩ := h.send
  exact { h with
    queue := fun m hm => h.queue m (List.mem_append_right _ hm)
    send := ⟨[], Wiov.wiovClean_holds _, by simp⟩
    max := by
      simp only [World.wiovClean, Wiov.iovMax_clean]
      exact h.max
    entry := fun orig ho => by
      simp only [World.wiovClean, origs_of_holds (Wiov.wiovClean_holds _), Ssvr.calls, hes.clean, List.map_map,
        List.map_nil, List.nil_append] at ho
      obtain ⟨e, he, rfl⟩ := List.mem_map.1 ho
      exact h.entry_of_send hes he }

/-- What a `writev` leaves of the vector. -/
theorem written (h : Base w) (n : Nat) : ∃ done :
    List Entry, (w.send.wiovItemAdjust n).2 = done.map (fun e => Called.succ e.1) ∧
    (∀ e ∈ done, w.EntryOk e.1) ∧ (w.send.wiovItemAdjust n).1.pending = w.send.pending.drop n ∧
    (∃ es, (w.send.wiovItemAdjust n).1.Holds es ∧ (∀ e ∈ es, w.PartOk e) ∧ ∀ e ∈ es, w.EntryOk e.1) := by
  obtain ⟨es, hes, hpart⟩ := h.send
  obtain ⟨done, rest, k, hadj, rfl, hholds, hcut, hpend⟩ :=
    hes.adjust (n := n) (h.size_lt hes hpart) fun e he => (hpart e he).1
  have hin : ∀ e ∈ cut k rest, ∃ e' ∈ rest, e'.1 = e.1 := by
    intro e he
    have hmem : e.1 ∈ (cut k rest).map Prod.fst := List.mem_map_of_mem he
    rw [map_fst_cut] at hmem
    obtain ⟨e', he', heq⟩ := List.mem_map.1 hmem
    exact ⟨e', he', heq⟩
  refine ⟨done, congrArg Prod.snd hadj, fun e he => h.entry_of_send hes (List.mem_append_left _ he), hpend,
    _, hholds, fun e he => ?_, fun e he => ?_⟩
  · obtain ⟨e', he', heq⟩ := hin e he
    refine ⟨hcut e he, ?_⟩
    rw [← heq]
    exact (hpart e' (List.mem_append_right _ he')).2
  · obtain ⟨e', he', heq⟩ := hin e he
    rw [← heq]
    exact h.entry_of_send hes (List.mem_append_right _ he')

theorem settled_of_pending (h : Base w) {b : Nat × Nat} (hb : b ∈ w.send.pending) : w.Settled b.1 := by
  obtain ⟨es, hes, -⟩ := h.send
  rw [hes.pending] at hb
  obtain ⟨e, he, hbe⟩ := List.mem_flatMap.1 hb
  rw [Entry.mem_bytes hbe]
  exact h.settled_of_send hes he

/-- A `writev` that has written `n` bytes. -/
theorem write (h : Base w) (n : Nat) :
    Base { w with
      send := (w.send.wiovItemAdjust n).1
      wire := w.wire ++ w.send.pending.take n
      pc := .notify (w.send.wiovItemAdjust n).2 false } := by
  obtain ⟨done, hdone, hok, -, es, hholds, hpart, hentry⟩ := h.written n
  exact { h with
    queue := fun m hm => h.queue m (List.mem_append_right _ hm)
    send := ⟨es, hholds, hpart⟩
    max := by
      simp only [Wiov.iovMax_adjust]
      exact h.max
    wire := fun b hb => by
      rcases List.mem_append.1 hb with hb | hb
      · exact h.wire b hb
      · exact h.settled_of_pending (List.mem_of_mem_take hb)
    entry := fun orig ho => by
      simp only [origs_of_holds hholds, Ssvr.calls, hdone, List.map_map] at ho
      rcases List.mem_append.1 ho with ho | ho
      · obtain ⟨e, he, rfl⟩ := List.mem_map.1 ho
        exact hentry e he
      · obtain ⟨e, he, rfl⟩ := List.mem_map.1 ho
        exact hok e he }

theorem sdkSsvrWritev (h : Base w) (n : Option Nat) : Base (w.sdkSsvrWritev n) := by
  rw [World.sdkSsvrWritev]
  split
  · exact h.resume rfl (by simp [Ssvr.calls])
  · split
    · exact Base.wiovClean (w := { w with fd := false }) { h with } true
    · exact h.write _

theorem notify (h : Base w) {c : Called} {calls : List Called} {off : Bool} (hpc : w.pc = .notify (c :: calls) off) :
    Base (w.notify calls off c) := by
  have hrest : ∀ c' ∈ calls, w.EntryOk (callOrig c') := fun c' hc' => h.entry_of_call (by simp [hpc, Ssvr.calls, hc'])
  have hstay : Base { w with pc := .notify calls off } := h.resume rfl hrest
  cases c with
  | succ orig =>
    rw [World.notify]
    split
    · exact hstay.keeps (Keeps.freeData _ _)
    · exact hstay.keeps (Keeps.sdkSendSuccHdl _ _)
  | fail orig =>
    rw [World.notify]
    split
    · exact hstay.keeps (Keeps.freeData _ _)
    · have hk := Keeps.sdkSendFailHdl w orig.addr
      obtain ⟨b, hb, -⟩ := id hk
      refine (h.keeps hk).resume rfl fun c' hc' => ?_
      rw [hb]
      exact hrest c' hc'

theorem go (h : Base w) (hs : w.go = some w') : Base w' := by
  rw [World.go] at hs
  split at hs
  · cases hs
  · cases hs
    exact h.sdkQueueLpop
  · rename_i hpc
    cases hs
    exact h.sdkSendDataIsTimeoutAndHdl hpc
  · cases hs
    exact (h.keeps (Keeps.sdkSendMgrDelete w _)).resume rfl (by simp [Ssvr.calls])
  · cases hs
  · cases hs
    have hidle : Base { w with pc := .idle } := h.resume rfl (by simp [Ssvr.calls])
    exact { hidle with }
  · rename_i hpc
    cases hs
    exact h.notify hpc
  · rename_i addr calls off hpc
    cases hs
    have hk := Keeps.sdkSendMgrDelete w (w.head addr).seq
    obtain ⟨b, hb, -⟩ := id hk
    refine (h.keeps hk).resume rfl fun c hc => ?_
    rw [hb]
    exact h.entry_of_call (by simpa [hpc, Ssvr.calls] using hc)
  · obtain ⟨w₁, hcall, rfl⟩ := Option.map_eq_some_iff.1 hs
    exact (h.keeps ((Keeps.call hcall).trans (Keeps.free _ _ _))).resume rfl (by simp [Ssvr.calls])
  · cases hs
    have hidle : Base { w with pc := .idle } := h.resume rfl (by simp [Ssvr.calls])
    exact { hidle with }

/-! ## What comes in -/

theorem sdkMesgSendPingReq (h : Base w) (addr link : Bool) : Base (w.sdkMesgSendPingReq addr link) := by
  rw [World.sdkMesgSendPingReq]
  split
  · exact Base.wiovClean (w := { w with fd := false }) { h with } false
  · simp only
    split
    · exact { h.pushMesg CMD_PING 0 addr link with }
    · exact h.pushMesg _ _ _ _

theorem sdkMesgOnlineAckHandler (h : Base w) (ack : Option OnlineAck) (addr link : Bool) (length : Nat) :
    Base (w.sdkMesgOnlineAckHandler ack addr link length) := by
  cases ack with
  | none => exact { h with }
  | some ack =>
    rw [World.sdkMesgOnlineAckHandler]
    split
    · have hon : Base { w with seq := ack.seq, online := true } := { h with }
      exact hon.pushMesg _ _ _ _
    · exact { h with }

theorem sdkSysMesgProc (h : Base w) (mesg : Mesg) (addr link : Bool) (length : Nat) :
    Base (w.sdkSysMesgProc mesg addr link length) := by
  rw [World.sdkSysMesgProc]
  split
  · exact { h with }
  · split
    · have hping : Base { w with kpaliveTimes := 0 } := { h with }
      exact hping.sdkMesgSendPingReq _ _
    · split
      · exact h.sdkMesgOnlineAckHandler _ _ _ _
      · rw [World.sdkExpMesgProc]
        simp only
        split
        · exact { h with }
        · exact { h with }

theorem sdkAckSuccHdl (h : Base w) {ctx : Cntx} {mesg : Mesg} (hs : w.sdkAckSuccHdl ctx mesg = some w') : Base w' := by
  rw [World.sdkAckSuccHdl] at hs
  split at hs
  · cases hs
  · split at hs
    · split at hs
      · split at hs
        · cases hs
          exact h.keeps (Keeps.fault w)
        · rename_i T _ _
          cases hs
          have htab := h.keeps (Keeps.tab w T)
          exact htab.resume rfl (by simp [Ssvr.calls])
      · cases hs
        exact h.resume rfl (by simp [Ssvr.calls])
    · cases hs
    · cases hs
      exact h.keeps (Keeps.fault w)

theorem sdkSsvrDataProc (h : Base w) (ctx : Cntx) (mesg : Mesg) (addr link : Bool) (length : Nat) :
    Base (w.sdkSsvrDataProc ctx mesg addr link length) := by
  have hread : Base { w with unread := w.unread - mesg.mesgLen } := { h with }
  rw [World.sdkSsvrDataProc]
  split
  · rename_i hs
    exact hread.sdkAckSuccHdl hs
  · exact hread.sdkSysMesgProc _ _ _ _

theorem sdkSsvrReconn (h : Base w) (info conn addr link : Bool) (length : Nat) :
    Base (w.sdkSsvrReconn info conn addr link length) := by
  rw [World.sdkSsvrReconn]
  simp only
  split
  · split
    · have hconn : Base { w with
          kpaliveTimes := 0, freedData := w.mesgList.reverse ++ w.freedData, mesgList := [], fd := true, wire := [] } :=
        { h with
          mesgs := by simp
          wire := by simp }
      have hpush := hconn.pushMesg CMD_ONLINE length addr link
      have hpc : Base { World.pushMesg { w with
          kpaliveTimes := 0, freedData := w.mesgList.reverse ++ w.freedData, mesgList := [], fd := true, wire := [] }
            CMD_ONLINE length addr link with pc := .connected } := hpush.resume rfl (by simp [Ssvr.calls])
      exact { hpc with }
    · exact { h with mesgs := by simp }
  · exact { h with }

theorem sdkWorkerCmdProcReqHdl (h : Base w) (ctx : Cntx) : Base (w.sdkWorkerCmdProcReqHdl ctx) := by
  rw [World.sdkWorkerCmdProcReqHdl]
  split
  · exact h
  · simp only
    split
    · exact { h with }
    · exact { h with }

theorem init (sendqLen : Nat) (clock : Int) : Base (World.init sendqLen clock) where
  accepted := by simp [World.init]
  queue := by simp [World.init, Ssvr.hand]
  send := ⟨[], Wiov.wiovInit_holds _, by simp⟩
  max := by
    simp only [World.init, Wiov.wiovInit]
    split <;> omega
  length _ := by simp [World.init]
  entry := by simp [World.init, origs, Wiov.wiovInit, Ssvr.calls]
  mesgs := by simp [World.init]
  call _ _ h := by cases h
  calls _ _ _ _ h := by cases h
  wire := by simp [World.init]

/-- The server thread waits, and does what an event makes it do. -/
theorem of_onIdle {v : World} (hs : w.onIdle v = some w') : w.pc = .idle ∧ v = w' := by
  rw [World.onIdle] at hs
  split at hs
  · cases hs
    exact ⟨‹_›, rfl⟩
  · cases hs

theorem step {ctx : Cntx} {e : Event} (h : Base w) (hs : w.step ctx e = some w') : Base w' := by
  cases e with
  | tick secs =>
    cases hs
    exact { h with }
  | send t req =>
    simp only [World.step] at hs
    split at hs
    · exact h.sdkAsyncSend ‹_› hs
    · cases hs
  | number t addr item =>
    simp only [World.step] at hs
    split at hs
    · exact h.sdkGenSeq ‹_› hs
    · cases hs
  | insert t node link =>
    simp only [World.step] at hs
    split at hs
    · exact h.sdkSendMgrInsert ‹_› hs
    · cases hs
  | sendData =>
    obtain ⟨-, rfl⟩ := of_onIdle hs
    exact h.sdkSsvrSendData
  | writev n =>
    simp only [World.step] at hs
    split at hs
    · cases hs
      exact h.sdkSsvrWritev n
    · cases hs
  | go => exact h.go hs
  | read n =>
    simp only [World.step] at hs
    split at hs
    · obtain ⟨-, rfl⟩ := of_onIdle hs
      exact { h with }
    · cases hs
  | recv mesg addr link length =>
    simp only [World.step] at hs
    split at hs
    · obtain ⟨-, rfl⟩ := of_onIdle hs
      exact h.sdkSsvrDataProc _ _ _ _ _
    · cases hs
  | disconnect =>
    obtain ⟨-, rfl⟩ := of_onIdle hs
    exact { h with }
  | networkSwitch =>
    obtain ⟨-, rfl⟩ := of_onIdle hs
    exact Base.wiovClean (w := { w with fd := false }) { h with } true
  | trav mem =>
    obtain ⟨-, rfl⟩ := of_onIdle hs
    exact h.keeps (Keeps.sdkSendMgrTrav w mem)
  | reconn info conn addr link length =>
    simp only [World.step] at hs
    split at hs
    · cases hs
    · obtain ⟨-, rfl⟩ := of_onIdle hs
      exact h.sdkSsvrReconn _ _ _ _ _
  | keepalive addr link =>
    simp only [World.step] at hs
    split at hs
    · obtain ⟨-, rfl⟩ := of_onIdle hs
      exact h.sdkMesgSendPingReq _ _
    · cases hs
  | work =>
    cases hs
    exact h.sdkWorkerCmdProcReqHdl ctx

end Base

end BeehiveIm.Sdk
