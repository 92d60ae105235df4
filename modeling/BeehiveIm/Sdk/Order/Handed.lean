/-
The way in: a message is put into an empty queue, so those that callbacks were called for and those
that wait are in the order of their reception.
-/
import BeehiveIm.Sdk.Order

namespace BeehiveIm.Sdk

open BeehiveIm.Core BeehiveIm.Lib

/-- The messages on their way in. -/
structure Inward (w : World) : Prop where
  sorted : (w.handed ++ w.recvq.map Prod.fst).Pairwise (· < ·)
  lt : ∀ k ∈ w.handed ++ w.recvq.map Prod.fst, k < w.received

variable {w w' : World}

namespace Inward

/-- What the callbacks are called for does not change. -/
theorem of_eq (h : Inward w) (hhanded : w'.handed = w.handed) (hrecvq : w'.recvq = w.recvq)
    (hrec : w'.received = w.received) : Inward w' :=
  ⟨by rw [hhanded, hrecvq]; exact h.sorted, by rw [hhanded, hrecvq, hrec]; exact h.lt⟩

theorem keeps (h : Inward w) (hk : Keeps w w') : Inward w' := by
  obtain ⟨b, rfl, -⟩ := hk
  exact { h with }

theorem beside (h : Inward w) (hbes : Beside w w') : Inward w' := h.of_eq hbes.handed hbes.recvq hbes.received

theorem pushMesg (h : Inward w) (type length : Nat) (addr link : Bool) : Inward (w.pushMesg type length addr link) := by
  rw [World.pushMesg]
  split
  · simp only
    split
    · exact { h with }
    · exact { h with }
  · exact h

theorem sdkExpMesgProc (h : Inward w) {type : Nat} {data link : Bool} (hq : data = true → link = true → w.recvq = []) :
    Inward (w.sdkExpMesgProc type data link) := by
  have hlt : ∀ k ∈ w.handed ++ w.recvq.map Prod.fst, k < w.received + 1 := fun k hk => Nat.lt_succ_of_lt (h.lt k hk)
  rw [World.sdkExpMesgProc]
  simp only
  split
  · rename_i hmem
    have hnil := hq hmem.1 hmem.2
    have hlt' := h.lt
    have hsorted := h.sorted
    simp only [hnil, List.map_nil, List.append_nil] at hlt hlt' hsorted
    constructor
    · simp only [hnil, List.map_cons, List.map_nil]
      refine List.pairwise_append.2 ⟨hsorted, List.pairwise_singleton _ _, fun k hk k' hk' => ?_⟩
      rw [List.mem_singleton.1 hk']
      exact hlt' k hk
    · simp only [hnil, List.map_cons, List.map_nil]
      intro k hk
      rcases List.mem_append.1 hk with hk | hk
      · exact hlt k hk
      · rw [List.mem_singleton.1 hk]
        exact Nat.lt_succ_self _
  · exact ⟨h.sorted, hlt⟩

/-- The worker takes the first message of the queue. -/
theorem sdkWorkerCmdProcReqHdl (h : Inward w) (ctx : Cntx) : Inward (w.sdkWorkerCmdProcReqHdl ctx) := by
  rw [World.sdkWorkerCmdProcReqHdl]
  split
  · exact h
  · rename_i k type recvq hq
    have hsorted := h.sorted
    have hlt := h.lt
    simp only [hq, List.map_cons] at hsorted hlt
    simp only
    split
    · exact ⟨by simpa using hsorted, by simpa using hlt⟩
    · have hsub : (w.handed ++ recvq.map Prod.fst).Sublist (w.handed ++ k :: recvq.map Prod.fst) :=
        List.Sublist.append_left (List.sublist_cons_self _ _) _
      exact ⟨hsorted.sublist hsub, fun k' hk' => hlt k' (hsub.subset hk')⟩

theorem sdkMesgSendPingReq (h : Inward w) (addr link : Bool) : Inward (w.sdkMesgSendPingReq addr link) := by
  rw [World.sdkMesgSendPingReq]
  split
  · exact { h with }
  · have hpush := h.pushMesg CMD_PING 0 addr link
    simp only
    split
    · exact { hpush with }
    · exact hpush

theorem sdkSysMesgProc (h : Inward w) {mesg : Mesg} {addr link : Bool} {length : Nat}
    (hq : mesg.type ≠ CMD_PONG → mesg.type ≠ CMD_PING → mesg.type ≠ CMD_ONLINE_ACK → addr = true → link = true →
    w.recvq = []) : Inward (w.sdkSysMesgProc mesg addr link length) := by
  rw [World.sdkSysMesgProc]
  split
  · exact { h with }
  · rename_i hpong
    split
    · have hping : Inward { w with kpaliveTimes := 0 } := { h with }
      exact hping.sdkMesgSendPingReq _ _
    · rename_i hping
      split
      · cases hack : mesg.ack with
        | none => exact { h with }
        | some ack =>
          rw [World.sdkMesgOnlineAckHandler]
          split
          · have hon : Inward { w with seq := ack.seq, online := true } := { h with }
            exact hon.pushMesg _ _ _ _
          · exact { h with }
      · rename_i hack
        exact h.sdkExpMesgProc (hq hpong hping hack)

theorem sdkAckSuccHdl (h : Inward w) {ctx : Cntx} {mesg : Mesg} (hs : w.sdkAckSuccHdl ctx mesg = some w') :
    Inward w' := by
  rw [World.sdkAckSuccHdl] at hs
  split at hs
  · cases hs
  · split at hs
    · split at hs
      · split at hs
        · cases hs
          exact { h with }
        · cases hs
          exact { h with }
      · cases hs
        exact { h with }
    · cases hs
    · cases hs
      exact { h with }

theorem sdkSsvrDataProc (h : Inward w) {ctx : Cntx} {mesg : Mesg} {addr link : Bool} {length : Nat}
    (hq : w.Ordinary ctx mesg → addr = true → link = true → w.recvq = []) :
    Inward (w.sdkSsvrDataProc ctx mesg addr link length) := by
  have hread : Inward { w with unread := w.unread - mesg.mesgLen } := { h with }
  have hnone := sdkAckSuccHdl_isNone w ctx mesg (w.unread - mesg.mesgLen)
  rw [World.sdkSsvrDataProc]
  split
  · rename_i hs
    exact hread.sdkAckSuccHdl hs
  · rename_i hs
    refine hread.sdkSysMesgProc fun hpong hping hack => hq ⟨?_, hpong, hping, hack⟩
    rw [← hnone, hs]
    rfl

theorem sdkQueueLpop (h : Inward w) : Inward w.sdkQueueLpop := by
  rw [World.sdkQueueLpop]
  split
  · exact { h with }
  · split
    · exact { h with }
    · exact { h with }

theorem sdkSendDataIsTimeoutAndHdl (h : Inward w) (addr : Nat) : Inward (w.sdkSendDataIsTimeoutAndHdl addr) := by
  rw [World.sdkSendDataIsTimeoutAndHdl]
  split
  · exact { h with }
  · exact { h with }
  · rename_i node _
    split
    · exact { h.keeps ((Keeps.setStat w node.item .sendTimeout).trans (Keeps.tell _ node.item .sendTimeout)) with }
    · simp only
      split
      · exact { h with }
      · exact { h with }

theorem notify (h : Inward w) (c : Called) (calls : List Called) (off : Bool) : Inward (w.notify calls off c) := by
  have hstay : Inward { w with pc := .notify calls off } := { h with }
  cases c with
  | succ orig =>
    rw [World.notify]
    split
    · exact { h with }
    · exact hstay.keeps (Keeps.sdkSendSuccHdl _ _)
  | fail orig =>
    rw [World.notify]
    split
    · exact { h with }
    · exact { h.keeps (Keeps.sdkSendFailHdl w orig.addr) with }

theorem go (h : Inward w) (hs : w.go = some w') : Inward w' := by
  rw [World.go] at hs
  split at hs
  · cases hs
  · cases hs
    exact h.sdkQueueLpop
  · cases hs
    exact h.sdkSendDataIsTimeoutAndHdl _
  · rename_i addr _
    cases hs
    exact { h.keeps (Keeps.sdkSendMgrDelete w (w.head addr).seq) with }
  · cases hs
  · cases hs
    exact { h with }
  · cases hs
    exact h.notify _ _ _
  · rename_i addr _ _ _
    cases hs
    exact { h.keeps (Keeps.sdkSendMgrDelete w (w.head addr).seq) with }
  · obtain ⟨w₁, hcall, rfl⟩ := Option.map_eq_some_iff.1 hs
    exact { h.keeps (Keeps.call hcall) with }
  · cases hs
    exact { h with }

theorem init (sendqLen : Nat) (clock : Int) : Inward (World.init sendqLen clock) :=
  ⟨List.Pairwise.nil, fun _ hk => by cases hk⟩

theorem step {ctx : Cntx} {e : Event} {t₀ : Nat} (h : Inward w) (hg : w.OrderGuard ctx t₀ e)
    (hs : w.step ctx e = some w') : Inward w' := by
  cases e with
  | tick secs =>
    cases hs
    exact { h with }
  | send t req =>
    simp only [World.step, World.sdkAsyncSend] at hs
    split at hs
    · split at hs
      · cases hs
        exact { h with }
      · exact Inward.keeps (w := { w with next := w.next + 1 }) { h with } (Keeps.call hs)
    · cases hs
  | number t addr item =>
    simp only [World.step] at hs
    split at hs
    · exact h.beside (Beside.sdkGenSeq ‹_› hs)
    · cases hs
  | insert t node link =>
    simp only [World.step] at hs
    split at hs
    · exact h.beside (Beside.sdkSendMgrInsert ‹_› hs)
    · cases hs
  | sendData =>
    obtain ⟨-, rfl⟩ := Base.of_onIdle hs
    rw [World.sdkSsvrSendData]
    split
    · exact { h with }
    · exact { h with }
  | writev n =>
    simp only [World.step] at hs
    split at hs
    · cases hs
      rw [World.sdkSsvrWritev]
      split
      · exact { h with }
      · split
        · exact { h with }
        · exact { h with }
    · cases hs
  | go => exact h.go hs
  | read n =>
    simp only [World.step] at hs
    split at hs
    · obtain ⟨-, rfl⟩ := Base.of_onIdle hs
      exact { h with }
    · cases hs
  | recv mesg addr link length =>
    simp only [World.step] at hs
    split at hs
    · obtain ⟨-, rfl⟩ := Base.of_onIdle hs
      exact h.sdkSsvrDataProc hg.2.1
    · cases hs
  | disconnect =>
    obtain ⟨-, rfl⟩ := Base.of_onIdle hs
    exact { h with }
  | networkSwitch =>
    obtain ⟨-, rfl⟩ := Base.of_onIdle hs
    exact { h with }
  | trav mem =>
    obtain ⟨-, rfl⟩ := Base.of_onIdle hs
    exact h.keeps (Keeps.sdkSendMgrTrav w mem)
  | reconn info conn addr link length =>
    simp only [World.step, World.sdkSsvrReconn] at hs
    split at hs
    · cases hs
    · obtain ⟨-, rfl⟩ := Base.of_onIdle hs
      split
      · split
        · have hconn : Inward { w with
              kpaliveTimes := 0, freedData := w.mesgList.reverse ++ w.freedData, mesgList := [], fd := true, wire :=
                [] } := { h with }
          exact { hconn.pushMesg CMD_ONLINE length addr link with }
        · exact { h with }
      · exact { h with }
  | keepalive addr link =>
    simp only [World.step] at hs
    split at hs
    · obtain ⟨-, rfl⟩ := Base.of_onIdle hs
      exact h.sdkMesgSendPingReq _ _
    · cases hs
  | work =>
    cases hs
    exact h.sdkWorkerCmdProcReqHdl ctx

end Inward

/-- Over every run in which each queue is empty when it is pushed into. -/
theorem messages_in_order (ctx : Cntx) (t₀ sendqLen : Nat) (clock : Int) (es : List Event) (w : World)
    (hg : Guarded (fun w e => (w.step ctx e).getD w) (World.OrderGuard ctx t₀) (World.init sendqLen clock) es)
    (hrun : es.foldlM (World.step ctx) (World.init sendqLen clock) = some w) : w.InOrder := by
  obtain ⟨-, hout, hin⟩ := run_kept (World.step ctx) (World.OrderGuard ctx t₀)
    (fun w => Base w ∧ Outward t₀ w ∧ Inward w)
    (fun w e w' h hok hs => ⟨h.1.step hs, h.2.1.step h.1 hok hs, h.2.2.step hok hs⟩) es _ _
    ⟨Base.init sendqLen clock, Outward.init t₀ sendqLen clock, Inward.init sendqLen clock⟩ hg hrun
  constructor
  · refine hout.sorted.sublist ?_
    simp only [World.written, World.chain, List.map_append, List.filter_append, List.append_assoc]
    exact List.sublist_append_left _ _
  · exact hin.sorted.sublist (List.sublist_append_left _ _)

/-- Every type has a callback. -/
def allCntx : Cntx := ⟨fun _ => none, fun _ => true⟩

/-- The second message is sent when the first has gone out, and the second received when
the first is handed over. -/
theorem messages_in_order_two : ∃ w,
    ([.reconn true true true true 8, .go, .send 7 ⟨0x300, 0, 10, none, 0⟩, .number 7 true true,
      .insert 7 true true, .sendData, .go, .go, .go, .writev (some 61), .go, .go, .send 7 ⟨0x300, 0, 10, none, 0⟩,
      .number 7 true true, .insert 7 true true, .sendData, .go, .go, .go, .writev (some 52), .go, .go, .read 104,
      .recv ⟨0x400, 0, 1, none⟩ true true 0, .work, .recv ⟨0x400, 0, 2, none⟩ true true 0, .work] : List Event).foldlM
      (World.step allCntx) (World.init 2 0) = some w ∧ w.InOrder := by
  obtain ⟨w, hw⟩ := Option.isSome_iff_exists.1 (by decide : (([.reconn true true true true 8, .go,
    .send 7 ⟨0x300, 0, 10, none, 0⟩, .number 7 true true, .insert 7 true true, .sendData, .go, .go, .go,
    .writev (some 61), .go, .go, .send 7 ⟨0x300, 0, 10, none, 0⟩, .number 7 true true, .insert 7 true true, .sendData,
    .go, .go, .go, .writev (some 52), .go, .go,
    .read 104, .recv ⟨0x400, 0, 1, none⟩ true true 0, .work, .recv ⟨0x400, 0, 2, none⟩ true true 0, .work] :
      List Event).foldlM (World.step allCntx) (World.init 2 0)).isSome)
  exact ⟨w, hw, messages_in_order allCntx 7 2 0 _ w (by decide +kernel) hw⟩

/-- Two messages are queued before the server thread sends: the second goes out first. -/
theorem queued_twice_goes_backwards : ∃ w,
    ([.reconn true true true true 8, .go, .send 7 ⟨0x300, 0, 10, none, 0⟩, .number 7 true true,
      .insert 7 true true, .send 7 ⟨0x300, 0, 10, none, 0⟩, .number 7 true true, .insert 7 true true, .sendData, .go,
      .go, .go, .go, .go, .writev (some 113)] :
      List Event).foldlM (World.step allCntx) (World.init 2 0) = some w ∧ ¬w.InOrder := by
  obtain ⟨w, hw, hnot⟩ := Option.map_eq_some_iff.1 (by decide : (([.reconn true true true true 8, .go,
    .send 7 ⟨0x300, 0, 10, none, 0⟩, .number 7 true true, .insert 7 true true, .send 7 ⟨0x300, 0, 10, none, 0⟩,
    .number 7 true true, .insert 7 true true, .sendData, .go, .go, .go, .go, .go, .writev (some 113)] :
      List Event).foldlM (World.step allCntx) (World.init 2 0)).map
        (fun w => decide (w.written.Pairwise fun m m' => w.seqOf m ≤ w.seqOf m')) = some false)
  exact ⟨w, hw, fun h => by simp [h.written] at hnot⟩

end BeehiveIm.Sdk
