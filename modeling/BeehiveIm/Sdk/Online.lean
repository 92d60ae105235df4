/-
Who is let in by the flag that the SDK is online. It is set when the ONLINE-ACK says so, but also
when the connection is made, before anything has come on it, and it stays set when heartbeats are
not answered. And a message that has passed the look at the flag comes into the queue even if the
connection has ended meanwhile.
-/
import BeehiveIm.Lib.Run
import BeehiveIm.Sdk.Vector

namespace BeehiveIm.Sdk

open BeehiveIm.Core BeehiveIm.Lib

/-- A world with the code of the last ONLINE-ACK that has come on its connection. -/
structure Login where
  world : World
  ack : Option Nat

/-- The last code after an event; a new connection has none, nor has an ONLINE-ACK
that cannot be unpacked. -/
def Event.heard (ack : Option Nat) : Event → Option Nat
  | .reconn info conn _ _ _ => if info ∧ conn then none else ack
  | .recv mesg _ _ _ => if mesg.type = CMD_ONLINE_ACK then mesg.ack.map (·.code) else ack
  | _ => ack

/-- A message comes into the send queue. -/
def World.Puts (w w' : World) : Prop := ∃ addr, w'.sendq = addr :: w.sendq

/-- No thread is past the look at the flag in `sdk_async_send`. -/
def World.Quiet (w : World) : Prop := ∀ t, w.calls t = none

namespace Login

def init (sendqLen : Nat) (clock : Int) : Login := ⟨.init sendqLen clock, none⟩

def step (ctx : Cntx) (l : Login) (e : Event) : Option Login :=
  (l.world.step ctx e).map fun w => ⟨w, e.heard l.ack⟩

/-- The connection is open, and its last ONLINE-ACK carried 0. -/
def LoggedIn (l : Login) : Prop := l.world.fd = true ∧ l.ack = some 0

/-- What a step puts into the send queue it puts there while the SDK is logged in. -/
def SendsLoggedIn (ctx : Cntx) (l : Login) (e : Event) : Prop :=
  ∀ w', l.world.step ctx e = some w' → l.world.Puts w' → l.LoggedIn

/-- The flag is not looked at while it is set without a connection, or before the first ONLINE-ACK
on it. A connection, and a login, does not end under a thread that is past its look; and an
ONLINE-ACK is not taken for the acknowledgement of a message. -/
def Guard (ctx : Cntx) (l : Login) : Event → Prop
  | .send _ _ => l.world.online = true → l.world.fd = true ∧ l.ack.isSome
  | .recv mesg _ _ _ => mesg.type = CMD_ONLINE_ACK →
      (l.world.sdkAckSuccHdl ctx mesg).isNone ∧ (mesg.ack.map (·.code) = some 0 ∨ l.world.Quiet)
  | .writev n => n = none ∨ l.world.fd = false → l.world.send.iovCnt ≠ 0 → l.world.Quiet
  | .keepalive _ _ => 3 < l.world.kpaliveTimes → l.world.Quiet
  | .disconnect | .networkSwitch => l.world.Quiet
  | _ => True

end Login

variable {w w' w'' : World}

/-! ## What the server thread leaves of the calls -/

/-- The connection stays as it is, calls are where they were, and the queue does not grow. -/
structure Steady (w w' : World) : Prop where
  fd : w'.fd = w.fd
  calls : w'.calls = w.calls
  sendq : w'.sendq.length ≤ w.sendq.length

/-- The connection has ended. -/
structure Ends (w w' : World) : Prop where
  fd : w'.fd = false
  calls : w'.calls = w.calls
  sendq : w'.sendq.length ≤ w.sendq.length

theorem World.not_puts (h : w'.sendq.length ≤ w.sendq.length) : ¬w.Puts w' := by
  rintro ⟨addr, hputs⟩
  rw [hputs, List.length_cons] at h
  omega

namespace Steady

theorem refl (w : World) : Steady w w := ⟨rfl, rfl, le_rfl⟩

theorem trans (h : Steady w w') (h' : Steady w' w'') : Steady w w'' :=
  ⟨h'.fd.trans h.fd, h'.calls.trans h.calls, h'.sendq.trans h.sendq⟩

theorem of_keeps (h : Keeps w w') : Steady w w' := by
  obtain ⟨b, rfl, hsub, -⟩ := h
  exact ⟨rfl, rfl, hsub.length_le⟩

theorem pushMesg (w : World) (type length : Nat) (addr link : Bool) : Steady w (w.pushMesg type length addr link) := by
  rw [World.pushMesg]
  split
  · dsimp only
    split
    · exact ⟨rfl, rfl, le_rfl⟩
    · exact ⟨rfl, rfl, le_rfl⟩
  · exact refl w

theorem sdkSsvrSendData (w : World) : Steady w w.sdkSsvrSendData := by
  rw [World.sdkSsvrSendData]
  split
  · exact ⟨rfl, rfl, le_rfl⟩
  · exact ⟨rfl, rfl, le_rfl⟩

theorem sdkQueueLpop (w : World) : Steady w w.sdkQueueLpop := by
  rw [World.sdkQueueLpop]
  split
  · exact ⟨rfl, rfl, le_rfl⟩
  · split
    · exact ⟨rfl, rfl, le_rfl⟩
    · rename_i hsendq
      refine ⟨rfl, rfl, ?_⟩
      rw [hsendq]
      exact Nat.le_succ _

theorem sdkSendDataIsTimeoutAndHdl (w : World) (addr : Nat) : Steady w (w.sdkSendDataIsTimeoutAndHdl addr) := by
  rw [World.sdkSendDataIsTimeoutAndHdl]
  split
  · exact of_keeps (Keeps.fault w)
  · exact ⟨rfl, rfl, le_rfl⟩
  · rename_i node _
    split
    · have hk := of_keeps ((Keeps.setStat w node.item .sendTimeout).trans (Keeps.tell _ node.item .sendTimeout))
      exact ⟨hk.fd, hk.calls, hk.sendq⟩
    · have hk := of_keeps (Keeps.setStat w node.item .sending)
      dsimp only
      split
      · exact hk.trans (of_keeps (Keeps.fault _))
      · exact ⟨hk.fd, hk.calls, hk.sendq⟩

theorem notify (w : World) (c : Called) (calls : List Called) (off : Bool) : Steady w (w.notify calls off c) := by
  have hpc : Steady w { w with pc := .notify calls off } := ⟨rfl, rfl, le_rfl⟩
  cases c with
  | succ orig =>
    rw [World.notify]
    split
    · exact hpc.trans (of_keeps (Keeps.freeData _ _))
    · exact hpc.trans (of_keeps (Keeps.sdkSendSuccHdl _ _))
  | fail orig =>
    rw [World.notify]
    split
    · exact hpc.trans (of_keeps (Keeps.freeData _ _))
    · have hk := of_keeps (Keeps.sdkSendFailHdl w orig.addr)
      exact ⟨hk.fd, hk.calls, hk.sendq⟩

theorem go (h : w.go = some w') : Steady w w' := by
  unfold World.go at h
  cases hpc : w.pc with
  | idle | write =>
    rw [hpc] at h
    cases h
  | fill =>
    rw [hpc] at h
    cases h
    exact sdkQueueLpop w
  | popped addr =>
    rw [hpc] at h
    cases h
    exact sdkSendDataIsTimeoutAndHdl w addr
  | timedOut addr =>
    rw [hpc] at h
    cases h
    have hk := of_keeps (Keeps.sdkSendMgrDelete w (w.head addr).seq)
    exact ⟨hk.fd, hk.calls, hk.sendq⟩
  | notify calls off =>
    rw [hpc] at h
    cases calls with
    | nil =>
      cases h
      exact ⟨rfl, rfl, le_rfl⟩
    | cons c calls =>
      cases h
      exact notify w c calls off
  | failed addr calls off =>
    rw [hpc] at h
    cases h
    have hk := of_keeps (Keeps.sdkSendMgrDelete w (w.head addr).seq)
    exact ⟨hk.fd, hk.calls, hk.sendq⟩
  | acked m =>
    rw [hpc] at h
    obtain ⟨w₁, hcall, rfl⟩ := Option.map_eq_some_iff.mp h
    have hk := of_keeps ((Keeps.call hcall).trans (Keeps.free _ (w₁.item m).data m))
    exact ⟨hk.fd, hk.calls, hk.sendq⟩
  | connected =>
    rw [hpc] at h
    cases h
    exact ⟨rfl, rfl, le_rfl⟩

theorem sdkExpMesgProc (w : World) (type : Nat) (data link : Bool) : Steady w (w.sdkExpMesgProc type data link) := by
  rw [World.sdkExpMesgProc]
  dsimp only
  split
  · exact ⟨rfl, rfl, le_rfl⟩
  · exact ⟨rfl, rfl, le_rfl⟩

theorem sdkWorkerCmdProcReqHdl (ctx : Cntx) (w : World) : Steady w (w.sdkWorkerCmdProcReqHdl ctx) := by
  rw [World.sdkWorkerCmdProcReqHdl]
  split
  · exact refl w
  · dsimp only
    split
    · exact ⟨rfl, rfl, le_rfl⟩
    · exact ⟨rfl, rfl, le_rfl⟩

theorem sdkAckSuccHdl {ctx : Cntx} {mesg : Mesg} (h : w.sdkAckSuccHdl ctx mesg = some w') : Steady w w' := by
  unfold World.sdkAckSuccHdl at h
  split at h
  · cases h
  · split at h
    · split at h
      · split at h
        · cases h
          exact of_keeps (Keeps.fault w)
        · cases h
          exact ⟨rfl, rfl, le_rfl⟩
      · cases h
        exact ⟨rfl, rfl, le_rfl⟩
    · cases h
    · cases h
      exact of_keeps (Keeps.fault w)

end Steady

theorem Ends.close (w : World) : Ends w w.close := ⟨rfl, rfl, le_rfl⟩

theorem Ends.cleaned (w : World) (off : Bool) : Ends w ({ w with fd := false }.wiovClean off) := ⟨rfl, rfl, le_rfl⟩

/-- A heartbeat ends the connection when too many have not been answered. -/
theorem sdkMesgSendPingReq_steady (w : World) (addr link : Bool) (hfd : w.fd = true) (hkpalive : w.kpaliveTimes ≤ 3) :
    Steady w (w.sdkMesgSendPingReq addr link) := by
  have hpush := Steady.pushMesg w CMD_PING 0 addr link
  rw [World.sdkMesgSendPingReq, if_neg]
  · dsimp only
    split
    · exact ⟨hpush.fd, hpush.calls, hpush.sendq⟩
    · exact hpush
  · rintro (hoff | hmany)
    · rw [hfd] at hoff
      cases hoff
    · omega

theorem sdkMesgSendPingReq_ends (w : World) (addr link : Bool) (hkpalive : 3 < w.kpaliveTimes) :
    Ends w (w.sdkMesgSendPingReq addr link) := by
  rw [World.sdkMesgSendPingReq, if_pos (.inr hkpalive)]
  exact Ends.cleaned w false

theorem sdkSsvrWritev_steady (w : World) (n : Option Nat) :
    Steady w (w.sdkSsvrWritev n) ∨ Ends w (w.sdkSsvrWritev n) ∧ (n = none ∨ w.fd = false) ∧ w.send.iovCnt ≠ 0 := by
  rw [World.sdkSsvrWritev]
  split
  · exact .inl ⟨rfl, rfl, le_rfl⟩
  · rename_i hcnt
    split
    · rename_i hn
      refine .inr ⟨Ends.cleaned w true, ?_, hcnt⟩
      cases hfd : w.fd with
      | false => exact .inr rfl
      | true =>
        rw [hfd] at hn
        exact .inl hn
    · exact .inl ⟨rfl, rfl, le_rfl⟩

/-- A message received leaves the calls as they are, and the connection unless it is an
ONLINE-ACK that refuses. -/
theorem sdkSsvrDataProc_steady (ctx : Cntx) (w : World) (mesg : Mesg) (addr link : Bool) (length : Nat)
    (hfd : w.fd = true) : Steady w (w.sdkSsvrDataProc ctx mesg addr link length) ∧
        (mesg.type = CMD_ONLINE_ACK → (w.sdkAckSuccHdl ctx mesg).isNone → mesg.ack.map (·.code) = some 0) ∨
      Ends w (w.sdkSsvrDataProc ctx mesg addr link length) ∧ mesg.type = CMD_ONLINE_ACK ∧
        mesg.ack.map (·.code) ≠ some 0 := by
  have hnone := sdkAckSuccHdl_isNone w ctx mesg (w.unread - mesg.mesgLen)
  have hread : Steady w { w with unread := w.unread - mesg.mesgLen } := ⟨rfl, rfl, le_rfl⟩
  rw [World.sdkSsvrDataProc]
  split
  · rename_i hacked
    refine .inl ⟨hread.trans (Steady.sdkAckSuccHdl hacked), fun _ hnot => ?_⟩
    rw [← hnone, hacked] at hnot
    cases hnot
  rw [World.sdkSysMesgProc]
  split
  · rename_i htype
    refine .inl ⟨⟨rfl, rfl, le_rfl⟩, fun hack => ?_⟩
    cases htype.symm.trans hack
  split
  · rename_i htype
    have hping := sdkMesgSendPingReq_steady
        { w with unread := w.unread - mesg.mesgLen, kpaliveTimes := 0 } addr link hfd
      (by simp)
    refine .inl ⟨⟨hping.fd, hping.calls, hping.sendq⟩, fun hack => ?_⟩
    cases htype.symm.trans hack
  split
  · rename_i htype
    unfold World.sdkMesgOnlineAckHandler
    cases hack : mesg.ack with
    | none => exact .inr ⟨⟨rfl, rfl, le_rfl⟩, htype, by simp⟩
    | some ack =>
      dsimp only
      split
      · rename_i hcode
        have hpush := Steady.pushMesg
          { w with unread := w.unread - mesg.mesgLen, seq := ack.seq, online := true } CMD_SYNC length addr link
        exact .inl ⟨⟨hpush.fd, hpush.calls, hpush.sendq⟩, fun _ _ => by simp [hcode]⟩
      · rename_i hcode
        exact .inr ⟨⟨rfl, rfl, le_rfl⟩, htype, by simpa using hcode⟩
  · rename_i htype
    exact .inl ⟨hread.trans (Steady.sdkExpMesgProc _ mesg.type addr link), fun hack => absurd hack htype⟩

/-- A connection is only made where there is none; the addresses may not come, nor a connection. -/
theorem sdkSsvrReconn_eq (w : World) (info conn addr link : Bool) (length : Nat) :
    (w.sdkSsvrReconn info conn addr link length).fd = (info && conn || w.fd) ∧
      (w.sdkSsvrReconn info conn addr link length).calls = w.calls ∧
      (w.sdkSsvrReconn info conn addr link length).sendq.length ≤ w.sendq.length := by
  rw [World.sdkSsvrReconn]
  cases info with
  | false => simp
  | true =>
    cases conn with
    | false => simp
    | true =>
      have hpush := Steady.pushMesg { w with
        kpaliveTimes := 0, freedData := w.mesgList.reverse ++ w.freedData, mesgList := [], fd := true, wire := [] }
        CMD_ONLINE length addr link
      exact ⟨hpush.fd, hpush.calls, hpush.sendq⟩

/-- A call gets its number, or is over. -/
theorem sdkGenSeq_goOn {t m : Nat} {req : Request} {addr item : Bool} (hs : w.sdkGenSeq t m req addr item = some w') :
    w'.fd = w.fd ∧ ∃ call, w'.calls = Function.update w.calls t call := by
  unfold World.sdkGenSeq at hs
  dsimp only at hs
  split at hs
  · split at hs
    · cases hs
      exact ⟨rfl, _, rfl⟩
    · obtain ⟨w₁, hcall, rfl⟩ := Option.map_eq_some_iff.mp hs
      have hk := Steady.of_keeps (Keeps.call hcall)
      exact ⟨hk.fd, none, hk.calls⟩
  · have hk := Steady.of_keeps (Keeps.call hs)
    exact ⟨hk.fd, none, hk.calls⟩

/-- A call is over with the insertion, whatever becomes of it. -/
theorem sdkSendMgrInsert_goOn {t m : Nat} {node link : Bool} (hs : w.sdkSendMgrInsert t m node link = some w') :
    w'.fd = w.fd ∧ w'.calls = Function.update w.calls t none := by
  unfold World.sdkSendMgrInsert at hs
  dsimp only at hs
  split at hs
  · cases hs
    exact ⟨rfl, rfl⟩
  · cases hs
    exact ⟨rfl, rfl⟩
  · obtain ⟨w₁, hcall, rfl⟩ := Option.map_eq_some_iff.mp hs
    have hk := Steady.of_keeps (Keeps.call hcall)
    exact ⟨hk.fd, hk.calls⟩

/-! ## Runs -/

namespace Login

variable {ctx : Cntx} {l l' : Login} {e : Event}

/-- The last ONLINE-ACK of an open connection did not refuse, and who is past the look
at the flag was let in. -/
structure Inv (l : Login) : Prop where
  ack : l.world.fd = true → ∀ c, l.ack = some c → c = 0
  calls : ∀ t c, l.world.calls t = some c → l.LoggedIn

theorem Inv.steady (h : Inv l) (hs : Steady l.world w') : Inv ⟨w', l.ack⟩ where
  ack hfd := h.ack (hs.fd ▸ hfd)
  calls t c hc := by
    obtain ⟨hfd, hack⟩ := h.calls t c (hs.calls ▸ hc)
    exact ⟨hs.fd.trans hfd, hack⟩

theorem Inv.ends (hq : l.world.Quiet) (he : Ends l.world w') (ack : Option Nat) : Inv ⟨w', ack⟩ where
  ack hfd := by
    have hoff : w'.fd = true := hfd
    rw [he.fd] at hoff
    cases hoff
  calls t c hc := by
    have hcall : w'.calls t = some c := hc
    rw [he.calls, hq t] at hcall
    cases hcall

/-- A call goes on or is over; only one that looks at the flag is new. -/
theorem Inv.goOn (h : Inv l) {t : Nat} {call : Option Call} (hcall : call.isSome → l.LoggedIn)
    (hfd : w'.fd = l.world.fd) (hcalls : w'.calls = Function.update l.world.calls t call) : Inv ⟨w', l.ack⟩ where
  ack hon := h.ack (hfd ▸ hon)
  calls t' c hc := by
    have hc' : w'.calls t' = some c := hc
    have hin : l.LoggedIn := by
      rw [hcalls, Function.update_apply] at hc'
      split at hc'
      · exact hcall (by rw [hc']; rfl)
      · exact h.calls t' c hc'
    exact ⟨hfd.trans hin.1, hin.2⟩

/-- Where nobody is past the look at the flag when the connection ends, no step brings anybody there
who is not logged in, and only the thread that is there puts a message into the queue. -/
theorem Inv.step (h : Inv l) (hg : l.Guard ctx e) (hs : l.world.step ctx e = some w') :
    Inv ⟨w', e.heard l.ack⟩ ∧ (l.world.Puts w' → l.LoggedIn) := by
  have hsteady : Steady l.world w' → e.heard l.ack = l.ack → Inv ⟨w', e.heard l.ack⟩ ∧
      (l.world.Puts w' → l.LoggedIn) := by
    intro hst hack
    rw [hack]
    exact ⟨h.steady hst, fun hputs => absurd hputs (World.not_puts hst.sendq)⟩
  have hends : Ends l.world w' → l.world.Quiet → Inv ⟨w', e.heard l.ack⟩ ∧ (l.world.Puts w' → l.LoggedIn) :=
    fun he hq => ⟨Inv.ends hq he _, fun hputs => absurd hputs (World.not_puts he.sendq)⟩
  cases e with
  | tick secs =>
    cases hs
    exact hsteady ⟨rfl, rfl, le_rfl⟩ rfl
  | send t req =>
    simp only [World.step] at hs
    split at hs
    · rename_i ht
      unfold World.sdkAsyncSend at hs
      dsimp only at hs
      split at hs
      · rename_i honline
        cases hs
        obtain ⟨hfd, hheard⟩ := hg honline
        obtain ⟨code, hcode⟩ := Option.isSome_iff_exists.mp hheard
        have hin : l.LoggedIn := ⟨hfd, by rw [hcode, h.ack hfd code hcode]⟩
        exact ⟨h.goOn (fun _ => hin) rfl rfl, fun _ => hin⟩
      · have hk := Steady.of_keeps (Keeps.call hs)
        exact hsteady ⟨hk.fd, hk.calls, hk.sendq⟩ rfl
    · cases hs
  | number t addr item =>
    simp only [World.step] at hs
    split at hs
    · rename_i m req hcall
      have hin := h.calls t _ hcall
      obtain ⟨hfd, call, hcalls⟩ := sdkGenSeq_goOn hs
      exact ⟨h.goOn (fun _ => hin) hfd hcalls, fun _ => hin⟩
    · cases hs
  | insert t node link =>
    simp only [World.step] at hs
    split at hs
    · rename_i m hcall
      have hin := h.calls t _ hcall
      obtain ⟨hfd, hcalls⟩ := sdkSendMgrInsert_goOn hs
      exact ⟨h.goOn (fun _ => hin) hfd hcalls, fun _ => hin⟩
    · cases hs
  | sendData =>
    obtain ⟨-, rfl⟩ := Base.of_onIdle hs
    exact hsteady (Steady.sdkSsvrSendData _) rfl
  | writev n =>
    simp only [World.step] at hs
    split at hs
    · cases hs
      rcases sdkSsvrWritev_steady l.world n with hst | ⟨he, hn, hcnt⟩
      · exact hsteady hst rfl
      · exact hends he (hg hn hcnt)
    · cases hs
  | go => exact hsteady (Steady.go hs) rfl
  | read n =>
    simp only [World.step] at hs
    split at hs
    · obtain ⟨-, rfl⟩ := Base.of_onIdle hs
      exact hsteady ⟨rfl, rfl, le_rfl⟩ rfl
    · cases hs
  | recv mesg addr link length =>
    simp only [World.step] at hs
    split at hs
    · rename_i hon
      obtain ⟨-, rfl⟩ := Base.of_onIdle hs
      rcases sdkSsvrDataProc_steady ctx l.world mesg addr link length hon.1 with ⟨hst, hcode⟩ | ⟨he, htype, hcode⟩
      · by_cases htype : mesg.type = CMD_ONLINE_ACK
        · -- the ONLINE-ACK that lets in
          have hheard : Event.heard l.ack (.recv mesg addr link length) = some 0 := by
            rw [Event.heard, if_pos htype]
            exact hcode htype (hg htype).1
          rw [hheard]
          refine ⟨⟨fun _ c hc => (Option.some.inj hc).symm, fun t c hc => ⟨hst.fd.trans hon.1, rfl⟩⟩, fun hputs => ?_⟩
          exact absurd hputs (World.not_puts hst.sendq)
        · exact hsteady hst (if_neg htype)
      · exact hends he ((hg htype).2.resolve_left hcode)
    · cases hs
  | disconnect =>
    obtain ⟨-, rfl⟩ := Base.of_onIdle hs
    exact hends (Ends.close _) hg
  | networkSwitch =>
    obtain ⟨-, rfl⟩ := Base.of_onIdle hs
    exact hends (Ends.cleaned _ true) hg
  | trav mem =>
    obtain ⟨-, rfl⟩ := Base.of_onIdle hs
    exact hsteady (Steady.of_keeps (Keeps.sdkSendMgrTrav _ mem)) rfl
  | reconn info conn addr link length =>
    simp only [World.step] at hs
    split at hs
    · cases hs
    · rename_i hoff
      obtain ⟨-, rfl⟩ := Base.of_onIdle hs
      obtain ⟨hfd, hcalls, hsendq⟩ := sdkSsvrReconn_eq l.world info conn addr link length
      have hquiet : l.world.Quiet := by
        intro t
        by_contra hne
        obtain ⟨c, hc⟩ := Option.ne_none_iff_exists'.mp hne
        exact hoff (h.calls t c hc).1
      refine ⟨⟨fun hon c hc => ?_, fun t c hc => ?_⟩, fun hputs => absurd hputs (World.not_puts hsendq)⟩
      · have hopen : (l.world.sdkSsvrReconn info conn addr link length).fd = true := hon
        rw [hfd, Bool.eq_false_iff.mpr hoff, Bool.or_false, Bool.and_eq_true] at hopen
        unfold Event.heard at hc
        dsimp only at hc
        rw [if_pos hopen] at hc
        cases hc
      · have hcall : (l.world.sdkSsvrReconn info conn addr link length).calls t = some c := hc
        rw [hcalls, hquiet t] at hcall
        cases hcall
  | keepalive addr link =>
    simp only [World.step] at hs
    split at hs
    · rename_i hon
      obtain ⟨-, rfl⟩ := Base.of_onIdle hs
      by_cases hkpalive : 3 < l.world.kpaliveTimes
      · exact hends (sdkMesgSendPingReq_ends _ addr link hkpalive) (hg hkpalive)
      · exact hsteady (sdkMesgSendPingReq_steady _ addr link hon (by omega)) rfl
    · cases hs
  | work =>
    cases hs
    exact hsteady (Steady.sdkWorkerCmdProcReqHdl ctx _) rfl

theorem Inv.init (sendqLen : Nat) (clock : Int) : Inv (init sendqLen clock) := by
  refine ⟨?_, ?_⟩
  · rintro - c ⟨⟩
  · rintro t c ⟨⟩

theorem Inv.next (h : Inv l) (hg : l.Guard ctx e) (hs : l.step ctx e = some l') : Inv l' := by
  obtain ⟨w', hw', rfl⟩ := Option.map_eq_some_iff.mp hs
  exact (h.step hg hw').1

/-- In every run that keeps to the guard, what comes into the send queue comes there
while the SDK is logged in. -/
theorem sends_logged_in (ctx : Cntx) (sendqLen : Nat) (clock : Int) (es : List Event)
    (hg : Guarded (fun l e => (step ctx l e).getD l) (Guard ctx) (init sendqLen clock) es) :
    Along (step ctx) (SendsLoggedIn ctx) (init sendqLen clock) es :=
  along_of_guarded Inv (fun _ _ h hok _ hs => (h.step hok hs).2) (fun _ _ _ h hok hs => h.next hok hs) es _
    (Inv.init sendqLen clock) hg

/-- The events of a login whose ONLINE-ACK carries 0, up to a message of the application. -/
theorem sends_logged_in_once :
    let ctx : Cntx := ⟨fun _ => none, fun _ => false⟩
    let es : List Event := [.reconn true true true true 8, .go, .read 60,
      .recv ⟨CMD_ONLINE_ACK, 8, 1, some ⟨1, 0⟩⟩ true true 4, .send 0 ⟨0x10, 3, 5, some 1, 0⟩, .number 0 true true,
      .insert 0 true true]
    Along (step ctx) (SendsLoggedIn ctx) (init 1 0) es :=
  sends_logged_in _ 1 0 _
    ⟨trivial, trivial, trivial, fun _ => ⟨rfl, .inl rfl⟩, fun _ => ⟨rfl, rfl⟩, trivial, trivial, trivial⟩

/-- The connection is made, and a message comes into the queue before any ONLINE-ACK. -/
theorem sent_before_ack : ¬∀ (ctx : Cntx) (sendqLen : Nat) (clock : Int) (es : List Event),
    Along (step ctx) (SendsLoggedIn ctx) (init sendqLen clock) es := by
  intro hall
  let ctx : Cntx := ⟨fun _ => none, fun _ => false⟩
  let es : List Event := [.reconn true true true true 8, .go, .send 0 ⟨0x10, 3, 5, some 1, 0⟩, .number 0 true true]
  obtain ⟨l, hl, hends⟩ := Option.map_eq_some_iff.mp (by decide : (es.foldlM (step ctx) (init 1 0)).map (fun l =>
    (l.ack, l.world.sendq, (l.world.step ctx (.insert 0 true true)).map World.sendq)) = some (none, [], some [1]))
  obtain ⟨hack, hends⟩ := Prod.mk.inj hends
  obtain ⟨hsendq, hputs⟩ := Prod.mk.inj hends
  obtain ⟨w', hw', hput⟩ := Option.map_eq_some_iff.mp hputs
  have hin := (hall ctx 1 0 (es ++ [.insert 0 true true])).reached es hl w' hw' ⟨1, by rw [hsendq, hput]⟩
  cases hack.symm.trans hin.2

end Login

end BeehiveIm.Sdk
