/-
The first packet on a connection of the proxy. The select of the send routine may take user data
while the LINK-AUTH request is still in `mesgq`: that is the only way for anything else to be
written first, and for the server to drop user data of a proxy it knows.
-/
import BeehiveIm.Rtmq.Proxy
import BeehiveIm.Lib.Run

namespace BeehiveIm.Rtmq

open BeehiveIm.Lib

variable {conf : ProxyConf} {c : ProxyConn} {P : Proxy} {p : RtmqPacket} {L : FedLink}

/-! ## The server's side -/

/-- The packets a proxy sends. -/
def ProxyConf.Own (conf : ProxyConf) (p : RtmqPacket) : Prop :=
  p.flag = RTMQ_USR_DATA ∨ p = conf.authReq ∨ (∃ cmd, p = conf.subReq cmd) ∨ p = conf.kpaliveReq

@[simp] theorem length_copyInto (n : Nat) (src : List Byte) : (copyInto n src).length = n := by
  simp [copyInto]

theorem length_authReq : conf.authReq.body.length = 4 + (RTMQ_USR_MAX_LEN + RTMQ_PWD_MAX_LEN) := by
  simp [ProxyConf.authReq, ProxyConf.usrPasswd]

@[simp] theorem usrs_answer (s : ServerSck) : s.answer.1.usrs = s.usrs := rfl
@[simp] theorem authSucc_answer (s : ServerSck) : s.answer.1.authSucc = s.authSucc := rfl

@[simp] theorem authSucc_linkAuth (s : ServerSck) (nid : BitVec 32) (usrPasswd : List Byte) :
    (s.linkAuth nid usrPasswd).1.authSucc = s.usrs usrPasswd := by
  unfold ServerSck.linkAuth
  cases h : s.usrs usrPasswd <;> rfl

/-- A server that knows the proxy has it authenticated, if it has the connection still. -/
def FedLink.Authed (L : FedLink) : Prop := L.fed.ok = true → L.fed.sck.authSucc = true

theorem frame_eq {f : Frame} (h : p.frame = some f) :
    f.type = p.cmd ∧ f.nid = p.nid ∧ f.flag = p.flag ∧ f.payload = p.body := by
  unfold RtmqPacket.frame at h
  split at h
  · cases h
    exact ⟨rfl, rfl, rfl, rfl⟩
  · cases h

/-- What the server makes of a LINK-AUTH request. -/
theorem sys_authReq {f : Frame} (h : conf.authReq.frame = some f) (s : ServerSck) :
    f.sys rsvrHandlers s = if conf.gid = 0 then (s, false) else s.linkAuth conf.id conf.usrPasswd := by
  obtain ⟨htype, hnid, -, hbody⟩ := frame_eq h
  have htype : f.type = RTMQ_CMD_AUTH_REQ := htype
  have hnid : f.nid = conf.id := hnid
  have harg : beWord (f.payload.take 4) = conf.gid := by
    rw [hbody, ProxyConf.authReq, List.take_left' (length_beBytes _), beWord_beBytes]
  have hup : (f.payload.drop 4).take (RTMQ_USR_MAX_LEN + RTMQ_PWD_MAX_LEN) = conf.usrPasswd := by
    rw [hbody, ProxyConf.authReq, List.drop_left' (length_beBytes _)]
    exact List.take_of_length_le (by simp [ProxyConf.usrPasswd])
  unfold Frame.sys
  rw [htype, if_pos rfl, harg, hup, hnid]
  rfl

theorem deliver_none (h : p.frame = none) : L.deliver p = { L with fed := { L.fed with ok := false } } := by
  rw [FedLink.deliver, h]

theorem deliver_some {f : Frame} (h : p.frame = some f) : L.deliver p =
    { fed := L.fed.deliver rsvrHandlers f
      dropped := if L.fed.ok ∧ f.flag ≠ RTMQ_SYS_MESG ∧ L.fed.sck.authSucc = false then L.dropped ++ [f]
        else L.dropped } := by
  rw [FedLink.deliver, h]

/-- What a step of the server may do to a connection: the table of users stays, and `auth_succ`
unless it is a LINK-AUTH request. -/
theorem sys_sck (f : Frame) (s : ServerSck) : (f.sys rsvrHandlers s).1.usrs = s.usrs ∧
    (f.type ≠ RTMQ_CMD_AUTH_REQ → (f.sys rsvrHandlers s).1.authSucc = s.authSucc) := by
  rcases s with ⟨_ | _, nid, usrs, answers⟩
  all_goals
    simp only [Frame.sys, rsvrHandlers, ServerSck.linkAuth]
    constructor
    · split_ifs <;> simp
    · intro hne
      rw [if_neg hne]
      split_ifs <;> simp

theorem exp_sck (f : Frame) (s : ServerSck) : (f.exp rsvrHandlers s).1.usrs = s.usrs ∧
    (f.exp rsvrHandlers s).1.authSucc = s.authSucc := by
  rcases s with ⟨_ | _, nid, usrs, answers⟩
  all_goals
    by_cases hn : f.nid = nid
    · simp [Frame.exp, rsvrHandlers, hn]
    · simp [Frame.exp, rsvrHandlers, hn]

theorem fed_sck (A : Fed ServerSck) (f : Frame) : (A.deliver rsvrHandlers f).sck =
    if A.ok then if f.flag = RTMQ_SYS_MESG then (f.sys rsvrHandlers A.sck).1 else (f.exp rsvrHandlers A.sck).1
    else A.sck := by
  unfold Fed.deliver
  split
  · split <;> rfl
  · rfl

theorem fed_ok {A : Fed ServerSck} {f : Frame} (h : (A.deliver rsvrHandlers f).ok = true) :
    A.ok = true ∧ (f.flag = RTMQ_SYS_MESG → (f.sys rsvrHandlers A.sck).2 = true) := by
  unfold Fed.deliver at h
  split at h
  · rename_i hok
    split at h
    · exact ⟨hok, fun _ => h⟩
    · rename_i hflag
      exact ⟨hok, fun h => absurd h hflag⟩
  · rename_i hok
    exact absurd h hok

/-- The table of users stays. -/
theorem deliver_usrs (L : FedLink) (p : RtmqPacket) : (L.deliver p).fed.sck.usrs = L.fed.sck.usrs := by
  cases hf : p.frame with
  | none => rw [deliver_none hf]
  | some f =>
    rw [deliver_some hf]
    simp only [fed_sck]
    split_ifs
    · exact (sys_sck f _).1
    · exact (exp_sck f _).1
    · rfl

/-- The LINK-AUTH request authenticates the proxy, or the server gives the connection up. -/
theorem deliver_auth (hu : L.fed.sck.usrs conf.usrPasswd = true) :
    (L.deliver conf.authReq).Authed ∧ (L.deliver conf.authReq).dropped = L.dropped := by
  cases hf : conf.authReq.frame with
  | none => rw [deliver_none hf]; exact ⟨fun h => (by cases h), rfl⟩
  | some f =>
    obtain ⟨-, -, hflag, -⟩ := frame_eq hf
    have hflag : f.flag = RTMQ_SYS_MESG := hflag
    have hsys : (f.sys rsvrHandlers L.fed.sck).2 = true → (f.sys rsvrHandlers L.fed.sck).1.authSucc = true := by
      rw [sys_authReq hf]
      split_ifs
      · exact fun h => by cases h
      · exact fun _ => (authSucc_linkAuth ..).trans hu
    rw [deliver_some hf]
    refine ⟨fun hok => ?_, by simp [hflag]⟩
    obtain ⟨hok, hok'⟩ := fed_ok hok
    simp only [fed_sck, if_pos hok, if_pos hflag]
    exact hsys (hok' hflag)

/-- Once it is authenticated it stays so, and nothing is dropped for want of it. -/
theorem deliver_own (hp : conf.Own p) (hu : L.fed.sck.usrs conf.usrPasswd = true) (ha : L.Authed) :
    (L.deliver p).Authed ∧ (L.deliver p).dropped = L.dropped := by
  by_cases hauth : p = conf.authReq
  · rw [hauth]
    exact deliver_auth hu
  have hcmd : p.flag = RTMQ_SYS_MESG → p.cmd ≠ RTMQ_CMD_AUTH_REQ := by
    rcases hp with hflag | hp | ⟨cmd, rfl⟩ | rfl
    · rw [hflag]
      exact fun h => absurd h (by decide)
    · exact absurd hp hauth
    · exact fun _ => (by decide : RTMQ_CMD_SUB_REQ ≠ RTMQ_CMD_AUTH_REQ)
    · exact fun _ => (by decide : RTMQ_CMD_KPALIVE_REQ ≠ RTMQ_CMD_AUTH_REQ)
  cases hf : p.frame with
  | none => rw [deliver_none hf]; exact ⟨fun h => (by cases h), rfl⟩
  | some f =>
    obtain ⟨htype, -, hflag, -⟩ := frame_eq hf
    rw [deliver_some hf]
    refine ⟨fun hok => ?_, if_neg fun h => absurd (ha h.1) (by rw [h.2.2]; decide)⟩
    obtain ⟨hok, -⟩ := fed_ok hok
    simp only [fed_sck, if_pos hok]
    split_ifs with hsys
    · rw [(sys_sck f _).2 (by rw [htype]; exact hcmd (hflag ▸ hsys))]
      exact ha hok
    · rw [(exp_sck f _).2]
      exact ha hok

/-- The packet of a frame. -/
def Frame.packet (f : Frame) : RtmqPacket := ⟨f.type, f.nid, f.flag, f.payload⟩

theorem frame_packet (f : Frame) : f.packet.frame = some f := dif_pos f.fits

theorem foldl_deliver (fs : List Frame) : ∀ L : FedLink,
    ((fs.map Frame.packet).foldl FedLink.deliver L).fed = Fed.feed rsvrHandlers L.fed fs := by
  induction fs with
  | nil => exact fun _ => rfl
  | cons f fs ih =>
    intro L
    rw [List.map_cons, List.foldl_cons, ih, deliver_some (frame_packet f)]
    rfl

/-- The server of `Framing`, to which the packets come as bytes cut in any way, ends with the same
`rtmq_sck_t` and with the same messages queued. -/
theorem recvAll_link (fs : List Frame) (hc : ∀ f ∈ fs, f.Carries) (mem : Blocks) (s : ServerSck)
    {chunks : List (List Byte)} (hstream : chunks.flatten = fs.flatMap Frame.wire) :
    ∃ S r, Recv.recvAll rsvrHandlers (.init mem s) chunks = some (S, r) ∧
      S.sck = ((fs.map Frame.packet).foldl FedLink.deliver ⟨.init s, []⟩).fed.sck ∧
      List.Forall₂ (fun item f => S.mem.read item.1 item.2 f.size = f.host) S.recvq
        ((fs.map Frame.packet).foldl FedLink.deliver ⟨.init s, []⟩).fed.queued := by
  obtain ⟨S, r, hrun, -, hsck, -, -, -, hqueued⟩ :=
    Recv.recv_stream_correct (H := rsvrHandlers) (fun _ => rfl) mem s hc hstream
  refine ⟨S, r, hrun, ?_, ?_⟩
  · rw [hsck, foldl_deliver]
  · rw [foldl_deliver]
    exact hqueued

/-! ## The proxy's side -/

namespace ProxyConn

/-- The LINK-AUTH request is the first packet written. -/
def AuthFirst (conf : ProxyConf) (c : ProxyConn) : Prop := ∀ p, c.written.head? = some p → p = conf.authReq

/-- A server that knows the proxy has dropped none of its user data for want of authentication. -/
def NoneDropped (conf : ProxyConf) (c : ProxyConn) : Prop :=
  c.link.fed.sck.usrs conf.usrPasswd = true → c.link.dropped = []

/-- Until the LINK-AUTH request is written it is first in `mesgq`, and until the server has taken it
the server has dropped nothing. -/
structure Inv (conf : ProxyConf) (c : ProxyConn) : Prop where
  first : c.AuthFirst conf
  waits : c.written = [] → c.isClose = false → ∃ mesgq, c.mesgq = conf.authReq :: mesgq
  served : ∃ l, c.written = l ++ c.wire ∧ (l = [] → c.link.dropped = []) ∧
    (l ≠ [] → c.link.fed.sck.usrs conf.usrPasswd = true → c.link.dropped = [] ∧ c.link.Authed)
  mesgs : ∀ p ∈ c.mesgq, conf.Own p
  packets : ∀ p ∈ c.written, conf.Own p

theorem Inv.noneDropped (h : c.Inv conf) : c.NoneDropped conf := by
  intro hu
  obtain ⟨l, -, hnew, hold⟩ := h.served
  by_cases hl : l = []
  · exact hnew hl
  · exact (hold hl hu).1

/-- A packet is written that may come first; what is left in `mesgq` no longer matters then. -/
theorem Inv.write (h : c.Inv conf) {mesgq : List RtmqPacket} (hm : ∀ q ∈ mesgq, conf.Own q) (ok : Bool)
    (hp : conf.Own p) (hfirst : c.written = [] → c.isClose = false → ok = true → p = conf.authReq) :
    ({ c with mesgq := mesgq }.write p ok).Inv conf := by
  unfold ProxyConn.write
  split
  · rename_i hok
    obtain ⟨l, hl, hnew, hold⟩ := h.served
    refine ⟨?_, ?_, ⟨l, ?_, hnew, hold⟩, hm, ?_⟩
    · intro q hq
      cases hw : c.written with
      | nil =>
        simp only [hw, List.nil_append, List.head?_cons, Option.some.injEq] at hq
        exact hq ▸ hfirst hw hok.2 hok.1
      | cons x xs =>
        simp only [hw, List.cons_append, List.head?_cons, Option.some.injEq] at hq
        exact h.first q (by rw [hw, hq]; rfl)
    · intro hw
      exact absurd hw (by simp)
    · show c.written ++ [p] = l ++ (c.wire ++ [p])
      rw [hl, List.append_assoc]
    · intro q hq
      rcases List.mem_append.1 hq with hq | hq
      · exact h.packets q hq
      · exact List.mem_singleton.1 hq ▸ hp
  · exact ⟨h.first, fun _ hc => (by cases hc), h.served, hm, h.packets⟩

theorem Inv.mesgTurn (h : c.Inv conf) (ok : Bool) : (c.mesgTurn ok).Inv conf := by
  unfold ProxyConn.mesgTurn
  cases hm : c.mesgq with
  | nil => exact h
  | cons p mesgq =>
    refine h.write (fun q hq => h.mesgs q (by rw [hm]; exact .tail _ hq)) ok (h.mesgs p (by rw [hm]; exact .head _)) ?_
    intro hw hc _
    obtain ⟨rest, hrest⟩ := h.waits hw hc
    rw [hm] at hrest
    exact (List.cons.inj hrest).1

theorem Inv.timerTurn (h : c.Inv conf) : (c.timerTurn conf).Inv conf := by
  unfold ProxyConn.timerTurn
  split
  · exact h
  split
  · exact ⟨h.first, fun _ hc => (by cases hc), h.served, h.mesgs, h.packets⟩
  split
  · refine ⟨h.first, fun hw hc => ?_, h.served, fun q hq => ?_, h.packets⟩
    · obtain ⟨mesgq, hm⟩ := h.waits hw hc
      exact ⟨mesgq ++ [conf.kpaliveReq], by simp [hm]⟩
    · rcases List.mem_append.1 hq with hq | hq
      · exact h.mesgs q hq
      · exact .inr (.inr (.inr (List.mem_singleton.1 hq)))
  · exact h

theorem Inv.serve (h : c.Inv conf) : c.serve.Inv conf := by
  unfold ProxyConn.serve
  cases hw : c.wire with
  | nil => exact h
  | cons p wire =>
    obtain ⟨l, hl, hnew, hold⟩ := h.served
    rw [hw] at hl
    have hmem : p ∈ c.written := by rw [hl]; simp
    refine ⟨h.first, h.waits, ⟨l ++ [p], by simp [hl], fun h0 => absurd h0 (by simp), fun _ hu => ?_⟩, h.mesgs,
      h.packets⟩
    have hu : c.link.fed.sck.usrs conf.usrPasswd = true := by
      rw [deliver_usrs] at hu
      exact hu
    by_cases hl0 : l = []
    · -- the first packet of all
      have hp : p = conf.authReq := h.first p (by rw [hl, hl0]; rfl)
      have hauth : (c.link.deliver conf.authReq).Authed ∧ (c.link.deliver conf.authReq).dropped = c.link.dropped :=
        deliver_auth hu
      obtain ⟨ha, hd⟩ := hauth
      rw [hp]
      exact ⟨hd.trans (hnew hl0), ha⟩
    · obtain ⟨hd₀, ha₀⟩ := hold hl0 hu
      obtain ⟨ha, hd⟩ := deliver_own (h.packets p hmem) hu ha₀
      exact ⟨hd.trans hd₀, ha⟩

end ProxyConn

/-! ## Runs -/

namespace Proxy

/-- On every connection the LINK-AUTH request is first, and no user data is dropped for want of
it. -/
def Kept (conf : ProxyConf) (P : Proxy) : Prop := ∀ c ∈ P.conns, c.AuthFirst conf ∧ c.NoneDropped conf

/-- User data is not written first on a connection: the LINK-AUTH request has been, or nothing
is. -/
def Admits (P : Proxy) : ProxyEvent → Prop
  | .sendq k ok => ∀ c, P.conns[k]? = some c → P.sendq ≠ [] → ok = true → c.isClose = false → c.written ≠ []
  | _ => True

structure Inv (conf : ProxyConf) (P : Proxy) : Prop where
  sendq : ∀ p ∈ P.sendq, p.flag = RTMQ_USR_DATA
  conns : ∀ c ∈ P.conns, c.Inv conf

theorem forall_modify {α : Type} {Q : α → Prop} {g : α → α} {l : List α} {k : Nat} (h : ∀ x ∈ l, Q x)
    (hg : ∀ x, l[k]? = some x → Q x → Q (g x)) : ∀ x ∈ l.modify k g, Q x := by
  intro x hx
  obtain ⟨i, hi⟩ := List.mem_iff_getElem?.1 hx
  rw [List.getElem?_modify] at hi
  obtain ⟨y, hy, rfl⟩ := Option.map_eq_some_iff.1 hi
  have hQ := h y (List.mem_iff_getElem?.2 ⟨i, hy⟩)
  split
  · rename_i hki
    exact hg y (hki ▸ hy) hQ
  · exact hQ

theorem Inv.onConn (h : P.Inv conf) {k : Nat} {g : ProxyConn → ProxyConn}
    (hg : ∀ c, P.conns[k]? = some c → c.Inv conf → (g c).Inv conf) : (P.onConn k g).Inv conf :=
  ⟨h.sendq, forall_modify h.conns hg⟩

theorem sendTurn_eq {k : Nat} {sendq : List RtmqPacket} (ok : Bool) (hk : P.conns[k]? = some c)
    (hq : P.sendq = p :: sendq) : P.sendTurn k ok = { P with sendq := sendq }.onConn k fun c => c.write p ok := by
  unfold sendTurn
  rw [hk, hq]

theorem sendTurn_idle {k : Nat} (ok : Bool) (h : P.conns[k]? = none ∨ P.sendq = []) : P.sendTurn k ok = P := by
  unfold sendTurn
  split
  · rename_i hk hq
    rcases h with h | h
    · rw [hk] at h
      cases h
    · rw [hq] at h
      cases h
  · rfl

theorem Inv.step (h : P.Inv conf) {e : ProxyEvent} (he : P.Admits e) : (P.step conf e).Inv conf := by
  cases e with
  | asyncSend cmd data length ok =>
    unfold Proxy.step
    cases ok with
    | false => exact h
    | true =>
      refine ⟨fun p hp => ?_, h.conns⟩
      rcases List.mem_append.1 hp with hp | hp
      · exact h.sendq p hp
      · rw [List.mem_singleton.1 hp]
        rfl
  | connect cmds sck =>
    unfold Proxy.step Proxy.connect
    simp only
    split
    · refine ⟨h.sendq, fun c hc => ?_⟩
      rcases List.mem_append.1 hc with hc | hc
      · exact h.conns c hc
      · rw [List.mem_singleton.1 hc]
        refine ⟨fun p hp => (by cases hp), fun _ _ => ⟨_, rfl⟩, ⟨[], rfl, fun _ => rfl, fun h0 => absurd rfl h0⟩, ?_,
          fun p hp => (by cases hp)⟩
        intro p hp
        rcases List.mem_cons.1 hp with rfl | hp
        · exact .inr (.inl rfl)
        · obtain ⟨cmd, -, rfl⟩ := List.mem_map.1 hp
          exact .inr (.inr (.inl ⟨cmd, rfl⟩))
    · exact h
  | mesgq k ok => exact h.onConn fun c _ hc => hc.mesgTurn ok
  | sendq k ok =>
    show Inv conf (P.sendTurn k ok)
    cases hk : P.conns[k]? with
    | none => rw [sendTurn_idle ok (.inl hk)]; exact h
    | some c =>
      cases hq : P.sendq with
      | nil => rw [sendTurn_idle ok (.inr hq)]; exact h
      | cons p sendq =>
        have hp : p.flag = RTMQ_USR_DATA := h.sendq p (by rw [hq]; exact .head _)
        have hrest : Inv conf { P with sendq := sendq } :=
          ⟨fun q hq' => h.sendq q (by rw [hq]; exact .tail _ hq'), h.conns⟩
        rw [sendTurn_eq ok hk hq]
        refine hrest.onConn fun c hc hinv => hinv.write hinv.mesgs ok (.inl hp) fun hw hclose hok => ?_
        exact absurd hw (he c hc (by rw [hq]; simp) hok hclose)
  | timer k => exact h.onConn fun c _ hc => hc.timerTurn
  | recv k => exact h.onConn fun c _ hc => ⟨hc.first, hc.waits, hc.served, hc.mesgs, hc.packets⟩
  | close k => exact h.onConn fun c _ hc => ⟨hc.first, fun _ h0 => (by cases h0), hc.served, hc.mesgs, hc.packets⟩
  | serve k => exact h.onConn fun c _ hc => hc.serve

theorem init_inv : init.Inv conf := ⟨fun _ h => (by cases h), fun _ h => (by cases h)⟩

/-- Another packet than the LINK-AUTH request was written first on a connection. -/
def Spoiled (conf : ProxyConf) (P : Proxy) : Prop := ∃ c ∈ P.conns, ∃ p, c.written.head? = some p ∧ p ≠ conf.authReq

theorem Spoiled.not_kept (h : P.Spoiled conf) : ¬P.Kept conf := by
  obtain ⟨c, hc, p, hp, hne⟩ := h
  exact fun hk => hne ((hk c hc).1 p hp)

theorem Spoiled.onConn (h : P.Spoiled conf) {k : Nat} {g : ProxyConn → ProxyConn}
    (hg : ∀ c q, c.written.head? = some q → (g c).written.head? = some q) : (P.onConn k g).Spoiled conf := by
  obtain ⟨c, hc, p, hp, hne⟩ := h
  obtain ⟨i, hi⟩ := List.mem_iff_getElem?.1 hc
  have hget : (P.conns.modify k g)[i]? = some (if k = i then g c else c) := by
    rw [List.getElem?_modify, hi]
    rfl
  refine ⟨_, List.mem_iff_getElem?.2 ⟨i, hget⟩, p, ?_, hne⟩
  split
  · exact hg c p hp
  · exact hp

theorem head_write (c : ProxyConn) (p : RtmqPacket) (ok : Bool) {q : RtmqPacket} (hq : c.written.head? = some q) :
    (c.write p ok).written.head? = some q := by
  unfold ProxyConn.write
  split
  · cases hw : c.written with
    | nil => rw [hw] at hq; cases hq
    | cons x xs => rw [hw] at hq; simpa [hw] using hq
  · exact hq

/-- What was written first stays first. -/
theorem Spoiled.step (h : P.Spoiled conf) (e : ProxyEvent) : (P.step conf e).Spoiled conf := by
  cases e with
  | asyncSend cmd data length ok =>
    unfold Proxy.step
    cases ok <;> exact h
  | connect cmds sck =>
    unfold Proxy.step Proxy.connect
    simp only
    split
    · obtain ⟨c, hc, hp⟩ := h
      exact ⟨c, List.mem_append_left _ hc, hp⟩
    · exact h
  | mesgq k ok =>
    refine h.onConn fun c q hq => ?_
    unfold ProxyConn.mesgTurn
    split
    · exact hq
    · exact head_write _ _ ok hq
  | sendq k ok =>
    show Spoiled conf (P.sendTurn k ok)
    unfold sendTurn
    split
    · exact Spoiled.onConn (P := { P with sendq := _ }) h fun c q hq => head_write c _ ok hq
    · exact h
  | timer k =>
    refine h.onConn fun c q hq => ?_
    unfold ProxyConn.timerTurn
    split_ifs <;> exact hq
  | recv k => exact h.onConn fun _ _ hq => hq
  | close k => exact h.onConn fun _ _ hq => hq
  | serve k =>
    refine h.onConn fun c q hq => ?_
    unfold ProxyConn.serve
    split <;> exact hq

theorem Spoiled.run (events : List ProxyEvent) : ∀ {P : Proxy}, P.Spoiled conf →
    (events.foldl (Proxy.step conf) P).Spoiled conf := by
  induction events with
  | nil => exact fun h => h
  | cons e events ih => exact fun h => ih (h.step e)

/-- User data that is written first spoils the connection. -/
theorem Inv.spoiled (h : P.Inv conf) {e : ProxyEvent} (he : ¬P.Admits e) : (P.step conf e).Spoiled conf := by
  cases e with
  | sendq k ok =>
    simp only [Admits, not_forall, not_not] at he
    obtain ⟨c, hk, hq, rfl, hclose, hw⟩ := he
    obtain ⟨p, sendq, hq⟩ := List.exists_cons_of_ne_nil hq
    show Spoiled conf (P.sendTurn k true)
    rw [sendTurn_eq true hk hq]
    have hwrite : (c.write p true).written = [p] := by
      unfold ProxyConn.write
      rw [if_pos ⟨rfl, hclose⟩, hw]
      rfl
    refine ⟨c.write p true, List.mem_iff_getElem?.2 ⟨k, ?_⟩, p, by rw [hwrite]; rfl, ?_⟩
    · show (P.conns.modify k fun c => c.write p true)[k]? = _
      rw [List.getElem?_modify, hk]
      simp
    · intro hp
      have hflag := h.sendq p (by rw [hq]; exact .head _)
      rw [hp] at hflag
      exact absurd hflag (by decide : RTMQ_SYS_MESG ≠ RTMQ_USR_DATA)
  | _ => exact absurd trivial he

theorem Inv.run_iff (events : List ProxyEvent) : ∀ {P : Proxy}, P.Inv conf →
    ((events.foldl (Proxy.step conf) P).Kept conf ↔ Guarded (Proxy.step conf) Admits P events) := by
  induction events with
  | nil => exact fun h => iff_of_true (fun c hc => ⟨(h.conns c hc).first, (h.conns c hc).noneDropped⟩) trivial
  | cons e events ih =>
    intro P h
    by_cases he : P.Admits e
    · exact (ih (h.step he)).trans (and_iff_right he).symm
    · exact iff_of_false ((h.spoiled he).run events).not_kept fun hg => he hg.1

/-- Over every run: the LINK-AUTH request is the first packet written on every connection, and no
server that knows the proxy drops user data for want of it, if and only if the send routine never
takes user data that it can write while its connection's LINK-AUTH request is not written. -/
theorem proxy_auth_first_iff (conf : ProxyConf) (events : List ProxyEvent) :
    (run conf events).Kept conf ↔ Guarded (step conf) Admits init events :=
  init_inv.run_iff events

/-- User data is queued before the connection is there, and the select takes it first: a server that
knows the proxy drops it. -/
theorem early_data_dropped : ¬∀ (conf : ProxyConf) (events : List ProxyEvent), (run conf events).Kept conf := by
  intro h
  have hkept := h ⟨5, 1, [], []⟩
    [.asyncSend 258 [7] 1 true, .connect [] ⟨false, 0, fun _ => true, []⟩, .sendq 0 true, .serve 0]
  have hdropped : ((run ⟨5, 1, [], []⟩ [.asyncSend 258 [7] 1 true, .connect [] ⟨false, 0, fun _ => true, []⟩,
      .sendq 0 true, .serve 0]).conns.map fun c => (c.link.fed.sck.usrs (ProxyConf.usrPasswd ⟨5, 1, [], []⟩),
        c.link.dropped.length)) = [(true, 1)] := by decide
  obtain ⟨c, hc, hdrop⟩ := List.map_eq_singleton_iff.1 hdropped
  simp only [Prod.mk.injEq] at hdrop
  have hnone := (hkept c (by rw [hc]; exact .head _)).2 hdrop.1
  rw [hnone] at hdrop
  exact absurd hdrop.2 (by decide)

end Proxy

end BeehiveIm.Rtmq
