/-
In whose name the two listeners pass the messages of their clients on. The WebSocket listener
replaces the connection and the node of a header and leaves the session that the client wrote; the
one in C replaces all three in most messages, by the session of the last ONLINE whether or not it
was acknowledged, and leaves some of them in three. So it depends on the clients.
-/
import BeehiveIm.Listend.ConnList
import BeehiveIm.Listend.Forward
import BeehiveIm.Websocket.Table

namespace BeehiveIm.Websocket

open BeehiveIm.Lib BeehiveIm.GoChat

namespace LsndCntx

/-- The connection and the session of an ONLINE-ACK that logs in. -/
def acked (ctx : LsndCntx) (env : Env) (data : Packet) : Option (BitVec 64 × BitVec 64) :=
  if !data.head.isValid true then none
  else
    match env.onlineAck data.body with
    | .error _ => none
    | .ok ack =>
      if ack.code ≠ 0 then none
      else
        match ctx.chat.sessionGetParam ack.sid data.head.cid with
        | none => none
        | some conn => (ctx.setSeq conn ack.seq).map fun _ => (conn, ack.sid)

/-- Whether a handler passes a message of a connection that is logged in on. -/
def passes (env : Env) (body : List (BitVec 8)) : MesgCallBack → Bool
  | .comm | .ping => true
  | .unsub => (env.unsub body).toOption.isSome
  | .roomQuit => (env.roomQuit body).toOption.isSome
  | .online | .offline => false

end LsndCntx

/-- The listener, and, which it does not keep, the session for which each connection has
been acknowledged last. -/
structure World where
  lsnd : LsndCntx
  login : BitVec 64 → Option (BitVec 64)

namespace World

open LsndCntx (Event)

def init (nid : BitVec 32) : World := ⟨.init nid, fun _ => none⟩

/-- The session that a connection is logged in as. -/
def session (w : World) (conn : BitVec 64) : Option (BitVec 64) :=
  if (w.lsnd.extra conn).status = .login then w.login conn else none

def step (env : Env) (w : World) (e : Event) : World where
  lsnd := w.lsnd.step env e
  login :=
    match e with
    | .connect => Function.update w.login (w.lsnd.cid + 1) none
    | .onlineAck data =>
      match w.lsnd.acked env data with
      | none => w.login
      | some (conn, sid) => Function.update w.login conn (some sid)
    | _ => w.login

/-- What is passed on for a connection, if it is no ONLINE, has its session, the connection and
the node in the header. -/
def Own (env : Env) (w : World) : Event → Prop
  | .recv conn data _ => conn ∈ w.lsnd.opened →
    ∀ m ∈ (w.lsnd.lsndConnRecv env conn data).1.frwder.drop w.lsnd.frwder.length, m.cmd ≠ cmdOnline →
      w.session conn = some m.data.head.sid ∧ m.data.head.cid = conn ∧ m.data.head.nid = w.lsnd.nid
  | _ => True

/-- A client that is logged in writes its own session into what is passed on. -/
def Honest (env : Env) (w : World) : Event → Prop
  | .recv conn data _ =>
    conn ∈ w.lsnd.opened → w.lsnd.nid ≠ 0 → data.head.sid ≠ 0 → (w.lsnd.extra conn).seq < data.head.seq →
    (w.lsnd.extra conn).status = .login → LsndCntx.passes env data.body (LsndCntx.query data.head.cmd) = true →
      w.login conn = some data.head.sid
  | _ => True

end World

/-! ## What goes upstream -/

namespace LsndCntx

variable {env : Env} {ctx : LsndCntx} {conn : BitVec 64} {cmd : BitVec 32} {data : Packet}

@[simp] theorem frwder_kick (ctx : LsndCntx) (cid : BitVec 64) : (ctx.kick cid).frwder = ctx.frwder := by
  unfold kick
  split
  · rfl
  · rfl

@[simp] theorem frwder_asyncSend (ctx : LsndCntx) (cid : BitVec 64) (data : Packet) :
    (ctx.asyncSend cid data).frwder = ctx.frwder := by
  unfold asyncSend
  split
  · rfl
  · rfl

/-- All handlers but that of ONLINE look at the state of the connection first. -/
theorem proc_frwder (hsid : data.head.sid ≠ 0) {cb : MesgCallBack} (hcb : cb ≠ .online) :
    (ctx.proc env conn cmd data cb).1.frwder =
      ctx.frwder ++ if (ctx.extra conn).status = .login ∧ passes env data.body cb = true
      then [⟨conn, cmd, ctx.rewrite conn data⟩] else [] := by
  by_cases hlogin : (ctx.extra conn).status = .login
  · cases cb with
    | online => exact absurd rfl hcb
    | comm => simp [proc, lsndMesgCommHandler, hlogin, passes, forward]
    | offline => simp [proc, lsndMesgOfflineHandler, hlogin, passes, setStatus, setExtra]
    | ping => simp [proc, lsndMesgPingHandler, hlogin, passes, forward]
    | unsub =>
      unfold proc lsndMesgUnsubHandler passes
      cases hbody : env.unsub data.body with
      | error err => simp [hlogin, Except.toOption]
      | ok unsub => simp [hlogin, Except.toOption, forward, rewrite]
    | roomQuit =>
      unfold proc lsndMesgRoomQuitHandler passes
      dsimp only
      rw [if_neg (not_not.2 hlogin), if_neg hsid]
      cases hbody : env.roomQuit data.body with
      | error err => simp [Except.toOption]
      | ok rid => simp [hlogin, Except.toOption, forward, rewrite]
  · cases cb with
    | online => exact absurd rfl hcb
    | comm => simp [proc, lsndMesgCommHandler, hlogin]
    | offline => simp [proc, lsndMesgOfflineHandler, hlogin]
    | ping => simp [proc, lsndMesgPingHandler, hlogin]
    | unsub => simp [proc, lsndMesgUnsubHandler, hlogin]
    | roomQuit => simp [proc, lsndMesgRoomQuitHandler, hlogin]

theorem online_frwder : ∀ m ∈ (ctx.lsndMesgOnlineHandler conn cmd data).1.frwder.drop ctx.frwder.length,
    m.cmd = cmd := by
  unfold lsndMesgOnlineHandler
  split
  · simp
  · split
    · simp
    · simp [setStatus, setExtra, forward]

end LsndCntx

namespace World

open LsndCntx (Event)

variable {env : Env} {w : World} {e : Event}

theorem own_iff (env : Env) (w : World) (e : Event) : w.Own env e ↔ w.Honest env e := by
  cases e with
  | recv conn data order =>
    unfold Own Honest
    refine imp_congr_right fun _ => ?_
    rcases LsndCntx.lsndConnRecv_cases w.lsnd env conn data with ⟨hnid, hsid, hseq, heq⟩ | ⟨hbad, heq⟩
    · obtain ⟨ctx, hctx⟩ : ∃ ctx, ctx = w.lsnd.setExtra conn fun e => { e with seq := data.head.seq } := ⟨_, rfl⟩
      have hfrwder : ctx.frwder = w.lsnd.frwder := by
        rw [hctx]
        rfl
      have hstatus : (ctx.extra conn).status = (w.lsnd.extra conn).status := by rw [hctx, LsndCntx.extra_setExtra_self]
      have hrewrite : ctx.rewrite conn data = w.lsnd.rewrite conn data := by
        rw [hctx]
        rfl
      rw [heq, ← hctx, ← hfrwder]
      by_cases hcb : LsndCntx.query data.head.cmd = .online
      · rw [hcb]
        refine iff_of_true (fun m hm hne => ?_) fun _ _ _ _ hpass => nomatch hpass
        exact absurd ((LsndCntx.online_frwder m hm).trans (LsndCntx.query_eq_online.1 hcb)) hne
      · have hcmd : data.head.cmd ≠ cmdOnline := fun h => hcb (LsndCntx.query_eq_online.2 h)
        rw [LsndCntx.proc_frwder hsid hcb, List.drop_left, hstatus, hrewrite]
        by_cases hpass : (w.lsnd.extra conn).status = .login ∧
          LsndCntx.passes env data.body (LsndCntx.query data.head.cmd) = true
        · rw [if_pos hpass]
          constructor
          · intro hown _ _ _ hlogin _
            have hsession := (hown _ (List.mem_singleton.2 rfl) hcmd).1
            unfold session at hsession
            rwa [if_pos hlogin] at hsession
          · intro hhonest m hm _
            obtain rfl := List.mem_singleton.1 hm
            unfold session
            rw [if_pos hpass.1]
            exact ⟨hhonest hnid hsid hseq hpass.1 hpass.2, rfl, rfl⟩
        · rw [if_neg hpass]
          exact iff_of_true (fun m hm => absurd hm List.not_mem_nil) fun _ _ _ hlogin hpasses =>
            absurd ⟨hlogin, hpasses⟩ hpass
    · rw [heq]
      exact iff_of_true (by simp) fun hnid hsid hseq => absurd ⟨hnid, hsid, hseq⟩ hbad
  | _ => exact Iff.rfl

end World

end BeehiveIm.Websocket

/-! ## The listener in C -/

namespace BeehiveIm.Listend

open BeehiveIm.Lib BeehiveIm.Core
open BeehiveIm.Websocket (MesgHeader Packet)

namespace LsndCntx

variable {L : LsndCntx} {nid : BitVec 32} {conn : Ptr} {data m : Packet} {sent : Bool}
    {unpack : BitVec 32 → List (BitVec 8) → Bool}

/-- The handler that a message gets to. -/
def route (L : LsndCntx) (conn : Ptr) (type : BitVec 32) : Option Proc :=
  match query type with
  | some proc => some proc
  | none => if (L.extra conn).stat = .online then some .mesgDef else none

/-- The entry that an OFFLINE looks for is there. -/
def Finds (L : LsndCntx) (conn : Ptr) (sid : BitVec 64) : Prop :=
  ∃ extra, sessionKey.query L.connKey L.connList (sid, (L.extra conn).cid) = some (some extra)

/-- What each handler has to send upstream. -/
def Sends (L : LsndCntx) (nid : BitVec 32) (conn : Ptr) (data : Packet) (unpack : BitVec 32 → List (BitVec 8) → Bool)
    (m : Packet) : Option Proc → Prop
  | some .mesgDef =>
    m = { data with head := { data.head with sid := (L.extra conn).sid, cid := (L.extra conn).cid, nid := nid } }
  | some .offline =>
    L.Finds conn data.head.sid ∧ m = { data with head := { data.head with cid := (L.extra conn).cid, nid := nid } }
  | some .roomJoin => m = { data with head := { data.head with nid := nid } }
  | some .roomQuit =>
    unpack data.head.length data.body = true ∧
    m = { data with head := { data.head with cid := (L.extra conn).cid, nid := nid } }
  | _ => False

theorem proc_sent (proc : Proc) : (∃ r, L.proc nid conn data sent unpack proc = some r ∧ r.sent = some m) ↔
    sent = true ∧ L.Sends nid conn data unpack m (some proc) := by
  cases proc with
  | mesgDef =>
    unfold LsndCntx.proc lsndMesgDefHandler forward Sends
    cases sent with
    | false => simp
    | true => simp [eq_comm]
  | offline =>
    unfold LsndCntx.proc lsndMesgOfflineHandler Sends Finds
    dsimp only
    rcases sessionKey.query L.connKey L.connList (data.head.sid, (L.extra conn).cid) with _ | _ | extra
    · simp
    · simp
    · cases sent with
      | false => simp [forward]
      | true => simp [forward, eq_comm]
  | roomJoin =>
    unfold LsndCntx.proc lsndMesgRoomJoinHandler forward Sends
    cases sent with
    | false => simp
    | true => simp [eq_comm]
  | roomQuit =>
    unfold LsndCntx.proc lsndMesgRoomQuitHandler Sends
    dsimp only
    by_cases hunpack : unpack data.head.length data.body = true
    · cases sent with
      | false => simp [hunpack, forward]
      | true => simp [hunpack, forward, eq_comm]
    · simp [hunpack]
  | online => simp [LsndCntx.proc, Sends]
  | ping => simp [LsndCntx.proc, Sends]
  | upmesgDef => simp [LsndCntx.proc, Sends]

theorem lsndCallbackRecv_sent : (∃ r, L.lsndCallbackRecv nid conn data sent unpack = some r ∧ r.sent = some m) ↔
    (L.extra conn).stat ≠ .kick ∧ (L.extra conn).seq < data.head.seq ∧ sent = true ∧
      L.Sends nid conn data unpack m (L.route conn data.head.cmd) := by
  unfold lsndCallbackRecv
  by_cases hkick : (L.extra conn).stat = .kick
  · simp [hkick]
  · by_cases hseq : data.head.seq ≤ (L.extra conn).seq
    · simp [hkick, hseq, BitVec.not_lt.2 hseq]
    · rw [if_neg hkick, if_neg hseq]
      -- the new number changes no key
      obtain ⟨L', hL'⟩ : ∃ L', L' = L.setExtra conn fun e => { e with seq := data.head.seq } := ⟨_, rfl⟩
      have hkey : L'.connKey = L.connKey := hL' ▸ connKey_setExtra ⟨rfl, rfl⟩
      have hsends : ∀ proc, L'.Sends nid conn data unpack m proc ↔ L.Sends nid conn data unpack m proc := by
        intro proc
        unfold Sends Finds
        rw [hkey, hL', setExtra_self]
        rfl
      have hroute : L'.route conn data.head.cmd = L.route conn data.head.cmd := by
        unfold route
        rw [hL', setExtra_self]
      rw [← hroute, ← hsends]
      simp only [hkick, not_false_eq_true, ne_eq, true_and, BitVec.not_le.1 hseq]
      rw [← hL']
      unfold route
      cases query data.head.cmd with
      | some proc => exact proc_sent proc
      | none =>
        dsimp only
        by_cases honline : (L'.extra conn).stat = .online
        · rw [if_neg (not_not.2 honline), if_pos honline]
          exact proc_sent .mesgDef
        · rw [if_pos honline, if_neg honline]
          simp [Sends]

end LsndCntx

namespace World

variable {nid : BitVec 32} {unpack : BitVec 32 → List (BitVec 8) → Bool} {w : World} {e : Event}

/-- What is passed on for a connection, if it is no ONLINE, has the session that it is logged in as,
the connection and the node in the header. -/
def Own (nid : BitVec 32) (unpack : BitVec 32 → List (BitVec 8) → Bool) (w : World) : Event → Prop
  | .recv p data mem sent => ∀ m, w.forwarded nid unpack (.recv p data mem sent) = some m →
    w.login p = some m.head.sid ∧ m.head.cid = (w.lsnd.extra p).cid ∧ m.head.nid = nid
  | _ => True

/-- What is passed on comes from a connection that is logged in as the session that its client has
named last, in its last ONLINE or, in an OFFLINE, a ROOM-JOIN or a ROOM-QUIT, in the message; a
ROOM-JOIN names the connection as well. -/
def Honest (unpack : BitVec 32 → List (BitVec 8) → Bool) (w : World) : Event → Prop
  | .recv p data _ sent =>
    p ∈ w.lsnd.opened → (w.lsnd.extra p).stat ≠ .kick → (w.lsnd.extra p).seq < data.head.seq → sent = true →
    match w.lsnd.route p data.head.cmd with
    | some .mesgDef => w.login p = some (w.lsnd.extra p).sid
    | some .offline => w.lsnd.Finds p data.head.sid → w.login p = some data.head.sid
    | some .roomJoin => w.login p = some data.head.sid ∧ data.head.cid = (w.lsnd.extra p).cid
    | some .roomQuit => unpack data.head.length data.body = true → w.login p = some data.head.sid
    | _ => True
  | _ => True

theorem forwarded_eq_some {p : Ptr} {data m : Packet} {mem sent : Bool} :
    w.forwarded nid unpack (.recv p data mem sent) = some m ↔
      p ∈ w.lsnd.opened ∧ (w.lsnd.extra p).stat ≠ .kick ∧ (w.lsnd.extra p).seq < data.head.seq ∧ sent = true ∧
        w.lsnd.Sends nid p data unpack m (w.lsnd.route p data.head.cmd) := by
  rw [← LsndCntx.lsndCallbackRecv_sent]
  unfold forwarded
  dsimp only
  by_cases honline : query data.head.cmd = some .online
  · rw [if_pos honline, LsndCntx.lsndCallbackRecv_sent]
    simp [LsndCntx.route, honline, LsndCntx.Sends]
  · rw [if_neg honline]
    by_cases hp : p ∈ w.lsnd.opened
    · rw [if_pos hp]
      cases w.lsnd.lsndCallbackRecv nid p data sent unpack with
      | none => simp
      | some r => simp [hp]
    · simp [hp]

theorem own_iff (nid : BitVec 32) (unpack : BitVec 32 → List (BitVec 8) → Bool) (w : World) (e : Event) :
    w.Own nid unpack e ↔ w.Honest unpack e := by
  cases e with
  | recv p data mem sent =>
    unfold Own Honest
    simp only [forwarded_eq_some, and_imp]
    rw [forall_comm]
    refine imp_congr_right fun _ => ?_
    rw [forall_comm]
    refine imp_congr_right fun _ => ?_
    rw [forall_comm]
    refine imp_congr_right fun _ => ?_
    rw [forall_comm]
    refine imp_congr_right fun _ => ?_
    unfold LsndCntx.Sends
    rcases w.lsnd.route p data.head.cmd with _ | proc
    · simp
    · cases proc with
      | mesgDef => simp
      | offline => simp
      | roomJoin => simp
      | roomQuit => simp
      | online => simp
      | ping => simp
      | upmesgDef => simp
  | _ => exact Iff.rfl

end World

end BeehiveIm.Listend

namespace BeehiveIm.Websocket

open BeehiveIm.Lib

/-- Both listeners pass messages on in the name of the session that the connection is logged in as
exactly as long as their clients are honest. -/
theorem sender_own_iff (env : Env) (nid : BitVec 32) (events : List LsndCntx.Event)
    (unpack : BitVec 32 → List (BitVec 8) → Bool) (cevents : List Listend.World.Event) :
    (Guarded (World.step env) (World.Own env) (World.init nid) events ↔
        Guarded (World.step env) (World.Honest env) (World.init nid) events) ∧
      (Along (Listend.World.step nid unpack) (Listend.World.Own nid unpack) .init cevents ↔
        Along (Listend.World.step nid unpack) (Listend.World.Honest unpack) .init cevents) := by
  constructor
  · exact guarded_congr (fun _ => True) (fun _ _ _ => trivial) (fun w e _ => World.own_iff env w e) events _ trivial
  · exact along_congr (Listend.World.own_iff nid unpack) cevents _

/-- At the WebSocket listener a client that is logged in as session 5 writes session 6 into
a message; at the one in C a client sends ONLINE for session 6 and writes on without
waiting for the answer. -/
theorem other_session_named :
    (¬∀ (env : Env) (nid : BitVec 32) (events : List LsndCntx.Event),
    Guarded (World.step env) (World.Own env) (World.init nid) events) ∧
    ¬∀ (nid : BitVec 32) (unpack : BitVec 32 → List (BitVec 8) → Bool) (events : List Listend.World.Event),
      Along (Listend.World.step nid unpack) (Listend.World.Own nid unpack) .init events := by
  let online (sid : BitVec 64) : Packet := ⟨⟨cmdOnline, 0, sid, 0, 0, 1, 0, 0⟩, []⟩
  let chat (seq : BitVec 64) : Packet := ⟨⟨0x0201, 0, 6, 0, 0, seq, 0, 0⟩, []⟩
  constructor
  · intro h
    let env : Env := ⟨fun _ => .ok ⟨5, 10, 0⟩, fun _ => .error "", fun _ => .error "", fun _ => .error ""⟩
    have hall := h env 1 [.connect, .recv 1 (online 5) [], .onlineAck ⟨⟨0x0102, 0, 5, 1, 1, 1, 0, 0⟩, []⟩,
      .recv 1 (chat 11) []]
    have hown := hall.2.2.2.1 (by decide) ⟨1, 0x0201, ⟨⟨0x0201, 0, 6, 1, 1, 11, 0, 0⟩, []⟩⟩ (by decide) (by decide)
    exact absurd hown.1 (by decide)
  · intro h
    have hall := h 1 (fun _ _ => true) [.connect 1, .recv 0 (online 6) true true, .recv 0 (chat 2) true true]
    have hrun : ((Listend.World.init.step 1 (fun _ _ => true) (.connect 1)).bind fun w =>
        w.step 1 (fun _ _ => true) (.recv 0 (online 6) true true)).map
          (fun w => (w.forwarded 1 (fun _ _ => true) (.recv 0 (chat 2) true true), w.login 0)) =
        some (some ⟨⟨0x0201, 0, 6, 1, 1, 2, 0, 0⟩, []⟩, none) := by decide
    obtain ⟨w, hw, hend⟩ := Option.map_eq_some_iff.1 hrun
    obtain ⟨w₁, hw₁, hw⟩ := Option.bind_eq_some_iff.1 hw
    have hown := ((hall.2 w₁ hw₁).2 w hw).1 _ (congrArg Prod.fst hend)
    cases (congrArg Prod.snd hend).symm.trans hown.1

end BeehiveIm.Websocket
