/-
Whom a KICK closes. The WebSocket listener does not look at the connection that a KICK names but at
the one its index has for the session, which another ONLINE-ACK may have moved; the listener written
in C looks up the one named.
-/
import BeehiveIm.Usrsvr
import BeehiveIm.Websocket.Table
import BeehiveIm.Listend.Conn
import BeehiveIm.Lib.Run

/-! ## The listener in C -/

namespace BeehiveIm.Core

open BeehiveIm.Lib

variable {α κ : Type}

/-- What is deleted compares as equal, in whatever order the tree is. -/
theorem RbTree.rbtDelete_found {T T' : RbTree α} {ck : α → Int} {d : α} (h : T.rbtDelete ck = some (T', some d)) :
    ck d = 0 := by
  have hloop : ∀ (fuel : Nat) (T : RbTree α) (node : Ptr), rbtDeleteLoop ck fuel T node = some (T', some d) →
      ck d = 0 := by
    intro fuel
    induction fuel with
    | zero => exact fun _ _ h => nomatch h
    | succ fuel ih =>
      intro T node h
      unfold rbtDeleteLoop at h
      split at h
      · cases h
      · dsimp only at h
        split at h
        · rename_i hcmp
          obtain ⟨_, -, heq⟩ := Option.map_eq_some_iff.1 h
          have hdata := congrArg Prod.snd heq
          unfold RbTree.cmp at hcmp
          rw [show (T.mem node).data = some d from hdata] at hcmp
          exact hcmp
        · exact ih T _ h
  exact hloop _ T T.root h

theorem HashKey.delete_found {K : HashKey κ} {key : α → κ} {H H' : HashTab α} {k : κ} {e : α}
    (h : K.delete key H k = some (H', some e)) : key e = k := by
  unfold HashKey.delete HashTab.hashTabDelete at h
  dsimp only at h
  split at h
  · split at h
    · cases h
    · rename_i hdel
      cases h
      have hfound : K.probe key k e = 0 := RbTree.rbtDelete_found hdel
      exact ((K.cmp_eq_zero k (key e)).1 hfound).symm
  · cases h

end BeehiveIm.Core

namespace BeehiveIm.Listend.LsndCntx

open BeehiveIm.Lib BeehiveIm.Core

/-- A KICK changes no connection but the one it names. -/
def Spares (L : LsndCntx) : Event → Prop
  | .kick sid cid mem =>
    ∀ L', L.step (.kick sid cid mem) = some L' → ∀ p, L'.extra p ≠ L.extra p → (L.extra p).cid = cid
  | _ => True

/-- It is so in every step of the run, as far as it gets. -/
def AllSpare : LsndCntx → List Event → Prop := Along step Spares

theorem spares (L : LsndCntx) (e : Event) : L.Spares e := by
  cases e with
  | kick sid cid mem =>
    intro L' hstep p hp
    unfold step lsndUpmesgKickHandler at hstep
    dsimp only at hstep
    split at hstep
    · cases hstep
    · cases hstep
      exact absurd rfl hp
    · rename_i connList conn hdel
      cases hstep
      have hkey : (L.extra conn).cid = cid := congrArg Prod.snd (HashKey.delete_found hdel)
      by_contra hne
      have hpne : p ≠ conn := by
        rintro rfl
        exact hne hkey
      refine hp ?_
      unfold lsndKickAdd
      split
      · exact Function.update_of_ne hpne ..
      · rfl
  | _ => trivial

end BeehiveIm.Listend.LsndCntx

/-! ## The WebSocket listener -/

namespace BeehiveIm.Websocket.LsndCntx

open BeehiveIm.Lib BeehiveIm.GoChat

variable {env : Env} {ctx ctx' : LsndCntx}

/-- Each entry leads to its own connection, and what the index has is an entry. -/
structure Linked (ctx : LsndCntx) : Prop where
  param : ∀ sid cid param, ctx.chat.params (sid, cid) = some param → param = some cid
  index : ∀ sid cid, ctx.chat.sid2cids.get sid = some cid → (ctx.chat.params (sid, cid)).isSome

namespace Linked

theorem init (nid : BitVec 32) : (init nid).Linked where
  param _ _ _ h := nomatch h
  index _ _ h := nomatch h

theorem of_chat (h : ctx.Linked) (hchat : ctx'.chat = ctx.chat) : ctx'.Linked where
  param sid cid param hparam := by
    rw [hchat] at hparam
    exact h.param sid cid param hparam
  index sid cid hcid := by
    rw [hchat] at hcid ⊢
    exact h.index sid cid hcid

theorem frame (h : ctx.Linked) (hf : Frame ctx ctx') : ctx'.Linked where
  param sid cid param hparam := by
    rw [hf.params] at hparam
    exact h.param sid cid param hparam
  index sid cid hcid := by
    rw [hf.index] at hcid
    rw [hf.params]
    exact h.index sid cid hcid

theorem close (h : ctx.Linked) (conn : BitVec 64) (order : List (Rid × Gid)) : (ctx.close conn order).Linked := by
  obtain ⟨hparams, hindex⟩ := ChatTab.sessionDel_frame ctx.chat (ctx.extra conn).sid conn order
  constructor
  · intro sid cid param hclose
    have hparam := (hparams (sid, cid)).symm.trans hclose
    split at hparam
    · cases hparam
    · exact h.param sid cid param hparam
  · intro sid cid hclose
    obtain ⟨hcid, hne⟩ := hindex sid cid hclose
    exact (congrArg Option.isSome ((hparams (sid, cid)).trans (if_neg hne))).trans (h.index sid cid hcid)

theorem lsndMesgOnlineHandler (h : ctx.Linked) (conn : BitVec 64) (cmd : BitVec 32) (data : Packet) :
    (ctx.lsndMesgOnlineHandler conn cmd data).1.Linked := by
  unfold LsndCntx.lsndMesgOnlineHandler
  split
  · exact h
  · split
    · exact h
    · rename_i hget
      rw [ChatTab.sessionGetParam_eq] at hget
      -- an entry without a connection is never made
      have hno : ctx.chat.params (data.head.sid, conn) = none := by
        by_contra hne
        obtain ⟨param, hparam⟩ := Option.ne_none_iff_exists'.1 hne
        rw [hparam, h.param _ _ _ hparam] at hget
        cases hget
      have hparams := ChatTab.params_sessionSetParam (some conn) hno
      have hindex := ChatTab.sessionSetParam_index ctx.chat data.head.sid conn (some conn)
      constructor
      · intro sid cid param hset
        have hparam := (hparams (sid, cid)).symm.trans hset
        split at hparam
        · rename_i hkey
          cases hparam
          cases hkey
          rfl
        · exact h.param sid cid param hparam
      · intro sid cid hcid
        have hsome := h.index sid cid (hindex ▸ hcid)
        refine (congrArg Option.isSome (hparams (sid, cid))).trans ?_
        split
        · rfl
        · exact hsome

theorem sessionSetCid (h : ctx.Linked) {sid cid : BitVec 64} (hsome : (ctx.chat.params (sid, cid)).isSome) :
    { ctx with chat := (ctx.chat.sessionSetCid sid cid).1 }.Linked := by
  refine ⟨h.param, fun sid' cid' hget => ?_⟩
  simp only [ChatTab.sessionSetCid, Shards.get_set] at hget
  split at hget
  · rename_i hsid
    cases hget
    rw [hsid]
    exact hsome
  · exact h.index sid' cid' hget

theorem lsndUpMesgOnlineAckHandler (h : ctx.Linked) (env : Env) (data : Packet) :
    (ctx.lsndUpMesgOnlineAckHandler env data).Linked := by
  unfold LsndCntx.lsndUpMesgOnlineAckHandler
  dsimp only
  split
  · exact h
  · split
    · exact h.frame (.lsndErrorOnlineAckHandler ..)
    · rename_i ack _
      split
      · exact h.frame (.lsndErrorOnlineAckHandler ..)
      · split
        · exact h.frame (.lsndErrorOnlineAckHandler ..)
        · rename_i conn hconn
          split
          · exact h.frame (.lsndErrorOnlineAckHandler ..)
          · rename_i ctx₁ hseq
            rw [ChatTab.sessionGetParam_eq, Option.join_eq_some_iff] at hconn
            have hchat : ctx₁.chat = ctx.chat := by
              rw [(setSeq_eq_some.1 hseq).2]
              rfl
            have hkick : (if data.head.cid ≠ (ctx₁.setStatus conn .login).chat.getCidBySid ack.sid then
                (ctx₁.setStatus conn .login).kickAdd ((ctx₁.setStatus conn .login).chat.getCidBySid ack.sid)
              else ctx₁.setStatus conn .login).chat = ctx.chat := by
              split
              · exact hchat
              · exact hchat
            have hsome : ((if data.head.cid ≠ (ctx₁.setStatus conn .login).chat.getCidBySid ack.sid then
                (ctx₁.setStatus conn .login).kickAdd ((ctx₁.setStatus conn .login).chat.getCidBySid ack.sid)
              else ctx₁.setStatus conn .login).chat.params (ack.sid, data.head.cid)).isSome := by
              rw [hkick, hconn]
              rfl
            exact ((h.of_chat hkick).sessionSetCid hsome).frame (.asyncSend ..)

theorem step (h : ctx.Linked) (env : Env) (e : Event) : (ctx.step env e).Linked := by
  cases e with
  | connect =>
    unfold LsndCntx.step connHandler
    dsimp only
    split
    · exact h
    · exact h.of_chat rfl
  | recv conn data order =>
    unfold LsndCntx.step
    dsimp only
    split
    · have hrecv : (ctx.lsndConnRecv env conn data).1.Linked := by
        rcases lsndConnRecv_cases ctx env conn data with ⟨-, -, -, heq⟩ | ⟨-, heq⟩
        · rw [heq]
          have hseq : (ctx.setExtra conn fun e => { e with seq := data.head.seq }).Linked := h.of_chat rfl
          by_cases hcb : query data.head.cmd = .online
          · rw [hcb]
            exact hseq.lsndMesgOnlineHandler conn data.head.cmd data
          · exact hseq.frame (.proc _ _ _ _ _ hcb)
        · rw [heq]
          exact h
      unfold LsndCntx.recv
      rcases hret : ctx.lsndConnRecv env conn data with ⟨ctx', ret⟩
      rw [hret] at hrecv
      dsimp only
      split
      · exact hrecv.close conn order
      · exact hrecv
    · exact h
  | onlineAck data => exact h.lsndUpMesgOnlineAckHandler env data
  | kick data => exact h.frame (.lsndUpMesgKickHandler ctx env data)
  | timer => exact h.frame (.taskTimerKick ctx)
  | close conn order =>
    unfold LsndCntx.step
    dsimp only
    split
    · exact h.close conn order
    · exact h

theorem sessionGetParam (h : ctx.Linked) {sid : BitVec 64} (hcid : ctx.chat.getCidBySid sid ≠ 0) :
    ctx.chat.sessionGetParam sid (ctx.chat.getCidBySid sid) = some (ctx.chat.getCidBySid sid) := by
  unfold ChatTab.getCidBySid at hcid ⊢
  cases hget : ctx.chat.sid2cids.get sid with
  | none => simp [hget] at hcid
  | some cid =>
    obtain ⟨param, hparam⟩ := Option.isSome_iff_exists.1 (h.index sid cid hget)
    rw [Option.getD_some, ChatTab.sessionGetParam_eq, hparam, h.param _ _ _ hparam]
    rfl

/-- What a KICK puts into the list: what the index has for the session. -/
theorem mem_kick_iff (h : ctx.Linked) {env : Env} {data : Packet} {c : BitVec 64} :
    c ∈ (ctx.lsndUpMesgKickHandler env data).kickList.drop ctx.kickList.length ↔
      data.head.nid ≠ 0 ∧ (∃ u, env.kick data.body = .ok u) ∧ c ≠ 0 ∧ ctx.chat.getCidBySid data.head.sid = c := by
  unfold lsndUpMesgKickHandler
  by_cases hnid : data.head.nid = 0
  · simp [MesgHeader.isValid, hnid]
  · have hvalid : data.head.isValid false = true := by simpa [MesgHeader.isValid] using hnid
    rw [hvalid]
    cases hbody : env.kick data.body with
    | error err => simp
    | ok u =>
      dsimp only
      by_cases hcid : ctx.chat.getCidBySid data.head.sid = 0
      · rw [if_pos hcid, hcid]
        refine iff_of_false (by simp) ?_
        rintro ⟨-, -, hne, heq⟩
        exact hne heq.symm
      · have hget := h.sessionGetParam hcid
        have hlist : (ctx.asyncSend (ctx.chat.getCidBySid data.head.sid) data).kickList = ctx.kickList := by
          unfold asyncSend
          split
          · rfl
          · rfl
        rw [if_neg hcid, hget]
        simp only [Bool.not_true, Bool.false_eq_true, if_false, kickAdd, hlist, List.drop_left, List.mem_singleton]
        constructor
        · rintro rfl
          exact ⟨hnid, ⟨u, trivial⟩, hcid, rfl⟩
        · rintro ⟨-, -, -, heq⟩
          exact heq.symm

end Linked

end BeehiveIm.Websocket.LsndCntx

/-! ## Runs of both ends -/

namespace BeehiveIm.Usrsvr.World

open BeehiveIm.Lib BeehiveIm.Websocket

variable {env : Env} {w : World} {e : Event}

/-- A KICK for a connection puts no other that is open into the list of those to be closed. -/
def Spares (env : Env) (w : World) : Event → Prop
  | .down i => ∀ data, w.down[i]? = some data → data.head.cmd = cmdKick → data.head.cid ≠ 0 →
    ∀ c ∈ (w.step env (.down i)).lsnd.kickList.drop w.lsnd.kickList.length, c ∈ w.lsnd.opened → c = data.head.cid
  | _ => True

/-- It is so in every step of the run. -/
def AllSpare (env : Env) : World → List Event → Prop := Guarded (step env) (Spares env)

/-- A KICK with a good header and body finds that the index has for the session the connection it
names, none, or one that has been closed. -/
def Named (env : Env) (w : World) : Event → Prop
  | .down i => ∀ data, w.down[i]? = some data → data.head.cmd = cmdKick → data.head.cid ≠ 0 → data.head.nid ≠ 0 →
    (∃ u, env.lsnd.kick data.body = .ok u) → w.lsnd.chat.getCidBySid data.head.sid ≠ 0 →
    w.lsnd.chat.getCidBySid data.head.sid ∈ w.lsnd.opened → w.lsnd.chat.getCidBySid data.head.sid = data.head.cid
  | _ => True

theorem linked_step (h : w.lsnd.Linked) (env : Env) (e : Event) : (w.step env e).lsnd.Linked := by
  cases e with
  | connect => exact h.step env.lsnd .connect
  | recv conn data order => exact h.step env.lsnd (.recv conn data order)
  | timer => exact h.step env.lsnd .timer
  | close conn order => exact h.step env.lsnd (.close conn order)
  | up i now seq =>
    simp only [step]
    split
    · exact h
    · exact h.of_chat rfl
  | other cmd data now seq =>
    simp only [step]
    split
    · exact h
    · exact h
  | down i =>
    simp only [step]
    split
    · exact h
    · rename_i data _
      unfold upmesg
      split
      · exact h.step env.lsnd (.onlineAck data)
      · split
        · exact h.step env.lsnd (.kick data)
        · exact h

theorem spares_iff (h : w.lsnd.Linked) : w.Spares env e ↔ w.Named env e := by
  cases e with
  | down i =>
    unfold Spares Named
    refine forall_congr' fun data => imp_congr_right fun hdata => imp_congr_right fun hcmd => imp_congr_right fun _ =>
      ?_
    have hstep : (w.step env (.down i)).lsnd = w.lsnd.lsndUpMesgKickHandler env.lsnd data := by
      simp only [step, hdata, upmesg]
      rw [if_neg (by rw [hcmd]; decide), if_pos hcmd]
    simp only [hstep, h.mem_kick_iff]
    constructor
    · intro hspare hnid hbody hcid hopen
      exact hspare _ ⟨hnid, hbody, hcid, rfl⟩ hopen
    · rintro hnamed c ⟨hnid, hbody, hcid, rfl⟩ hopen
      exact hnamed hnid hbody hcid hopen
  | _ => exact Iff.rfl

/-- At the WebSocket listener KICKs spare the connections they do not name exactly as long as the
index has none of these; at the listener written in C they always do. -/
theorem kick_spares_iff (env : Env) (nid : BitVec 32) (events : List Event) (cevents : List Listend.LsndCntx.Event) :
    (AllSpare env (init nid) events ↔ Guarded (step env) (Named env) (init nid) events) ∧
      Listend.LsndCntx.init.AllSpare cevents := by
  constructor
  · exact guarded_congr (fun w => w.lsnd.Linked) (fun _ e h => linked_step h env e) (fun _ _ h => spares_iff h) events _
      (.init nid)
  · exact along_of_forall Listend.LsndCntx.spares cevents _

/-- Reads an ONLINE-ACK that is marshalled as its numbers, each in a byte. -/
def unmarshalBytes : List (BitVec 8) → Except String MesgOnlineAck
  | [sid, seq, code] => .ok ⟨sid.setWidth 64, seq.setWidth 64, code.setWidth 32⟩
  | _ => .error ""

/-- A session comes online on a second connection, and its ONLINE-ACK overtakes the KICK of the
first. -/
theorem newer_connection_kicked : ¬∀ (env : Env) (nid : BitVec 32) (events : List Event),
    AllSpare env (init nid) events := by
  intro h
  let env : Env :=
    { lsnd := ⟨unmarshalBytes, fun _ => .error "", fun _ => .error "", fun _ => .ok ()⟩
      online := fun _ => .ok (⟨7, 5⟩, [])
      token := fun _ => some ⟨7, 100, 5⟩
      onlineAck := fun ack => [ack.sid.setWidth 8, ack.seq.setWidth 8, ack.code.setWidth 8]
      kick := fun _ _ => [] }
  let online : Packet := ⟨⟨cmdOnline, 0, 5, 0, 0, 1, 0, 0⟩, []⟩
  have hall := h env 1 [.connect, .recv 1 online [], .up 0 0 (some 10), .down 0, .connect, .recv 2 online [],
    .up 0 0 (some 20), .down 1, .down 0]
  have hspare := hall.2.2.2.2.2.2.2.2.1 ⟨⟨cmdKick, 0, 5, 1, 1, 0, 0, 0⟩, []⟩ (by decide) rfl (by decide) 2
    (by decide) (by decide)
  exact absurd hspare (by decide)

end BeehiveIm.Usrsvr.World
