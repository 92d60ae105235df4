/-
The session table of the WebSocket listener against its connections. An ONLINE makes an entry under
the session it names, and a connection that waits for its ONLINE-ACK may send another, but only the
entry of the last one is deleted at the end: the table is right exactly as long as all ONLINEs of a
connection name one session.
-/
import BeehiveIm.Websocket
import BeehiveIm.GoChat.Run
import BeehiveIm.Lib.Run

namespace BeehiveIm.GoChat.ChatTab

open BeehiveIm.Lib

variable {π : Type} {tab : ChatTab π} {sid cid : BitVec 64} {key : ChatSessionKey}

/-- The sessions with what is behind them. -/
def params (tab : ChatTab π) (key : ChatSessionKey) : Option (Option π) := (tab.sessions.get key).map (·.param)

theorem sessionGetParam_eq (tab : ChatTab π) (sid cid : BitVec 64) :
    tab.sessionGetParam sid cid = (tab.params (sid, cid)).join := by
  unfold sessionGetParam params
  cases tab.sessions.get (sid, cid) <;> rfl

theorem params_set {ssn : ChatSessionItem π} (h : tab.params key = some ssn.param) (k : ChatSessionKey) :
    { tab with sessions := tab.sessions.set key ssn }.params k = tab.params k := by
  unfold params
  rw [Shards.get_set]
  split
  · rename_i hk
    rw [hk]
    exact h.symm
  · rfl

theorem params_subDel (tab : ChatTab π) (sid cid : BitVec 64) (cmd : BitVec 32) (k : ChatSessionKey) :
    (tab.subDel sid cid cmd).1.params k = tab.params k := by
  unfold subDel
  split
  · rfl
  · rename_i ssn hssn
    exact params_set (by simp [params, hssn]) k

theorem params_roomQuit (tab : ChatTab π) (rid : Rid) (sid cid : BitVec 64) (k : ChatSessionKey) :
    (tab.roomQuit rid sid cid).1.params k = tab.params k ∧ (tab.roomQuit rid sid cid).1.sid2cids = tab.sid2cids := by
  have hquit : (tab.sessionQuitRoom rid sid cid).1.params k = tab.params k := by
    unfold sessionQuitRoom
    split
    · rename_i ssn hssn
      split
      · rfl
      · exact params_set (by simp [params, hssn]) k
    · rfl
  have hindex := (sessionQuitRoom_frame tab rid sid cid).2
  unfold roomQuit
  rcases htab : tab.sessionQuitRoom rid sid cid with ⟨tab', gid⟩
  rw [htab] at hquit hindex
  cases gid with
  | none => exact ⟨hquit, hindex⟩
  | some gid =>
    have hsame := roomDelSession_same tab' rid gid sid cid
    refine ⟨?_, hsame.2.trans hindex⟩
    unfold params
    rw [hsame.1]
    exact hquit

theorem params_sessionSetParam (param : Option π) (h : tab.params (sid, cid) = none) (k : ChatSessionKey) :
    (tab.sessionSetParam sid cid param).1.params k = if k = (sid, cid) then some param else tab.params k := by
  have hnone : tab.sessions.get (sid, cid) = none := by simpa [params] using h
  unfold sessionSetParam params
  simp only [hnone, Shards.get_set]
  split
  · rfl
  · rfl

theorem sessionSetParam_index (tab : ChatTab π) (sid cid : BitVec 64) (param : Option π) :
    (tab.sessionSetParam sid cid param).1.sid2cids = tab.sid2cids := by
  unfold sessionSetParam
  split
  · rfl
  · rfl

/-- `SessionDel` takes out one entry and, if it names the connection, that of the index. -/
theorem sessionDel_frame (tab : ChatTab π) (sid cid : BitVec 64) (order : List (Rid × Gid)) :
    (∀ k, (tab.sessionDel sid cid order).1.params k = if k = (sid, cid) then none else tab.params k) ∧
    ∀ sid' cid', (tab.sessionDel sid cid order).1.sid2cids.get sid' = some cid' →
      tab.sid2cids.get sid' = some cid' ∧ (sid', cid') ≠ (sid, cid) := by
  obtain ⟨-, hsessions, hindex⟩ := sid2cidDel_spec tab sid cid
  obtain ⟨-, hindex'⟩ := sessionTake_frame (tab.sid2cidDel sid cid) sid cid
  have htake : ∀ k, ((tab.sid2cidDel sid cid).sessionTake sid cid).1.params k = if k = (sid, cid) then none
      else tab.params k := by
    intro k
    unfold sessionTake params
    rw [hsessions]
    split
    · rename_i hnone
      simp only [hsessions]
      split
      · rename_i hk
        rw [hk, hnone]
        rfl
      · rfl
    · simp only [Shards.get_del]
      split
      · rfl
      · rfl
  have hfold : ∀ (rooms : List (Rid × Gid)) (tab : ChatTab π),
      SameSessions tab (rooms.foldl (fun tab e => tab.roomDelSession e.1 e.2 sid cid) tab) := by
    intro rooms
    induction rooms with
    | nil => exact fun tab => .refl tab
    | cons e rooms ih => exact fun tab => (roomDelSession_same tab e.1 e.2 sid cid).trans (ih _)
  unfold sessionDel
  rcases htab : (tab.sid2cidDel sid cid).sessionTake sid cid with ⟨tab', ssn⟩
  rw [htab] at htake hindex'
  cases ssn with
  | none => exact ⟨htake, fun sid' cid' h => hindex sid' cid' (hindex' ▸ h)⟩
  | some ssn =>
    have hsame := hfold (ranged order ssn.rooms) tab'
    constructor
    · intro k
      simp only [params, hsame.1]
      exact htake k
    · intro sid' cid' h
      simp only [hsame.2] at h
      exact hindex sid' cid' (hindex' ▸ h)

end BeehiveIm.GoChat.ChatTab

namespace BeehiveIm.Websocket.LsndCntx

open BeehiveIm.Lib BeehiveIm.GoChat

variable {env : Env} {ctx ctx' : LsndCntx} {e : Event} {conn : BitVec 64}

/-! ## What is asked for -/

/-- An entry with a connection belongs to that connection, which is open and has the session, and
what is not open has no entry. -/
structure TableOk (ctx : LsndCntx) : Prop where
  conn : ∀ sid cid conn, ctx.chat.sessionGetParam sid cid = some conn →
    conn = cid ∧ conn ∈ ctx.opened ∧ (ctx.extra conn).sid = sid
  closed : ∀ sid cid, cid ∉ ctx.opened → ctx.chat.sessions.get (sid, cid) = none ∧ ctx.chat.sid2cids.get sid ≠ some cid

/-- The table is right in every state of the run. -/
def AllOk (env : Env) : LsndCntx → List Event → Prop
  | ctx, [] => ctx.TableOk
  | ctx, e :: events => ctx.TableOk ∧ AllOk env (ctx.step env e) events

/-- An ONLINE that is taken while another waits for its answer names the same session. -/
def Steady (ctx : LsndCntx) : Event → Prop
  | .recv conn data _ =>
    conn ∈ ctx.opened → data.head.cmd = cmdOnline → ctx.nid ≠ 0 → data.head.sid ≠ 0 →
    (ctx.extra conn).seq < data.head.seq →
      (ctx.extra conn).status = .check → data.head.sid = (ctx.extra conn).sid
  | _ => True

/-! ## What is received -/

theorem setSeq_eq_some {seq : BitVec 64} : ctx.setSeq conn seq = some ctx' ↔
    (ctx.extra conn).seq < seq ∧ ctx' = ctx.setExtra conn fun e => { e with seq := seq } := by
  unfold setSeq
  split
  · rename_i hlt
    simp [hlt, eq_comm]
  · rename_i hlt
    simp [hlt]

theorem query_eq_online {cmd : BitVec 32} : query cmd = .online ↔ cmd = cmdOnline := by
  unfold query
  split
  · rename_i h
    simp [h]
  · rename_i h
    simp only [h, iff_false]
    repeat' split
    all_goals exact fun h => nomatch h

/-- A packet gets to its handler when its header is good and its number is new. -/
theorem lsndConnRecv_cases (ctx : LsndCntx) (env : Env) (conn : BitVec 64) (data : Packet) :
    ctx.nid ≠ 0 ∧ data.head.sid ≠ 0 ∧ (ctx.extra conn).seq < data.head.seq ∧
      ctx.lsndConnRecv env conn data =
        (ctx.setExtra conn fun e => { e with seq := data.head.seq }).proc env conn data.head.cmd data
        (query data.head.cmd) ∨
    ¬(ctx.nid ≠ 0 ∧ data.head.sid ≠ 0 ∧ (ctx.extra conn).seq < data.head.seq) ∧
    ctx.lsndConnRecv env conn data = (ctx, -1) := by
  unfold lsndConnRecv
  by_cases hvalid : ctx.nid ≠ 0 ∧ data.head.sid ≠ 0
  · have hgood : ({ data.head with nid := ctx.nid } : MesgHeader).isValid true = true := by
      simpa [MesgHeader.isValid] using hvalid
    rw [hgood]
    by_cases hlt : (ctx.extra conn).seq < data.head.seq
    · exact .inl ⟨hvalid.1, hvalid.2, hlt, by simp [setSeq, hlt]⟩
    · exact .inr ⟨fun h => hlt h.2.2, by simp [setSeq, hlt]⟩
  · have hbad : ({ data.head with nid := ctx.nid } : MesgHeader).isValid true = false := by
      simpa [MesgHeader.isValid, not_and_or] using hvalid
    rw [hbad]
    exact .inr ⟨fun h => hvalid ⟨h.1, h.2.1⟩, rfl⟩

/-- A connection that waits for an ONLINE-ACK gets an entry for another session. -/
theorem lsndMesgOnlineHandler_of_check (ctx : LsndCntx) {data : Packet} (cmd : BitVec 32)
    (hcheck : (ctx.extra conn).status = .check) (hget : ctx.chat.sessionGetParam data.head.sid conn = none) :
    ∃ ctx', ctx.lsndMesgOnlineHandler conn cmd data = (ctx', 0) ∧ (ctx'.extra conn).sid = data.head.sid ∧
      ctx'.chat = (ctx.chat.sessionSetParam data.head.sid conn (some conn)).1 := by
  unfold lsndMesgOnlineHandler
  rw [if_neg fun hstatus => hstatus.2 hcheck]
  simp only [hget]
  refine ⟨_, rfl, ?_, rfl⟩
  simp only [setStatus, extra_setExtra_self, forward]

/-! ## Steps that change no entry -/

/-- The entries and the sessions of the connections are the same. -/
structure Frame (ctx ctx' : LsndCntx) : Prop where
  nid : ctx'.nid = ctx.nid
  cid : ctx'.cid = ctx.cid
  opened : ctx'.opened = ctx.opened
  sid : ∀ c, (ctx'.extra c).sid = (ctx.extra c).sid
  ready : ∀ c, (ctx'.extra c).status = .ready ↔ (ctx.extra c).status = .ready
  params : ∀ key, ctx'.chat.params key = ctx.chat.params key
  index : ctx'.chat.sid2cids = ctx.chat.sid2cids

namespace Frame

theorem refl (ctx : LsndCntx) : Frame ctx ctx := ⟨rfl, rfl, rfl, fun _ => rfl, fun _ => Iff.rfl, fun _ => rfl, rfl⟩

theorem trans {ctx'' : LsndCntx} (h : Frame ctx ctx') (h' : Frame ctx' ctx'') : Frame ctx ctx'' where
  nid := h'.nid.trans h.nid
  cid := h'.cid.trans h.cid
  opened := h'.opened.trans h.opened
  sid c := (h'.sid c).trans (h.sid c)
  ready c := (h'.ready c).trans (h.ready c)
  params key := (h'.params key).trans (h.params key)
  index := h'.index.trans h.index

theorem setExtra {g : LsndConnExtra → LsndConnExtra} (hsid : (g (ctx.extra conn)).sid = (ctx.extra conn).sid)
    (hready : (g (ctx.extra conn)).status = .ready ↔ (ctx.extra conn).status = .ready) :
    Frame ctx (ctx.setExtra conn g) := by
  refine { refl ctx with sid := fun c => ?_, ready := fun c => ?_ }
  · rcases eq_or_ne c conn with rfl | hne
    · rw [extra_setExtra_self]
      exact hsid
    · rw [extra_setExtra_of_ne _ hne]
  · rcases eq_or_ne c conn with rfl | hne
    · rw [extra_setExtra_self]
      exact hready
    · rw [extra_setExtra_of_ne _ hne]

theorem setSeq {seq : BitVec 64} (h : ctx.setSeq conn seq = some ctx') : Frame ctx ctx' := by
  unfold LsndCntx.setSeq at h
  split at h
  · cases h
    exact setExtra rfl Iff.rfl
  · cases h

theorem forward (ctx : LsndCntx) (conn : BitVec 64) (cmd : BitVec 32) (data : Packet) :
    Frame ctx (ctx.forward conn cmd data) := { refl ctx with }

theorem asyncSend (ctx : LsndCntx) (cid : BitVec 64) (data : Packet) : Frame ctx (ctx.asyncSend cid data) := by
  unfold LsndCntx.asyncSend
  split
  · exact refl ctx
  · exact { refl ctx with }

theorem kick (ctx : LsndCntx) (cid : BitVec 64) : Frame ctx (ctx.kick cid) := by
  unfold LsndCntx.kick
  split
  · exact refl ctx
  · exact { refl ctx with }

theorem kickAdd (ctx : LsndCntx) (cid : BitVec 64) : Frame ctx (ctx.kickAdd cid) := { refl ctx with }

theorem lsndMesgOfflineHandler (ctx : LsndCntx) (conn : BitVec 64) : Frame ctx (ctx.lsndMesgOfflineHandler conn).1 := by
  unfold LsndCntx.lsndMesgOfflineHandler
  split
  · exact kick ctx conn
  · rename_i hlogin
    refine (setExtra rfl ?_).trans (kick _ conn)
    simp [not_not.1 hlogin]

theorem lsndMesgUnsubHandler (ctx : LsndCntx) (env : Env) (conn : BitVec 64) (cmd : BitVec 32) (data : Packet) :
    Frame ctx (ctx.lsndMesgUnsubHandler env conn cmd data).1 := by
  unfold LsndCntx.lsndMesgUnsubHandler
  split
  · exact kick ctx conn
  · split
    · exact refl ctx
    · rename_i unsub _
      refine { refl ctx with params := fun key => ChatTab.params_subDel ctx.chat data.head.sid conn unsub key, index := ?_ }
      simp only [LsndCntx.forward, ChatTab.subDel]
      split
      · rfl
      · rfl

theorem lsndMesgRoomQuitHandler (ctx : LsndCntx) (env : Env) (conn : BitVec 64) (cmd : BitVec 32) (data : Packet) :
    Frame ctx (ctx.lsndMesgRoomQuitHandler env conn cmd data).1 := by
  unfold LsndCntx.lsndMesgRoomQuitHandler
  split
  · exact kick ctx conn
  · split
    · exact kick ctx conn
    · split
      · exact refl ctx
      · rename_i rid _
        have hquit := ChatTab.params_roomQuit ctx.chat rid (ctx.extra conn).sid conn
        exact { refl ctx with params := fun key => (hquit key).1, index := (hquit (0, 0)).2 }

/-- Only an ONLINE makes an entry. -/
theorem proc (ctx : LsndCntx) (env : Env) (conn : BitVec 64) (cmd : BitVec 32) (data : Packet) {cb : MesgCallBack}
    (h : cb ≠ .online) : Frame ctx (ctx.proc env conn cmd data cb).1 := by
  cases cb with
  | online => exact absurd rfl h
  | comm =>
    unfold LsndCntx.proc LsndCntx.lsndMesgCommHandler
    dsimp only
    split
    · exact kick ctx conn
    · exact forward ..
  | offline => exact lsndMesgOfflineHandler ctx conn
  | ping =>
    unfold LsndCntx.proc LsndCntx.lsndMesgPingHandler
    dsimp only
    split
    · exact kick ctx conn
    · exact (forward ..).trans (asyncSend ..)
  | unsub => exact lsndMesgUnsubHandler ctx env conn cmd data
  | roomQuit => exact lsndMesgRoomQuitHandler ctx env conn cmd data

theorem lsndErrorOnlineAckHandler (ctx : LsndCntx) (cid : BitVec 64) (data : Packet) :
    Frame ctx (ctx.lsndErrorOnlineAckHandler cid data) :=
  (asyncSend ctx cid data).trans (kickAdd _ cid)

theorem lsndUpMesgKickHandler (ctx : LsndCntx) (env : Env) (data : Packet) :
    Frame ctx (ctx.lsndUpMesgKickHandler env data) := by
  unfold LsndCntx.lsndUpMesgKickHandler
  split
  · exact refl ctx
  · split
    · exact refl ctx
    · dsimp only
      split
      · exact refl ctx
      · split
        · exact refl ctx
        · exact (asyncSend ..).trans (kickAdd ..)

theorem taskTimerKick (ctx : LsndCntx) : Frame ctx ctx.taskTimerKick := by
  unfold LsndCntx.taskTimerKick
  split
  · exact refl ctx
  · exact { kick .. with }

end Frame

/-! ## What holds while all goes well -/

/-- Exactly the connections that have sent an ONLINE have an entry, under their session. -/
structure Inv (ctx : LsndCntx) : Prop where
  entry : ∀ sid cid param, ctx.chat.params (sid, cid) = some param →
    param = some cid ∧ cid ∈ ctx.opened ∧ (ctx.extra cid).sid = sid ∧ (ctx.extra cid).status ≠ .ready
  index : ∀ sid cid, ctx.chat.sid2cids.get sid = some cid → (ctx.chat.params (sid, cid)).isSome
  online : ∀ cid ∈ ctx.opened, (ctx.extra cid).status ≠ .ready → (ctx.chat.params ((ctx.extra cid).sid, cid)).isSome
  fresh : ∀ cid ∈ ctx.opened, cid ≤ ctx.cid

namespace Inv

theorem init (nid : BitVec 32) : (init nid).Inv where
  entry _ _ _ h := nomatch h
  index _ _ h := nomatch h
  online cid h := absurd h (Finset.notMem_empty cid)
  fresh cid h := absurd h (Finset.notMem_empty cid)

theorem frame (h : ctx.Inv) (hf : Frame ctx ctx') : ctx'.Inv where
  entry sid cid param hparam := by
    rw [hf.params] at hparam
    rw [hf.opened, hf.sid, ne_eq, hf.ready]
    exact h.entry sid cid param hparam
  index sid cid hcid := by
    rw [hf.index] at hcid
    rw [hf.params]
    exact h.index sid cid hcid
  online cid hcid hready := by
    rw [hf.opened] at hcid
    rw [ne_eq, hf.ready] at hready
    rw [hf.params, hf.sid]
    exact h.online cid hcid hready
  fresh cid hcid := by
    rw [hf.opened] at hcid
    rw [hf.cid]
    exact h.fresh cid hcid

theorem tableOk (h : ctx.Inv) : ctx.TableOk where
  conn sid cid conn hconn := by
    rw [ChatTab.sessionGetParam_eq, Option.join_eq_some_iff] at hconn
    obtain ⟨hparam, hopened, hsid, -⟩ := h.entry sid cid _ hconn
    cases hparam
    exact ⟨rfl, hopened, hsid⟩
  closed sid cid hcid := by
    have hnone : ctx.chat.params (sid, cid) = none := by
      by_contra hne
      obtain ⟨param, hparam⟩ := Option.ne_none_iff_exists'.1 hne
      exact hcid (h.entry sid cid param hparam).2.1
    constructor
    · simpa [ChatTab.params] using hnone
    · intro hindex
      simpa [hnone] using h.index sid cid hindex

theorem connHandler (h : ctx.Inv) : ctx.connHandler.Inv := by
  unfold LsndCntx.connHandler
  split
  · exact h
  · rename_i hmax
    have hlt : ctx.cid < ctx.cid + 1 := by
      have hne : ctx.cid.toNat ≠ 2 ^ 64 - 1 := fun heq => hmax (BitVec.eq_of_toNat_eq heq)
      bv_omega
    have hne : ∀ cid ∈ ctx.opened, cid ≠ ctx.cid + 1 := by
      rintro cid hcid rfl
      exact absurd (h.fresh _ hcid) (BitVec.not_le.2 hlt)
    refine ⟨fun sid cid param hparam => ?_, h.index, fun cid hcid hready => ?_, fun cid hcid => ?_⟩
    · obtain ⟨hcid, hopened, hsid⟩ := h.entry sid cid param hparam
      dsimp only
      rw [Function.update_of_ne (hne cid hopened)]
      exact ⟨hcid, Finset.mem_insert_of_mem hopened, hsid⟩
    · rcases Finset.mem_insert.1 hcid with rfl | hcid
      · exact absurd (by dsimp only; rw [Function.update_self]) hready
      · dsimp only at hready ⊢
        rw [Function.update_of_ne (hne cid hcid)] at hready ⊢
        exact h.online cid hcid hready
    · rcases Finset.mem_insert.1 hcid with rfl | hcid
      · exact BitVec.le_refl _
      · exact BitVec.le_trans (h.fresh cid hcid) (BitVec.le_of_lt hlt)

theorem close (h : ctx.Inv) (conn : BitVec 64) (order : List (Rid × Gid)) : (ctx.close conn order).Inv := by
  obtain ⟨hparams, hindex⟩ := ChatTab.sessionDel_frame ctx.chat (ctx.extra conn).sid conn order
  -- the connection has no entry but the one that is deleted
  have hgone : ∀ sid cid param, (ctx.close conn order).chat.params (sid, cid) = some param →
      ctx.chat.params (sid, cid) = some param ∧ cid ≠ conn := by
    intro sid cid param hclose
    have hparam := (hparams (sid, cid)).symm.trans hclose
    split at hparam
    · cases hparam
    · rename_i hkey
      refine ⟨hparam, ?_⟩
      rintro rfl
      exact hkey (by rw [(h.entry sid cid param hparam).2.2.1])
  refine ⟨fun sid cid param hparam => ?_, fun sid cid hcid => ?_, fun cid hcid hready => ?_, fun cid hcid => ?_⟩
  · obtain ⟨hparam, hne⟩ := hgone sid cid param hparam
    obtain ⟨hcid, hopened, hsid⟩ := h.entry sid cid param hparam
    exact ⟨hcid, Finset.mem_erase.2 ⟨hne, hopened⟩, hsid⟩
  · obtain ⟨hcid, hne⟩ := hindex sid cid hcid
    exact (congrArg Option.isSome ((hparams (sid, cid)).trans (if_neg hne))).trans (h.index sid cid hcid)
  · obtain ⟨hne, hcid⟩ := Finset.mem_erase.1 hcid
    have hkey : ((ctx.extra cid).sid, cid) ≠ ((ctx.extra conn).sid, conn) := fun heq => hne (Prod.mk.inj heq).2
    exact (congrArg Option.isSome ((hparams _).trans (if_neg hkey))).trans (h.online cid hcid hready)
  · exact h.fresh cid (Finset.mem_of_mem_erase hcid)

/-- An ONLINE that is taken: the connection has no entry for the session yet. -/
theorem lsndMesgOnlineHandler (h : ctx.Inv) (hopen : conn ∈ ctx.opened) (cmd : BitVec 32) (data : Packet)
    (hsteady : (ctx.extra conn).status = .check → data.head.sid = (ctx.extra conn).sid) :
    (ctx.lsndMesgOnlineHandler conn cmd data).1.Inv := by
  unfold LsndCntx.lsndMesgOnlineHandler
  split
  · exact h
  · rename_i hstatus
    split
    · exact h
    · rename_i hnone
      rw [ChatTab.sessionGetParam_eq] at hnone
      have hready : (ctx.extra conn).status = .ready := by
        by_contra hready
        have hcheck : (ctx.extra conn).status = .check := by
          by_contra hcheck
          exact hstatus ⟨hready, hcheck⟩
        obtain ⟨param, hparam⟩ := Option.isSome_iff_exists.1 (h.online conn hopen hready)
        rw [hsteady hcheck, hparam, (h.entry _ _ _ hparam).1] at hnone
        cases hnone
      have hno : ∀ sid, ctx.chat.params (sid, conn) = none := by
        intro sid
        by_contra hne
        obtain ⟨param, hparam⟩ := Option.ne_none_iff_exists'.1 hne
        exact (h.entry sid conn param hparam).2.2.2 hready
      have hparams := ChatTab.params_sessionSetParam (some conn) (hno data.head.sid)
      have hindex := ChatTab.sessionSetParam_index ctx.chat data.head.sid conn (some conn)
      refine ⟨fun sid cid param hparam => ?_, fun sid cid hcid => ?_, fun cid hcid hstat => ?_, h.fresh⟩
      · have hparam := (hparams (sid, cid)).symm.trans hparam
        split at hparam
        · rename_i hkey
          cases hparam
          cases hkey
          exact ⟨rfl, hopen, by simp [setStatus, LsndCntx.forward], by simp [setStatus]⟩
        · obtain ⟨hcid, hopened, hsid, hstat⟩ := h.entry sid cid param hparam
          have hne : cid ≠ conn := by
            rintro rfl
            exact hstat hready
          simp only [setStatus, LsndCntx.forward, extra_setExtra_of_ne _ hne]
          exact ⟨hcid, hopened, hsid, hstat⟩
      · have hisSome := h.index sid cid (hindex ▸ hcid)
        refine (congrArg Option.isSome (hparams (sid, cid))).trans ?_
        split
        · rfl
        · exact hisSome
      · refine (congrArg Option.isSome (hparams _)).trans ?_
        split
        · rfl
        · rename_i hkey
          have hne : cid ≠ conn := by
            rintro rfl
            exact hkey (by simp [setStatus, LsndCntx.forward])
          simp only [setStatus, LsndCntx.forward, extra_setExtra_of_ne _ hne] at hstat ⊢
          exact h.online cid hcid hstat

theorem sessionSetCid (h : ctx.Inv) {sid cid : BitVec 64} (hsome : (ctx.chat.params (sid, cid)).isSome) :
    { ctx with chat := (ctx.chat.sessionSetCid sid cid).1 }.Inv := by
  refine ⟨h.entry, fun sid' cid' hget => ?_, h.online, h.fresh⟩
  simp only [ChatTab.sessionSetCid, Shards.get_set] at hget
  split at hget
  · rename_i hsid
    cases hget
    rw [hsid]
    exact hsome
  · exact h.index sid' cid' hget

theorem lsndUpMesgOnlineAckHandler (h : ctx.Inv) (env : Env) (data : Packet) :
    (ctx.lsndUpMesgOnlineAckHandler env data).Inv := by
  unfold LsndCntx.lsndUpMesgOnlineAckHandler
  dsimp only
  split
  · exact h
  · split
    · exact h.frame (.lsndErrorOnlineAckHandler ..)
    · rename_i ack _
      split
      · exact h.frame (.lsndErrorOnlineAckHandler ..)
      · split
        · exact h.frame (.lsndErrorOnlineAckHandler ..)
        · rename_i conn hconn
          split
          · exact h.frame (.lsndErrorOnlineAckHandler ..)
          · rename_i ctx₁ hseq
            rw [ChatTab.sessionGetParam_eq, Option.join_eq_some_iff] at hconn
            obtain ⟨hcid, -, -, hready⟩ := h.entry _ _ _ hconn
            cases hcid
            have hseq' := Frame.setSeq hseq
            have hstatus : Frame ctx₁ (ctx₁.setStatus data.head.cid .login) := by
              refine .setExtra rfl (iff_of_false (fun h => nomatch h) ?_)
              rwa [hseq'.ready]
            have hkick : Frame (ctx₁.setStatus data.head.cid .login)
                (if data.head.cid ≠ (ctx₁.setStatus data.head.cid .login).chat.getCidBySid ack.sid then
                  (ctx₁.setStatus data.head.cid .login).kickAdd
                  ((ctx₁.setStatus data.head.cid .login).chat.getCidBySid ack.sid)
                else ctx₁.setStatus data.head.cid .login) := by
              split
              · exact .kickAdd ..
              · exact .refl _
            have hframe := hseq'.trans (hstatus.trans hkick)
            have hsome := Option.isSome_of_eq_some ((hframe.params _).trans hconn)
            exact ((h.frame hframe).sessionSetCid hsome).frame (.asyncSend ..)

theorem recv (h : ctx.Inv) (hopen : conn ∈ ctx.opened) (data : Packet) (order : List (Rid × Gid))
    (hsteady : ctx.Steady (.recv conn data order)) : (ctx.recv env conn data order).Inv := by
  have hrecv : (ctx.lsndConnRecv env conn data).1.Inv := by
    rcases lsndConnRecv_cases ctx env conn data with ⟨hnid, hsid, hseq, heq⟩ | ⟨-, heq⟩
    · rw [heq]
      have hframe : Frame ctx (ctx.setExtra conn fun e => { e with seq := data.head.seq }) := .setExtra rfl Iff.rfl
      by_cases hcb : query data.head.cmd = .online
      · rw [hcb]
        refine (h.frame hframe).lsndMesgOnlineHandler hopen data.head.cmd data fun hcheck => ?_
        rw [extra_setExtra_self] at hcheck ⊢
        exact hsteady hopen (query_eq_online.1 hcb) hnid hsid hseq hcheck
      · exact (h.frame hframe).frame (.proc _ _ _ _ _ hcb)
    · rw [heq]
      exact h
  unfold LsndCntx.recv
  rcases hret : ctx.lsndConnRecv env conn data with ⟨ctx', ret⟩
  rw [hret] at hrecv
  dsimp only
  split
  · exact hrecv.close conn order
  · exact hrecv

theorem step (h : ctx.Inv) (env : Env) (hsteady : ctx.Steady e) : (ctx.step env e).Inv := by
  cases e with
  | connect => exact h.connHandler
  | recv conn data order =>
    unfold LsndCntx.step
    dsimp only
    split
    · rename_i hopen
      exact h.recv hopen data order hsteady
    · exact h
  | onlineAck data => exact h.lsndUpMesgOnlineAckHandler env data
  | kick data => exact h.frame (.lsndUpMesgKickHandler ctx env data)
  | timer => exact h.frame (.taskTimerKick ctx)
  | close conn order =>
    unfold LsndCntx.step
    dsimp only
    split
    · exact h.close conn order
    · exact h

/-- After an ONLINE that is not steady the entry of the session before is still there. -/
theorem not_tableOk (h : ctx.Inv) (env : Env) (hsteady : ¬ctx.Steady e) : ¬(ctx.step env e).TableOk := by
  cases e with
  | recv conn data order =>
    unfold Steady at hsteady
    push Not at hsteady
    obtain ⟨hopen, hcmd, hnid, hsid, hseq, hcheck, hne⟩ := hsteady
    intro hok
    obtain ⟨param, hparam⟩ := Option.isSome_iff_exists.1 (h.online conn hopen (by simp [hcheck]))
    obtain rfl := (h.entry _ _ _ hparam).1
    have hno : ctx.chat.params (data.head.sid, conn) = none := by
      by_contra hsome
      obtain ⟨param, hparam'⟩ := Option.ne_none_iff_exists'.1 hsome
      exact hne (h.entry _ _ _ hparam').2.2.1.symm
    have hget : ctx.chat.sessionGetParam data.head.sid conn = none := by
      rw [ChatTab.sessionGetParam_eq, hno]
      rfl
    have hstep : ((ctx.step env (.recv conn data order)).extra conn).sid = data.head.sid ∧
        (ctx.step env (.recv conn data order)).chat = (ctx.chat.sessionSetParam data.head.sid conn (some conn)).1 := by
      rcases lsndConnRecv_cases ctx env conn data with ⟨-, -, -, heq⟩ | ⟨hbad, -⟩
      · rw [query_eq_online.2 hcmd] at heq
        obtain ⟨ctx', htaken, hextra, hchat⟩ :=
          lsndMesgOnlineHandler_of_check (ctx.setExtra conn fun e => { e with seq := data.head.seq }) data.head.cmd
            (by rw [extra_setExtra_self]; exact hcheck) hget
        have hrecv : ctx.step env (.recv conn data order) = ctx' := by
          simp only [LsndCntx.step, if_pos hopen, LsndCntx.recv, heq, LsndCntx.proc, htaken]
          rfl
        rw [hrecv]
        exact ⟨hextra, hchat⟩
      · exact absurd ⟨hnid, hsid, hseq⟩ hbad
    have hparams := ChatTab.params_sessionSetParam (some conn) hno ((ctx.extra conn).sid, conn)
    rw [if_neg fun hkey => hne (Prod.mk.inj hkey).1.symm, hparam] at hparams
    have hentry : (ctx.step env (.recv conn data order)).chat.sessionGetParam (ctx.extra conn).sid conn =
        some conn := by
      rw [hstep.2, ChatTab.sessionGetParam_eq, hparams]
      rfl
    have hsame := (hok.conn (ctx.extra conn).sid conn conn hentry).2.2
    exact hne (hstep.1.symm.trans hsame)
  | _ => exact absurd trivial hsteady

end Inv

theorem AllOk.head : ∀ {events : List Event}, AllOk env ctx events → ctx.TableOk
  | [], h => h
  | _ :: _, h => h.1

theorem allOk_iff (env : Env) : ∀ (events : List Event) (ctx : LsndCntx), ctx.Inv →
    (AllOk env ctx events ↔ Guarded (step env) Steady ctx events)
  | [], _, h => iff_of_true h.tableOk trivial
  | e :: events, ctx, h => by
    by_cases hsteady : ctx.Steady e
    · exact and_congr (iff_of_true h.tableOk hsteady) (allOk_iff env events _ (h.step env hsteady))
    · exact iff_of_false (fun hall => h.not_tableOk env hsteady hall.2.head) fun hguard => hsteady hguard.1

/-- The table is right throughout a run exactly as long as no connection that waits for an
ONLINE-ACK sends an ONLINE for another session. -/
theorem session_table_iff (env : Env) (nid : BitVec 32) (events : List Event) :
    AllOk env (init nid) events ↔ Guarded (step env) Steady (init nid) events :=
  allOk_iff env events _ (.init nid)

/-- The connection sends two ONLINEs before it is answered and is closed: the entry of the first
stays. -/
theorem entry_stays : ¬∀ (env : Env) (nid : BitVec 32) (events : List Event), AllOk env (init nid) events := by
  intro h
  let env : Env := ⟨fun _ => .error "", fun _ => .error "", fun _ => .error "", fun _ => .error ""⟩
  let online (sid seq : BitVec 64) : Packet := ⟨⟨cmdOnline, 0, sid, 0, 0, seq, 0, 0⟩, []⟩
  have hall := h env 1 [.connect, .recv 1 (online 1 1) [], .recv 1 (online 2 2) [], .close 1 []]
  have hentry : (((((init 1).step env .connect).step env (.recv 1 (online 1 1) [])).step env
    (.recv 1 (online 2 2) [])).step env
      (.close 1 [])).chat.sessionGetParam 1 1 = some 1 := by rfl
  exact absurd (hall.2.2.2.2.conn 1 1 1 hentry).2.1 (by decide)

end BeehiveIm.Websocket.LsndCntx
