/-
The connections of the access layer over time (`acc_lsn.c`, `acc_rsvr.c`): they are accepted, taken
over by a receiver, read from and written to, and closed, some of them by the scan of their receiver
for those that have timed out. A `time_t` is a number without bounds. Left out: epoll, the list of
those that are kicked, and the memory for the list that the scan makes.

What a timeout scan visits and whom it closes. The table puts a connection into the slot of its
receiver, in every run, and the scan goes through that slot. `rdtm` is written when a connection is
taken over and never again, so one that only receives is closed after a while: a scan is right
exactly if each connection that has received data lately was also taken over or written to lately.
-/
import BeehiveIm.Access.Accept
import BeehiveIm.Access.Send
import BeehiveIm.Lib.Run
import BeehiveIm.Core.HashTab.Slots

namespace BeehiveIm.Access

open BeehiveIm.Lib BeehiveIm.Core

def ACC_TMOUT_SCAN_SEC : Int := 15
def ACC_SCK_TIMEOUT_SEC : Int := 180

/-- `acc_socket_extra_t` with its `socket_t`. `recvTm` is when data has come last, which nobody
keeps. -/
structure Conn (σ : Type) where
  cid : BitVec 64
  rid : Nat
  rdtm : Int
  wrtm : Int
  recv : Recv σ
  send : SendConn
  recvTm : Option Int

/-- The times that a receiver keeps. -/
structure RsvrTm where
  ctm : Int
  scanTm : Int

/-- What comes of a connection that is taken off the queue: it is lost, for want of
memory or because the one before it was not stored, or it goes to the table, where
there may be a node for it. -/
inductive Added where
  | lost
  | stored (node : Bool)

/-- What does not change: the configuration and the protocol, and the memory and the user's
state of a new connection. -/
structure Setup (σ : Type) where
  conf : AccConf
  protocol : Protocol σ
  mem : Blocks
  user : σ

/-- `now` is what `time` answers. -/
structure Acc (σ : Type) where
  lsn : Listen
  tab : HashTab (Conn σ)
  now : Int
  rsvr : Nat → RsvrTm

inductive AccEvent where
  | accept (a : Accept)
  /-- `acc_rsvr_add_conn` of a receiver, as far as the answers go -/
  | add (rid : Nat) (answers : List Added)
  /-- `epoll_wait` returns -/
  | wake (rid : Nat)
  | readable (cid : BitVec 64) (reads : List Read)
  | writable (cid : BitVec 64) (ws : List Write)
  /-- `acc_push_into_send_list` -/
  | push (cid : BitVec 64) (item : SendItem)
  /-- a kick -/
  | kick (cid : BitVec 64)
  | scan (rid : Nat)
  | tick (d : Nat)

variable {σ : Type}

/-- `acc_rsvr_get_timeout_conn_list`: whether the connection is put in the list. -/
def Conn.timedOut (ctm : Int) (c : Conn σ) : Bool :=
  !(ctm - c.rdtm ≤ ACC_SCK_TIMEOUT_SEC ∨ ctm - c.wrtm ≤ ACC_SCK_TIMEOUT_SEC)

namespace Setup

variable (A : Setup σ)

def init (now : Int) : Acc σ := ⟨.init, HashTab.hashTabCreat (Conn σ) A.conf.rsvrNum, now, fun _ => ⟨0, 0⟩⟩

/-- A connection as `acc_rsvr_add_conn` makes it. -/
def conn (rid : Nat) (cid : BitVec 64) (ctm : Int) : Conn σ where
  cid := cid
  rid := rid
  rdtm := ctm
  wrtm := ctm
  recv := .init A.mem A.user
  send := ⟨none, [], ⟨true, false⟩, []⟩
  recvTm := none

end Setup

namespace Acc

variable (A : Setup σ)

/-- A turn of the inner loop of `acc_rsvr_add_conn`; a connection that the table does not take is
closed. -/
def addConn (rid : Nat) (S : Acc σ) (cid : BitVec 64) : Added → Option (Acc σ)
  | .lost => some S
  | .stored node => (idKey.insert Conn.cid S.tab (A.conn rid cid S.now) node).map fun r => { S with tab := r.1 }

/-- `acc_rsvr_add_conn` -/
def accRsvrAddConn (S : Acc σ) (rid : Nat) (answers : List Added) : Option (Acc σ) :=
  let connq := S.lsn.connq rid
  (connq.zip answers).foldlM (fun S c => addConn A rid S c.1 c.2)
    { S with lsn := { S.lsn with connq := Function.update S.lsn.connq rid (connq.drop answers.length) } }

/-- `acc_rsvr_del_conn`, which aborts when the connection is not there. -/
def accRsvrDelConn (S : Acc σ) (cid : BitVec 64) : Option (Acc σ) :=
  match idKey.delete Conn.cid S.tab cid with
  | some (tab, some _) => some { S with tab := tab }
  | _ => none

/-- A connection of the table is changed. -/
def write (S : Acc σ) (cid : BitVec 64) (g : Conn σ → Conn σ) : Option (Acc σ) :=
  (idKey.write Conn.cid S.tab cid g).map fun tab => { S with tab := tab }

/-- The part of `acc_rsvr_event_hdl` for a connection that can be read. -/
def recvEvent (S : Acc σ) (c : Conn σ) (reads : List Read) : Option (Acc σ) :=
  match c.recv.accRecvData A.protocol reads with
  | none => none
  | some (recv, ret) =>
    if ret = .sckAgain then
      S.write c.cid fun c => { c with recv := recv, recvTm := if Recv.arrived reads = [] then c.recvTm else some S.now }
    else S.accRsvrDelConn c.cid

/-- The part of `acc_rsvr_event_hdl` for a connection that can be written. -/
def sendEvent (S : Acc σ) (c : Conn σ) (ws : List Write) : Option (Acc σ) :=
  let p := c.send.accSendData ws
  if p.ret = .err then S.accRsvrDelConn c.cid
  else S.write c.cid fun c => { c with wrtm := S.now, send := c.send.after p }

/-- `acc_rsvr_conn_timeout`: `list_lpush` and `list_lpop` work at the same end. -/
def accRsvrConnTimeout (S : Acc σ) (rid : Nat) : Option (Acc σ) :=
  match S.tab.hashTabTravSlot (idKey.hash (BitVec.ofNat 64 rid)) with
  | none => none
  | some conns => (conns.filter (Conn.timedOut (S.rsvr rid).ctm)).reverse.foldlM (fun S c => S.accRsvrDelConn c.cid) S

/-- A scan is due. -/
def Due (S : Acc σ) (rid : Nat) : Prop := (S.rsvr rid).ctm - (S.rsvr rid).scanTm > ACC_TMOUT_SCAN_SEC

instance (S : Acc σ) (rid : Nat) : Decidable (S.Due rid) := inferInstanceAs (Decidable (_ > _))

/-- The end of `acc_rsvr_event_hdl`, and what `acc_rsvr_routine` does when nothing happens. -/
def timeoutScan (S : Acc σ) (rid : Nat) : Option (Acc σ) :=
  if S.Due rid then
    { S with rsvr := Function.update S.rsvr rid { S.rsvr rid with scanTm := (S.rsvr rid).ctm } }.accRsvrConnTimeout rid
  else some S

/-- Something happens to a connection that is open. -/
def onConn (S : Acc σ) (cid : BitVec 64) (f : Conn σ → Option (Acc σ)) : Option (Acc σ) :=
  match idKey.query Conn.cid S.tab cid with
  | some (some c) => f c
  | _ => none

def step (S : Acc σ) : AccEvent → Option (Acc σ)
  | .accept a => (A.conf.accLsvrAccept S.lsn a).map fun lsn => { S with lsn := lsn }
  | .add rid answers => if rid < A.conf.rsvrNum then S.accRsvrAddConn A rid answers else none
  | .wake rid => some { S with rsvr := Function.update S.rsvr rid { S.rsvr rid with ctm := S.now } }
  | .readable cid reads => S.onConn cid fun c => S.recvEvent A c reads
  | .writable cid ws => S.onConn cid fun c => S.sendEvent c ws
  | .push cid item => S.onConn cid fun c =>
      S.write c.cid fun c => { c with send := { c.send with sendList := c.send.sendList ++ [item], evs := ⟨false, true⟩ } }
  | .kick cid => S.onConn cid fun c => S.accRsvrDelConn c.cid
  | .scan rid => if rid < A.conf.rsvrNum then S.timeoutScan rid else none
  | .tick d => some { S with now := S.now + d }

/-- The connection is open. -/
def Open (S : Acc σ) (c : Conn σ) : Prop := idKey.query Conn.cid S.tab c.cid = some (some c)

end Acc

variable {A : Setup σ} {S S' : Acc σ} {live : List (Conn σ)} {rid : Nat} {cid : BitVec 64} {c : Conn σ}

/-! ## What is asked for -/

/-- Data has come within the last 180 seconds. -/
def Conn.Recent (now : Int) (c : Conn σ) : Prop := ∃ t, c.recvTm = some t ∧ now - t ≤ ACC_SCK_TIMEOUT_SEC

namespace Acc

/-- The scan visits the connections of the receiver and no others, each once. -/
def VisitsOwn (S : Acc σ) (rid : Nat) : Prop :=
  ∃ conns, S.tab.hashTabTravSlot (idKey.hash (BitVec.ofNat 64 rid)) = some conns ∧ (conns.map Conn.cid).Nodup ∧
    ∀ c, c ∈ conns ↔ S.Open c ∧ c.rid = rid

/-- The scan succeeds and leaves open who has received data lately. -/
def SparesRecent (S : Acc σ) (rid : Nat) : Prop :=
  ∃ S', S.timeoutScan rid = some S' ∧ ∀ c, S.Open c → c.Recent S.now → S'.Open c

/-- A step that is a scan is right. -/
def Exact (A : Setup σ) (S : Acc σ) : AccEvent → Prop
  | .scan rid => rid < A.conf.rsvrNum → S.VisitsOwn rid ∧ S.SparesRecent rid
  | _ => True

/-- A scan that is due finds that each connection of the receiver that has received data lately was
taken over or written to lately. -/
def Fresh (A : Setup σ) (S : Acc σ) : AccEvent → Prop
  | .scan rid => rid < A.conf.rsvrNum → S.Due rid → ∀ c, S.Open c → c.rid = rid → c.Recent S.now →
      (S.rsvr rid).ctm - c.rdtm ≤ ACC_SCK_TIMEOUT_SEC ∨ (S.rsvr rid).ctm - c.wrtm ≤ ACC_SCK_TIMEOUT_SEC
  | _ => True

/-! ## The table -/

/-- The numbers that connections get. -/
def ids (n : Nat) : Set (BitVec 64) := {k | (∃ w : BitVec 32, k = w.signExtend 64) ∧ HashOk n k.toInt}

theorem ids_keySet (n : Nat) : KeySet idKey n (ids n) where
  hashOk _ h := h.2
  cmpOn := by
    refine cmpOn_of_sub ?_
    rintro _ ⟨⟨v, rfl⟩, -⟩ _ ⟨⟨w, rfl⟩, -⟩
    have hv := BitVec.two_mul_toInt_lt (x := v)
    have hw := BitVec.two_mul_toInt_lt (x := w)
    have hv' := BitVec.le_two_mul_toInt (x := v)
    have hw' := BitVec.le_two_mul_toInt (x := w)
    rw [BitVec.toInt_sub, BitVec.toInt_signExtend_of_le (by decide), BitVec.toInt_signExtend_of_le (by decide)]
    exact Int.bmod_eq_of_le_mul_two (by push_cast; omega) (by push_cast; omega)

/-- Each connection is in the slot of its receiver, and each that waits for its receiver will be. -/
structure Inv (A : Setup σ) (S : Acc σ) (live : List (Conn σ)) : Prop where
  stored : Stored idKey Conn.cid (ids A.conf.rsvrNum) A.conf.rsvrNum S.tab live
  owner : ∀ c ∈ live, hashIdx A.conf.rsvrNum c.cid.toInt = c.rid
  connq : ∀ rid, ∀ cid ∈ S.lsn.connq rid, cid ∈ ids A.conf.rsvrNum ∧ hashIdx A.conf.rsvrNum cid.toInt = rid

theorem init_inv (A : Setup σ) (now : Int) : Inv A (A.init now) [] where
  stored := hashTabCreat_stored A.conf.pos A.conf.lt (ids_keySet _)
  owner := by simp
  connq _ _ h := absurd h List.not_mem_nil

namespace Inv

/-- What is not in the table does not count. -/
theorem congr (h : Inv A S live) (htab : S'.tab = S.tab) (hlsn : S'.lsn = S.lsn) : Inv A S' live := by
  obtain ⟨hstored, howner, hconnq⟩ := h
  rw [← htab] at hstored
  rw [← hlsn] at hconnq
  exact ⟨hstored, howner, hconnq⟩

theorem open_iff (h : Inv A S live) : S.Open c ↔ c ∈ live := by
  unfold Open
  rw [h.stored.query_eq_some]
  constructor
  · intro hc
    exact (lookup_mem hc).1
  · exact lookup_eq_some h.stored.nodup

/-- A connection that the table finds is open. -/
theorem mem_of_query (h : Inv A S live) (hq : idKey.query Conn.cid S.tab cid = some (some c)) :
    c ∈ live ∧ c.cid = cid :=
  lookup_mem (h.stored.query_eq_some.1 hq)

theorem delConn (h : Inv A S live) (hc : c ∈ live) :
    ∃ S', S.accRsvrDelConn c.cid = some S' ∧ Inv A S' (without Conn.cid live c.cid) := by
  obtain ⟨tab, hdel, hstored⟩ := h.stored.delete (h.stored.keys c hc)
  rw [lookup_eq_some h.stored.nodup hc] at hdel
  unfold accRsvrDelConn
  rw [hdel]
  exact ⟨_, rfl, hstored, fun x hx => h.owner x (mem_without.1 hx).1, h.connq⟩

theorem write {g : Conn σ → Conn σ} (h : Inv A S live) (hc : c ∈ live) (hw : S.write c.cid g = some S')
    (hcid : ∀ x, (g x).cid = x.cid) (hrid : ∀ x, (g x).rid = x.rid) : Inv A S' (writeAt Conn.cid c.cid g live) := by
  obtain ⟨tab, hwrite, hstored⟩ := h.stored.write (h.stored.keys c hc) hcid
  unfold Acc.write at hw
  rw [hwrite] at hw
  cases hw
  refine ⟨hstored, fun x hx => ?_, h.connq⟩
  obtain ⟨y, hy, rfl⟩ := List.mem_map.1 hx
  split
  · rw [hcid, hrid]
    exact h.owner y hy
  · exact h.owner y hy

/-- A connection that is taken over comes into the slot of the one who takes it over. -/
theorem addConn (h : Inv A S live) (hid : cid ∈ ids A.conf.rsvrNum) (hslot : hashIdx A.conf.rsvrNum cid.toInt = rid)
    {answer : Added} (hadd : Acc.addConn A rid S cid answer = some S') : ∃ live', Inv A S' live' := by
  cases answer with
  | lost =>
    cases hadd
    exact ⟨live, h⟩
  | stored node =>
    obtain ⟨⟨tab, ret⟩, hins, rfl⟩ := Option.map_eq_some_iff.1 hadd
    cases hl : lookup Conn.cid live cid with
    | some e =>
      rw [h.stored.insert_exist hl node] at hins
      cases hins
      exact ⟨live, h.congr rfl rfl⟩
    | none =>
      cases node with
      | false =>
        rw [h.stored.insert_err hid hl] at hins
        cases hins
        exact ⟨live, h.congr rfl rfl⟩
      | true =>
        obtain ⟨tab', hins', hstored⟩ := h.stored.insert_ok (e := A.conn rid cid S.now) hid hl
        rw [hins'] at hins
        cases hins
        exact ⟨_, hstored, List.forall_mem_cons.2 ⟨hslot, h.owner⟩, h.connq⟩

theorem addConns (rid : Nat) : ∀ (cs : List (BitVec 64 × Added)) (S : Acc σ) (live : List (Conn σ)), Inv A S live →
    (∀ c ∈ cs, c.1 ∈ ids A.conf.rsvrNum ∧ hashIdx A.conf.rsvrNum c.1.toInt = rid) →
    cs.foldlM (fun S c => Acc.addConn A rid S c.1 c.2) S = some S' → ∃ live', Inv A S' live' := by
  intro cs
  induction cs with
  | nil =>
    intro S live h _ hrun
    cases hrun
    exact ⟨live, h⟩
  | cons c cs ih =>
    intro S live h hcs hrun
    obtain ⟨⟨hid, hslot⟩, hcs⟩ := List.forall_mem_cons.1 hcs
    rw [List.foldlM_cons] at hrun
    obtain ⟨S₁, hadd, hrun⟩ := Option.bind_eq_some_iff.1 hrun
    obtain ⟨live₁, h₁⟩ := h.addConn hid hslot hadd
    exact ih S₁ live₁ h₁ hcs hrun

theorem accRsvrAddConn (h : Inv A S live) {answers : List Added} (hadd : S.accRsvrAddConn A rid answers = some S') :
    ∃ live', Inv A S' live' := by
  have hrest : Inv A { S with lsn := { S.lsn with
      connq := Function.update S.lsn.connq rid ((S.lsn.connq rid).drop answers.length) } } live := by
    refine ⟨h.stored, h.owner, fun rid' cid hcid => ?_⟩
    dsimp only at hcid
    rw [Function.update_apply] at hcid
    split at hcid
    · rename_i heq
      rw [heq]
      exact h.connq rid cid (List.mem_of_mem_drop hcid)
    · exact h.connq rid' cid hcid
  exact addConns rid _ _ live hrest (fun c hc => h.connq rid c.1 (List.of_mem_zip hc).1) hadd

/-- A connection that is accepted waits in the queue of the receiver in whose slot it will be. -/
theorem accept (h : Inv A S live) {a : Accept} {lsn : Listen} (haccept : A.conf.accLsvrAccept S.lsn a = some lsn) :
    Inv A { S with lsn := lsn } live := by
  refine ⟨h.stored, h.owner, fun rid cid hcid => ?_⟩
  cases a with
  | busy =>
    cases haccept
    exact h.connq rid cid hcid
  | failed =>
    cases haccept
    exact h.connq rid cid hcid
  | accepted place =>
    simp only [AccConf.accLsvrAccept, AccConf.ridOfInt_iff] at haccept
    split at haccept
    · rename_i hok
      split at haccept
      · cases haccept
        dsimp only at hcid
        rw [Function.update_apply] at hcid
        split at hcid
        · rename_i hrid
          rcases List.mem_append.1 hcid with hcid | hcid
          · rw [hrid]
            exact h.connq _ cid hcid
          · rw [List.mem_singleton.1 hcid]
            have hint : (((S.lsn.cid + 1).setWidth 32).signExtend 64).toInt = ((S.lsn.cid + 1).setWidth 32).toInt :=
              BitVec.toInt_signExtend_of_le (by decide)
            refine ⟨⟨⟨_, rfl⟩, by rwa [hint]⟩, ?_⟩
            have hidx := hok.hashIdx_eq A.conf.pos A.conf.lt
            rw [hint, hrid, AccConf.ridOfInt]
            omega
        · exact h.connq rid cid hcid
      · cases haccept
        exact h.connq rid cid hcid
    · cases haccept

/-- The connections of a list are closed one after the other. -/
theorem delConns : ∀ (cs : List (Conn σ)) (S : Acc σ) (live : List (Conn σ)), Inv A S live →
    (∀ c ∈ cs, c ∈ live) → (cs.map Conn.cid).Nodup → ∃ S' live',
    cs.foldlM (fun S c => S.accRsvrDelConn c.cid) S = some S' ∧ Inv A S' live' ∧
      ∀ c, c ∈ live' ↔ c ∈ live ∧ c.cid ∉ cs.map Conn.cid := by
  intro cs
  induction cs with
  | nil => exact fun S live h _ _ => ⟨S, live, rfl, h, by simp⟩
  | cons c cs ih =>
    intro S live h hcs hnodup
    obtain ⟨hc, hcs⟩ := List.forall_mem_cons.1 hcs
    obtain ⟨hnot, hnodup⟩ := List.nodup_cons.1 hnodup
    obtain ⟨S₁, hdel, h₁⟩ := h.delConn hc
    have hrest : ∀ x ∈ cs, x ∈ without Conn.cid live c.cid := by
      intro x hx
      rw [mem_without]
      refine ⟨hcs x hx, fun heq => hnot ?_⟩
      rw [← heq]
      exact List.mem_map_of_mem hx
    obtain ⟨S', live', hrun, h', hmem⟩ := ih S₁ _ h₁ hrest hnodup
    refine ⟨S', live', ?_, h', fun x => ?_⟩
    · rw [List.foldlM_cons, hdel]
      exact hrun
    · rw [hmem, mem_without, List.map_cons, List.mem_cons, not_or, and_assoc]

/-! ## A scan -/

theorem travSlot (h : Inv A S live) (hrid : rid < A.conf.rsvrNum) :
    ∃ conns, S.tab.hashTabTravSlot (idKey.hash (BitVec.ofNat 64 rid)) = some conns ∧ (conns.map Conn.cid).Nodup ∧
      ∀ c, c ∈ conns ↔ c ∈ live ∧ c.rid = rid := by
  have hlt := A.conf.lt
  have hpos := A.conf.pos
  have hhash : idKey.hash (BitVec.ofNat 64 rid) = rid := by
    change (BitVec.ofNat 64 rid).toInt = rid
    rw [BitVec.toInt_eq_toNat_of_lt] <;> rw [BitVec.toNat_ofNat] <;> omega
  have hok : HashOk S.tab.len rid := .inl (Int.natCast_nonneg rid)
  obtain ⟨conns, htrav, hperm⟩ := h.stored.holds.travSlot hok
  have hslot : hashIdx S.tab.len rid = rid := by
    have hidx := hok.hashIdx_eq h.stored.holds.pos h.stored.holds.lt
    rw [Int.tmod_eq_of_lt (Int.natCast_nonneg rid) (by rw [h.stored.len_eq]; omega)] at hidx
    exact_mod_cast hidx
  rw [hslot] at hperm
  refine ⟨conns, by rw [hhash, htrav], ?_, fun c => ?_⟩
  · have hsub : (inSlot idKey Conn.cid S.tab.len rid live).Sublist live := List.filter_sublist
    exact (hperm.map Conn.cid).nodup_iff.2 (h.stored.nodup.sublist (hsub.map Conn.cid))
  · rw [hperm.mem_iff, inSlot, List.mem_filter, decide_eq_true_eq]
    refine and_congr_right fun hc => ?_
    rw [HashKey.slot, h.stored.len_eq]
    exact h.owner c hc ▸ Iff.rfl

theorem timeout (h : Inv A S live) (hrid : rid < A.conf.rsvrNum) : ∃ S' live', S.accRsvrConnTimeout rid = some S' ∧
    Inv A S' live' ∧ ∀ c, c ∈ live' ↔ c ∈ live ∧ ¬(c.rid = rid ∧ c.timedOut (S.rsvr rid).ctm) := by
  obtain ⟨conns, htrav, hnodup, hmem⟩ := h.travSlot hrid
  have hin : ∀ c, c ∈ (conns.filter (Conn.timedOut (S.rsvr rid).ctm)).reverse ↔
      (c ∈ live ∧ c.rid = rid) ∧ c.timedOut (S.rsvr rid).ctm := by
    intro c
    rw [List.mem_reverse, List.mem_filter, hmem]
  have hkeys : ((conns.filter (Conn.timedOut (S.rsvr rid).ctm)).reverse.map Conn.cid).Nodup := by
    rw [List.map_reverse, List.nodup_reverse]
    exact hnodup.sublist (List.filter_sublist.map Conn.cid)
  obtain ⟨S', live', hrun, h', hmem'⟩ := delConns _ S live h (fun c hc => ((hin c).1 hc).1.1) hkeys
  refine ⟨S', live', ?_, h', fun c => ?_⟩
  · unfold accRsvrConnTimeout
    rw [htrav]
    exact hrun
  · rw [hmem']
    refine and_congr_right fun hc => not_congr ?_
    constructor
    · intro hcid
      obtain ⟨c', hc', heq⟩ := List.mem_map.1 hcid
      have hsame : c' = c := by
        have hl := lookup_eq_some h.stored.nodup hc
        rw [← heq, lookup_eq_some h.stored.nodup ((hin c').1 hc').1.1] at hl
        exact Option.some.inj hl
      rw [← hsame]
      exact ⟨((hin c').1 hc').1.2, ((hin c').1 hc').2⟩
    · rintro ⟨hown, hout⟩
      exact List.mem_map_of_mem ((hin c).2 ⟨⟨hc, hown⟩, hout⟩)

theorem timeoutScan (h : Inv A S live) (hrid : rid < A.conf.rsvrNum) : ∃ S' live', S.timeoutScan rid = some S' ∧
    Inv A S' live' ∧ ∀ c, c ∈ live' ↔ c ∈ live ∧ ¬(S.Due rid ∧ c.rid = rid ∧ c.timedOut (S.rsvr rid).ctm) := by
  unfold Acc.timeoutScan
  by_cases hdue : S.Due rid
  · rw [if_pos hdue]
    have hnoted : Inv A { S with rsvr := Function.update S.rsvr rid { S.rsvr rid with scanTm := (S.rsvr rid).ctm } } live :=
      h.congr rfl rfl
    obtain ⟨S', live', hscan, h', hmem⟩ := hnoted.timeout hrid
    refine ⟨S', live', hscan, h', fun c => ?_⟩
    rw [hmem]
    simp [hdue]
  · rw [if_neg hdue]
    exact ⟨S, live, rfl, h, by simp [hdue]⟩

theorem exact_iff (h : Inv A S live) (e : AccEvent) : S.Exact A e ↔ S.Fresh A e := by
  cases e with
  | scan rid =>
    refine forall_congr' fun hrid => ?_
    have hvisits : S.VisitsOwn rid := by
      obtain ⟨conns, htrav, hnodup, hmem⟩ := h.travSlot hrid
      exact ⟨conns, htrav, hnodup, fun c => by rw [hmem, h.open_iff]⟩
    obtain ⟨S', live', hscan, h', hmem⟩ := h.timeoutScan hrid
    have hin (c : Conn σ) : ¬c.timedOut (S.rsvr rid).ctm ↔ (S.rsvr rid).ctm - c.rdtm ≤ ACC_SCK_TIMEOUT_SEC ∨
        (S.rsvr rid).ctm - c.wrtm ≤ ACC_SCK_TIMEOUT_SEC := by
      rw [Conn.timedOut, Bool.not_eq_true, Bool.not_eq_false', decide_eq_true_eq]
    constructor
    · rintro ⟨-, S₁, hscan₁, hspares⟩ hdue c hc hown hrecent
      cases hscan.symm.trans hscan₁
      have hstays := hspares c hc hrecent
      rw [h'.open_iff, hmem] at hstays
      rw [← hin]
      exact fun hout => hstays.2 ⟨hdue, hown, hout⟩
    · intro hfresh
      refine ⟨hvisits, S', hscan, fun c hc hrecent => ?_⟩
      rw [h'.open_iff, hmem]
      refine ⟨h.open_iff.1 hc, ?_⟩
      rintro ⟨hdue, hown, hout⟩
      exact (hin c).2 (hfresh hdue c hc hown hrecent) hout
  | _ => exact Iff.rfl

/-! ## Runs -/

theorem onConn {f : Conn σ → Option (Acc σ)} (h : Inv A S live)
    (hf : ∀ c ∈ live, ∀ S', f c = some S' → ∃ live', Inv A S' live') (hrun : S.onConn cid f = some S') :
    ∃ live', Inv A S' live' := by
  unfold Acc.onConn at hrun
  split at hrun
  · rename_i c hq
    exact hf c (h.mem_of_query hq).1 S' hrun
  · cases hrun

theorem closes (h : Inv A S live) (hc : c ∈ live) (hdel : S.accRsvrDelConn c.cid = some S') :
    ∃ live', Inv A S' live' := by
  obtain ⟨S₁, hdel₁, h₁⟩ := h.delConn hc
  cases hdel₁.symm.trans hdel
  exact ⟨_, h₁⟩

theorem step (h : Inv A S live) {e : AccEvent} (hstep : S.step A e = some S') : ∃ live', Inv A S' live' := by
  cases e with
  | accept a =>
    obtain ⟨lsn, haccept, rfl⟩ := Option.map_eq_some_iff.1 hstep
    exact ⟨live, h.accept haccept⟩
  | add rid answers =>
    simp only [Acc.step] at hstep
    split at hstep
    · exact h.accRsvrAddConn hstep
    · cases hstep
  | wake rid =>
    cases hstep
    exact ⟨live, h.congr rfl rfl⟩
  | readable cid reads =>
    refine h.onConn (fun c hc S' hrecv => ?_) hstep
    unfold recvEvent at hrecv
    split at hrecv
    · cases hrecv
    · split at hrecv
      · exact ⟨_, h.write hc hrecv (fun _ => rfl) (fun _ => rfl)⟩
      · exact h.closes hc hrecv
  | writable cid ws =>
    refine h.onConn (fun c hc S' hsend => ?_) hstep
    unfold sendEvent at hsend
    dsimp only at hsend
    split at hsend
    · exact h.closes hc hsend
    · exact ⟨_, h.write hc hsend (fun _ => rfl) (fun _ => rfl)⟩
  | push cid item =>
    refine h.onConn (fun c hc S' hpush => ?_) hstep
    exact ⟨_, h.write hc hpush (fun _ => rfl) (fun _ => rfl)⟩
  | kick cid => exact h.onConn (fun c hc S' hdel => h.closes hc hdel) hstep
  | scan rid =>
    simp only [Acc.step] at hstep
    split at hstep
    · rename_i hrid
      obtain ⟨S₁, live', hscan, h', -⟩ := h.timeoutScan hrid
      cases hscan.symm.trans hstep
      exact ⟨live', h'⟩
    · cases hstep
  | tick d =>
    cases hstep
    exact ⟨live, h.congr rfl rfl⟩

end Inv

/-- In a run all scans are right exactly if each that is due finds that the connections of its
receiver that have received data lately were taken over or written to lately. -/
theorem scans_exact_iff (A : Setup σ) (now : Int) (es : List AccEvent) :
    Along (step A) (Exact A) (A.init now) es ↔ Along (step A) (Fresh A) (A.init now) es := by
  refine along_congr_inv (fun S => ∃ live, Inv A S live) ?_ ?_ es _ ⟨[], init_inv A now⟩
  · rintro S e S' ⟨live, h⟩ hstep
    exact h.step hstep
  · rintro S e ⟨live, h⟩
    exact h.exact_iff e

/-- One receiver, and packets of four bytes. -/
def four : Setup Unit :=
  ⟨⟨1, by decide, by decide⟩, ⟨1000, 4, fun _ => 0, fun u _ => (u, true), fun _ => true⟩, fun _ _ => 0, ()⟩

/-- Connection 1 is taken over at 0, receives a packet at 170 and is closed at 190. -/
theorem receiver_closed : ¬Along (step four) (Exact four) (four.init 0)
    ([.accept (.accepted true), .wake 0, .add 0 [.stored true], .tick 170, .wake 0, .readable 1 [.data [1, 2, 3, 4]],
      .scan 0, .tick 20, .wake 0] ++ [.scan 0]) := by
  intro hall
  have hlook : (List.foldlM (step four) (four.init 0)
    [.accept (.accepted true), .wake 0, .add 0 [.stored true], .tick 170,
      .wake 0, .readable 1 [.data [1, 2, 3, 4]], .scan 0, .tick 20,
      .wake 0]).bind (fun S => (S.timeoutScan 0).map fun S' =>
        ((idKey.query Conn.cid S.tab 1).map (Option.map fun c => (c.cid, c.recvTm)), S.now,
          (idKey.query Conn.cid S'.tab 1).map Option.isSome)) = some (some (some (1, some 170)), 190, some false) := by
    decide +kernel
  obtain ⟨S, hrun, hlook⟩ := Option.bind_eq_some_iff.1 hlook
  obtain ⟨S', hscan, hlook⟩ := Option.map_eq_some_iff.1 hlook
  simp only [Prod.mk.injEq] at hlook
  obtain ⟨hbefore, hnow, hafter⟩ := hlook
  obtain ⟨o, hq, ho⟩ := Option.map_eq_some_iff.1 hbefore
  obtain ⟨c, rfl, hc⟩ := Option.map_eq_some_iff.1 ho
  obtain ⟨hcid, hrecv⟩ := Prod.mk.inj hc
  obtain ⟨-, S₁, hscan₁, hspares⟩ := hall.reached _ hrun (by decide)
  cases hscan.symm.trans hscan₁
  have hopen : S.Open c := by
    unfold Open
    rwa [hcid]
  have hstays := hspares c hopen ⟨170, hrecv, by rw [hnow]; decide⟩
  unfold Open at hstays
  rw [hcid] at hstays
  rw [hstays] at hafter
  cases hafter

end Acc

end BeehiveIm.Access
