/-
The routes of the nodes. As long as a connection authenticates once, and no list is full,
the entries of a node are the threads of the connections that are authenticated as that
node, one entry for each.
-/
import BeehiveIm.Lib.Run
import BeehiveIm.Rtmq.Server.NodeMap

namespace BeehiveIm.Rtmq.Server

open BeehiveIm.Lib BeehiveIm.Core AvlTree

/-- The connection is open, and authenticated as the node. -/
def Sck.serves (nid : BitVec 32) (sck : Sck) : Bool := sck.frees.isNone && sck.authSucc && sck.nid = nid

/-- The threads of the connections that are authenticated as a node. -/
def served (conns : List Sck) (nid : BitVec 32) : List Nat := (conns.filter (Sck.serves nid)).map Sck.rsvrId

/-- A node has an entry of a thread for each connection of that thread that is authenticated as
it. -/
def Routes (s : Server) : Prop :=
  ∃ items, s.nodeToSvrMap.avlTrav = some items ∧ (items.map NodeToSvrMap.nid).Nodup ∧ ∀ nid rsvrId,
    (entries items nid).count rsvrId = s.conns.countP fun sck => sck.serves nid && sck.rsvrId = rsvrId

/-- A search for the node finds its item, if there is one. -/
def Reaches (s : Server) (nid : BitVec 32) : Prop :=
  s.nodeToSvrMap.avlQuery (rtmqNodeToSvrMapCmpCb nid) =
    s.nodeToSvrMap.avlTrav.map fun items => lookup NodeToSvrMap.nid items nid

/-- The connection may be closed: the search finds its entry, or the connection has none, and there
is none that would be taken for it. -/
def Closes (s : Server) (sck : Sck) : Prop :=
  if sck.authSucc then s.Reaches sck.nid else sck.rsvrId ∉ served s.conns sck.nid

/-- A connection authenticates once, where the list of its node has room; a request
that is refused closes it. -/
def Admits (s : Server) : LinkEvent → Prop
  | .addConn _ _ => True
  | .linkAuthReq sid nid gid valid => ∀ sck ∈ s.opened sid,
    if gid = 0 then s.Closes sck
    else if sck.authSucc then
      valid ∧ nid = sck.nid ∧ s.Reaches nid ∧ nodeToSvrMaxLen ≤ (served s.conns nid).length
    else
      valid → s.Reaches nid ∧ (nodeToSvrMaxLen ≤ (served s.conns nid).length → sck.rsvrId ∉ served s.conns nid)
  | .delConn sid => ∀ sck ∈ s.opened sid, s.Closes sck

instance (s : Server) (nid : BitVec 32) : Decidable (s.Reaches nid) :=
  inferInstanceAs (Decidable ((_ : Option (Option NodeToSvrMap)) = _))

instance (s : Server) (sck : Sck) : Decidable (s.Closes sck) :=
  inferInstanceAs (Decidable (if sck.authSucc then s.Reaches sck.nid else sck.rsvrId ∉ served s.conns sck.nid))

instance (s : Server) (e : LinkEvent) : Decidable (s.Admits e) := by
  cases e with
  | addConn sid rsvrId => exact inferInstanceAs (Decidable True)
  | linkAuthReq sid nid gid valid =>
    exact inferInstanceAs (Decidable (∀ sck ∈ s.opened sid, if gid = 0 then s.Closes sck
      else if sck.authSucc then
        valid ∧ nid = sck.nid ∧ s.Reaches nid ∧ nodeToSvrMaxLen ≤ (served s.conns nid).length
      else
        valid → s.Reaches nid ∧ (nodeToSvrMaxLen ≤ (served s.conns nid).length → sck.rsvrId ∉ served s.conns nid)))
  | delConn sid => exact inferInstanceAs (Decidable (∀ sck ∈ s.opened sid, s.Closes sck))

variable {s : Server} {sck : Sck} {conns rest : List Sck} {maps : AvlTree NodeToSvrMap} {t : PTree Int NodeToSvrMap}
  {sid : BitVec 64} {nid n : BitVec 32} {r : Nat}

/-! ## The threads that serve a node -/

theorem served_cons : served (sck :: rest) n = if sck.serves n then sck.rsvrId :: served rest n else served rest n := by
  unfold served
  rw [List.filter_cons]
  split
  · rfl
  · rfl

theorem served_perm (h : conns.Perm rest) (n : BitVec 32) : (served conns n).Perm (served rest n) :=
  (h.filter _).map _

theorem count_served (conns : List Sck) (nid : BitVec 32) (r : Nat) :
    (served conns nid).count r = conns.countP fun sck => sck.serves nid && sck.rsvrId = r := by
  unfold served
  rw [List.count_eq_countP, List.countP_map, List.countP_filter]
  refine List.countP_congr fun sck _ => ?_
  simp [and_comm]

/-! ## Connections -/

structure Wired (s : Server) : Prop where
  nodup : (s.conns.map Sck.sid).Nodup
  fresh : ∀ sck ∈ s.conns, sck.frees = none → sck.authSucc = false → sck.nid = -1
  subs : ∀ sck ∈ s.conns, ∃ u, Wf sck.subList u

/-- The entries are right for these connections. -/
structure Exact (maps : AvlTree NodeToSvrMap) (t : PTree Int NodeToSvrMap) (conns : List Sck) : Prop where
  wf : Wf maps t
  keyed : Keyed t.toList
  served : ∀ n, (entries t.toList n).Perm (served conns n)

/-- One connection changes; the others are the `rest`. -/
theorem Wired.setSck (h : Wired s) (hsck : sck ∈ s.conns) {g : Sck → Sck} (hg : ∀ sck, (g sck).sid = sck.sid)
    (hsubs : ∀ sck, (g sck).subList = sck.subList)
    (hfresh : (g sck).frees = none → (g sck).authSucc = false → (g sck).nid = -1) : Wired (s.setSck sck.sid g) := by
  have hperm : (s.setSck sck.sid g).conns.Perm (g sck :: without Sck.sid s.conns sck.sid) :=
    perm_writeAt hg h.nodup hsck
  constructor
  · change ((writeAt Sck.sid sck.sid g s.conns).map Sck.sid).Nodup
    rw [map_key_writeAt hg]
    exact h.nodup
  · intro x hx
    rcases List.mem_cons.1 (hperm.mem_iff.1 hx) with rfl | hx
    · exact hfresh
    · exact h.fresh x (mem_without.1 hx).1
  · intro x hx
    rcases List.mem_cons.1 (hperm.mem_iff.1 hx) with rfl | hx
    · rw [hsubs]
      exact h.subs sck hsck
    · exact h.subs x (mem_without.1 hx).1

theorem Exact.perm (h : Exact maps t conns) (hp : conns.Perm rest) : Exact maps t rest :=
  ⟨h.wf, h.keyed, fun n => (h.served n).trans (served_perm hp n)⟩

theorem Exact.routes (h : Exact s.nodeToSvrMap t s.conns) : s.Routes := by
  refine ⟨t.toList, avlTrav_eq h.wf, h.keyed, fun nid r => ?_⟩
  rw [← count_served]
  exact (h.served nid).count_eq r

theorem Exact.meets (h : Exact s.nodeToSvrMap t conns) (hreach : s.Reaches nid) : Meets t nid := by
  unfold Reaches at hreach
  rw [avlQuery_eq h.wf, avlTrav_eq h.wf] at hreach
  exact Option.some.inj hreach

/-! ## Closing -/

/-- A connection that serves a node takes its entry along. -/
theorem Exact.del (h : Exact maps t (sck :: rest)) (hserves : sck.serves sck.nid) (hmeets : Meets t sck.nid) :
    ∃ maps' t', rtmqNodeToSvrMapDel maps sck.nid sck.rsvrId = some maps' ∧ Exact maps' t' rest := by
  have hnid := h.served sck.nid
  rw [served_cons, if_pos hserves] at hnid
  obtain ⟨maps', t', hdel, hwf, hd, hentries⟩ :=
    rtmqNodeToSvrMapDel_spec h.wf h.keyed hmeets (hnid.mem_iff.2 List.mem_cons_self)
  refine ⟨maps', t', hdel, hwf, hd, fun n => (hentries n).trans ?_⟩
  split
  · rename_i hn
    subst hn
    simpa using hnid.erase sck.rsvrId
  · rename_i hn
    have hother : ¬sck.serves n := by
      unfold Sck.serves
      simp only [Bool.and_eq_true, decide_eq_true_eq]
      exact fun h' => hn h'.2.symm
    have hrest := h.served n
    rwa [served_cons, if_neg hother] at hrest

/-- One that is not among those that serve takes none. -/
theorem Exact.del_absent (h : Exact maps t rest) (hr : r ∉ Server.served rest nid) :
    rtmqNodeToSvrMapDel maps nid r = some maps :=
  rtmqNodeToSvrMapDel_absent h.wf h.keyed fun hmem => hr ((h.served nid).mem_iff.1 hmem)

/-- A connection that is not authenticated, or closed, has no part in the entries. -/
theorem exact_cons_idle (hidle : ∀ n, sck.serves n = false) : Exact maps t (sck :: rest) ↔ Exact maps t rest := by
  have hserved (n : BitVec 32) : served (sck :: rest) n = served rest n := by
    rw [served_cons, hidle]
    rfl
  constructor
  · intro h
    exact ⟨h.wf, h.keyed, fun n => hserved n ▸ h.served n⟩
  · intro h
    exact ⟨h.wf, h.keyed, fun n => (hserved n).symm ▸ h.served n⟩

theorem serves_of_not_auth (h : sck.authSucc = false) (n : BitVec 32) : sck.serves n = false := by
  unfold Sck.serves
  rw [h, Bool.and_false, Bool.false_and]

theorem serves_nid (hopen : sck.frees = none) (hauth : sck.authSucc = true) : sck.serves sck.nid = true := by
  unfold Sck.serves
  rw [hopen, hauth, decide_eq_true rfl]
  rfl

/-- The invariant of the runs. -/
structure Routed (s : Server) : Prop where
  kept : Wired s
  exact : ∃ t, Exact s.nodeToSvrMap t s.conns

theorem Wired.close (h : Wired s) (hsck : sck ∈ s.conns)
    (hdel : ∃ maps' t', rtmqNodeToSvrMapDel s.nodeToSvrMap sck.nid sck.rsvrId = some maps' ∧
      Exact maps' t' (without Sck.sid s.conns sck.sid)) :
    ∃ s', s.rtmqRsvrDelConnHdl sck = some s' ∧ Routed s' := by
  obtain ⟨maps', t', hdel, hexact⟩ := hdel
  obtain ⟨u, hu⟩ := h.subs sck hsck
  obtain ⟨types, hdestroy, -⟩ := avlDestroy_spec hu
  refine ⟨{ s with nodeToSvrMap := maps' }.setSck sck.sid fun sck => { sck with frees := types }, ?_, ?_, t', ?_⟩
  · unfold rtmqRsvrDelConnHdl
    rw [hdel, hdestroy]
  · have hkept : Wired { s with nodeToSvrMap := maps' } := ⟨h.nodup, h.fresh, h.subs⟩
    exact hkept.setSck hsck (fun _ => rfl) (fun _ => rfl) fun hopen => by cases hopen
  · have hidle (n : BitVec 32) : Sck.serves n { sck with frees := some types } = false := rfl
    have hperm := perm_writeAt (g := fun sck => { sck with frees := some types }) (fun _ => rfl) h.nodup hsck
    exact ((exact_cons_idle hidle).2 hexact).perm hperm.symm

theorem Routed.closes (h : Routed s) (hsck : sck ∈ s.conns) (hopen : sck.frees = none) (hcloses : s.Closes sck) :
    ∃ s', s.rtmqRsvrDelConnHdl sck = some s' ∧ Routed s' := by
  obtain ⟨t, hexact⟩ := h.exact
  have hcons := hexact.perm (perm_without h.kept.nodup hsck)
  refine h.kept.close hsck ?_
  unfold Closes at hcloses
  cases hauth : sck.authSucc with
  | true =>
    rw [if_pos hauth] at hcloses
    exact hcons.del (serves_nid hopen hauth) (hexact.meets hcloses)
  | false =>
    rw [if_neg (by rw [hauth]; decide)] at hcloses
    have hrest := (exact_cons_idle (serves_of_not_auth hauth)).1 hcons
    exact ⟨s.nodeToSvrMap, t, hexact.del_absent hcloses, hrest⟩

/-! ## Events -/

theorem Routed.addConn (h : Routed s) (hnone : s.find sid = none) (rsvrId : Nat) :
    Routed { s with conns := s.conns ++ [rtmqRsvrSckCreat sid rsvrId] } := by
  have hnew := lookup_eq_none.1 hnone
  obtain ⟨t, hexact⟩ := h.exact
  have hperm : (s.conns ++ [rtmqRsvrSckCreat sid rsvrId]).Perm (rtmqRsvrSckCreat sid rsvrId :: s.conns) :=
    List.perm_append_singleton ..
  refine ⟨⟨?_, ?_, ?_⟩, t, ?_⟩
  · refine (hperm.map _).nodup_iff.2 (List.nodup_cons.2 ⟨fun hmem => ?_, h.kept.nodup⟩)
    obtain ⟨sck, hsck, hsid⟩ := List.mem_map.1 hmem
    exact hnew sck hsck hsid
  · intro sck hsck
    rcases List.mem_cons.1 (hperm.mem_iff.1 hsck) with rfl | hsck
    · exact fun _ _ => rfl
    · exact h.kept.fresh sck hsck
  · intro sck hsck
    rcases List.mem_cons.1 (hperm.mem_iff.1 hsck) with rfl | hsck
    · exact ⟨.nil, avlCreat_wf⟩
    · exact h.kept.subs sck hsck
  · exact ((exact_cons_idle (serves_of_not_auth rfl)).2 hexact).perm hperm.symm

theorem Wired.perm_auth (h : Wired s) (hsck : sck ∈ s.conns) (nid gid : BitVec 32) (valid : Bool) :
    (s.setSck sck.sid (linkAuth nid gid valid)).conns.Perm
      (linkAuth nid gid valid sck :: without Sck.sid s.conns sck.sid) :=
  perm_writeAt (fun _ => rfl) h.nodup hsck

theorem Wired.auth (h : Wired s) (hsck : sck ∈ s.conns) (nid gid : BitVec 32) :
    Wired (s.setSck sck.sid (linkAuth nid gid true)) :=
  h.setSck hsck (fun _ => rfl) (fun _ => rfl) fun _ hauth => by cases hauth

/-- A request that fails leaves an unauthenticated connection one. -/
theorem Routed.authFail (h : Routed s) (hsck : sck ∈ s.conns) (hopen : sck.frees = none) (hauth : sck.authSucc = false)
    (nid gid : BitVec 32) : Routed (s.setSck sck.sid (linkAuth nid gid false)) := by
  obtain ⟨t, hexact⟩ := h.exact
  refine ⟨h.kept.setSck hsck (fun _ => rfl) (fun _ => rfl) fun _ _ => h.kept.fresh sck hsck hopen hauth, t, ?_⟩
  have hrest := (exact_cons_idle (serves_of_not_auth hauth)).1 (hexact.perm (perm_without h.kept.nodup hsck))
  have hidle : Exact s.nodeToSvrMap t (linkAuth nid gid false sck :: without Sck.sid s.conns sck.sid) :=
    (exact_cons_idle (serves_of_not_auth rfl)).2 hrest
  exact hidle.perm (h.kept.perm_auth hsck nid gid false).symm

/-- The first request that succeeds adds an entry. -/
theorem Routed.authOnce (h : Routed s) (hsck : sck ∈ s.conns) (hopen : sck.frees = none) (hauth : sck.authSucc = false)
    (hreach : s.Reaches nid) (hroom : (Server.served s.conns nid).length < nodeToSvrMaxLen) (gid : BitVec 32) :
    ∃ maps', rtmqNodeToSvrMapAdd s.nodeToSvrMap nid sck.rsvrId = some (maps', true) ∧
      Routed ({ s with nodeToSvrMap := maps' }.setSck sck.sid (linkAuth nid gid true)) := by
  obtain ⟨t, hexact⟩ := h.exact
  rw [← (hexact.served nid).length_eq] at hroom
  obtain ⟨maps', t', hadd, hwf, hd, hentries⟩ :=
    rtmqNodeToSvrMapAdd_spec hexact.wf hexact.keyed (hexact.meets hreach) hroom sck.rsvrId
  have hkept : Wired { s with nodeToSvrMap := maps' } := ⟨h.kept.nodup, h.kept.fresh, h.kept.subs⟩
  refine ⟨maps', hadd, hkept.auth hsck nid gid, t', ?_⟩
  have hrest := (exact_cons_idle (serves_of_not_auth hauth)).1 (hexact.perm (perm_without h.kept.nodup hsck))
  have hcons : Exact maps' t' (linkAuth nid gid true sck :: without Sck.sid s.conns sck.sid) := by
    refine ⟨hwf, hd, fun n => ?_⟩
    rw [hentries n, served_cons]
    by_cases hn : n = nid
    · subst hn
      have hserves : Sck.serves n (linkAuth n gid true sck) = true := @serves_nid (linkAuth n gid true sck) hopen rfl
      rw [if_pos rfl, if_pos hserves]
      exact (List.perm_append_singleton ..).trans ((hrest.served n).cons _)
    · have hother : ¬Sck.serves n (linkAuth nid gid true sck) := by
        unfold Sck.serves linkAuth
        simp only [Bool.and_eq_true, decide_eq_true_eq]
        exact fun h' => hn h'.2.symm
      rw [if_neg hn, if_neg hother]
      exact hrest.served n
  exact hcons.perm (hkept.perm_auth hsck nid gid true).symm

/-- Where the list of the node is full the request fails, and the connection is closed under the
node it has asked for. -/
theorem Routed.authFull (h : Routed s) (hsck : sck ∈ s.conns) (hopen : sck.frees = none) (hreach : s.Reaches nid)
    (hfull : nodeToSvrMaxLen ≤ (Server.served s.conns nid).length)
    (hentry : sck.authSucc = true ∧ nid = sck.nid ∨ sck.authSucc = false ∧ sck.rsvrId ∉ Server.served s.conns nid)
    (gid : BitVec 32) : rtmqNodeToSvrMapAdd s.nodeToSvrMap nid sck.rsvrId = some (s.nodeToSvrMap, false) ∧
      ∃ s', (s.setSck sck.sid (linkAuth nid gid true)).rtmqRsvrDelConnHdl (linkAuth nid gid true sck) = some s' ∧
        Routed s' := by
  obtain ⟨t, hexact⟩ := h.exact
  rw [← (hexact.served nid).length_eq] at hfull
  have hcons := hexact.perm (perm_without h.kept.nodup hsck)
  have hmem : linkAuth nid gid true sck ∈ (s.setSck sck.sid (linkAuth nid gid true)).conns :=
    (h.kept.perm_auth hsck nid gid true).mem_iff.2 List.mem_cons_self
  have hwithout : without Sck.sid (s.setSck sck.sid (linkAuth nid gid true)).conns sck.sid =
      without Sck.sid s.conns sck.sid := without_writeAt fun _ => rfl
  refine ⟨rtmqNodeToSvrMapAdd_full hexact.wf (hexact.meets hreach) hfull _, ?_⟩
  refine (h.kept.auth hsck nid gid).close hmem ?_
  change ∃ maps' t', rtmqNodeToSvrMapDel s.nodeToSvrMap nid sck.rsvrId = some maps' ∧
    Exact maps' t' (without Sck.sid (s.setSck sck.sid (linkAuth nid gid true)).conns sck.sid)
  rw [hwithout]
  rcases hentry with ⟨hauth, rfl⟩ | ⟨hauth, hr⟩
  · exact hcons.del (serves_nid hopen hauth) (hexact.meets hreach)
  · exact ⟨s.nodeToSvrMap, t, hexact.del_absent hr, (exact_cons_idle (serves_of_not_auth hauth)).1 hcons⟩

/-! ## Runs -/

theorem init_routed : Routed init where
  kept := ⟨List.nodup_nil, fun _ h => (List.not_mem_nil h).elim, fun _ h => (List.not_mem_nil h).elim⟩
  exact := ⟨.nil, avlCreat_wf, List.nodup_nil, fun _ => .refl _⟩

theorem Routed.linkAuthReq (h : Routed s) (hfind : s.find sid = some sck) (hopen : sck.frees = none) {gid : BitVec 32}
    {valid : Bool} (hadmits : s.Admits (.linkAuthReq sid nid gid valid)) :
    ∃ s', (s.rtmqRsvrLinkAuthReqHdl sck nid gid valid).bind (recvProc sid) = some s' ∧ Routed s' := by
  obtain ⟨hsck, rfl⟩ := find_mem hfind
  have hcond := hadmits sck (opened_eq_some.2 ⟨hfind, hopen⟩)
  unfold rtmqRsvrLinkAuthReqHdl
  by_cases hgid : gid = 0
  · rw [if_pos hgid] at hcond ⊢
    obtain ⟨s', hdel, hs'⟩ := h.closes hsck hopen hcond
    exact ⟨s', by rw [Option.bind_some, recvProc, hfind]; exact hdel, hs'⟩
  rw [if_neg hgid] at hcond ⊢
  have hfull : rtmqNodeToSvrMapAdd s.nodeToSvrMap nid sck.rsvrId = some (s.nodeToSvrMap, false) →
      ∀ s', (s.setSck sck.sid (linkAuth nid gid true)).rtmqRsvrDelConnHdl (linkAuth nid gid true sck) = some s' →
      ((rtmqNodeToSvrMapAdd s.nodeToSvrMap nid sck.rsvrId).map fun r =>
        ({ s with nodeToSvrMap := r.1 }.setSck sck.sid (linkAuth nid gid true), r.2)).bind (recvProc sck.sid) =
          some s' := by
    intro hadd s' hdel
    have hfind' : (s.setSck sck.sid (linkAuth nid gid true)).find sck.sid = some (linkAuth nid gid true sck) := by
      rw [find_setSck (g := linkAuth nid gid true) fun _ => rfl, hfind]
      rfl
    rw [hadd, Option.map_some, Option.bind_some, recvProc]
    change ((s.setSck sck.sid (linkAuth nid gid true)).find sck.sid).elim _ _ = _
    rw [hfind']
    exact hdel
  cases hauth : sck.authSucc with
  | true =>
    rw [if_pos hauth] at hcond
    obtain ⟨rfl, hnid, hreach, hlen⟩ := hcond
    obtain ⟨hadd, s', hdel, hs'⟩ := h.authFull hsck hopen hreach hlen (.inl ⟨hauth, hnid⟩) gid
    exact ⟨s', by rw [if_pos rfl]; exact hfull hadd s' hdel, hs'⟩
  | false =>
    rw [if_neg (by rw [hauth]; decide)] at hcond
    cases valid with
    | false => exact ⟨_, rfl, h.authFail hsck hopen hauth nid gid⟩
    | true =>
      obtain ⟨hreach, habsent⟩ := hcond rfl
      rw [if_pos rfl]
      by_cases hlen : nodeToSvrMaxLen ≤ (served s.conns nid).length
      · obtain ⟨hadd, s', hdel, hs'⟩ := h.authFull hsck hopen hreach hlen (.inr ⟨hauth, habsent hlen⟩) gid
        exact ⟨s', hfull hadd s' hdel, hs'⟩
      · obtain ⟨maps', hadd, hs'⟩ := h.authOnce hsck hopen hauth hreach (by omega) gid
        exact ⟨_, by rw [hadd]; rfl, hs'⟩

/-- An event that is admitted goes through, and keeps the entries right. -/
theorem Routed.stepLink (h : Routed s) {e : LinkEvent} (hadmits : s.Admits e) :
    ∃ s', s.stepLink e = some s' ∧ Routed s' := by
  cases e with
  | addConn sid rsvrId =>
    cases hfind : s.find sid with
    | none => exact ⟨_, by rw [Server.stepLink, hfind], h.addConn hfind rsvrId⟩
    | some sck => exact ⟨s, by rw [Server.stepLink, hfind], h⟩
  | linkAuthReq sid nid gid valid =>
    cases hopened : s.opened sid with
    | none => exact ⟨s, by rw [Server.stepLink, hopened], h⟩
    | some sck =>
      obtain ⟨hfind, hopen⟩ := opened_eq_some.1 hopened
      obtain ⟨s', hreq, hs'⟩ := h.linkAuthReq hfind hopen hadmits
      exact ⟨s', by rw [Server.stepLink, hopened]; exact hreq, hs'⟩
  | delConn sid =>
    cases hopened : s.opened sid with
    | none => exact ⟨s, by rw [Server.stepLink, hopened], h⟩
    | some sck =>
      obtain ⟨hfind, hopen⟩ := opened_eq_some.1 hopened
      obtain ⟨s', hdel, hs'⟩ := h.closes (find_mem hfind).1 hopen (hadmits sck hopened)
      exact ⟨s', by rw [Server.stepLink, hopened]; exact hdel, hs'⟩

/-- In every run of events that are admitted, a node has an entry for each connection that
is authenticated as it. -/
theorem run_routes (events : List LinkEvent) (h : Guarded (fun s e => (stepLink s e).getD s) Admits init events) :
    ∃ s, events.foldlM stepLink init = some s ∧ s.Routes := by
  obtain ⟨s, hrun, hs⟩ := run_invariant stepLink Admits Routed (fun s e hs hadmits => hs.stepLink hadmits) events _
    init_routed h
  obtain ⟨t, hexact⟩ := hs.exact
  exact ⟨s, hrun, hexact.routes⟩

/-- Two connections authenticate as one node, on two threads; one of them goes, after a third has
failed. -/
theorem run_routes_two : ∃ s, [.addConn 1 0, .linkAuthReq 1 10 5 true, .addConn 2 1, .linkAuthReq 2 10 5 true,
    .addConn 3 0, .linkAuthReq 3 10 5 false, .linkAuthReq 3 10 0 true, .delConn 1].foldlM stepLink init = some s ∧
      s.Routes :=
  run_routes _ (by decide +kernel)

/-- A connection authenticates twice and has two entries. -/
theorem second_entry : ¬∀ events : List LinkEvent, ∃ s, events.foldlM stepLink init = some s ∧ s.Routes := by
  intro hall
  obtain ⟨s, hrun, items, hitems, -, hroutes⟩ := hall [.addConn 1 0, .linkAuthReq 1 10 5 true, .linkAuthReq 1 10 5 true]
  have htwo : ([.addConn 1 0, .linkAuthReq 1 10 5 true, .linkAuthReq 1 10 5 true].foldlM stepLink init).bind (fun s =>
      s.nodeToSvrMap.avlTrav.map fun items => ((entries items 10).count 0, s.conns.length)) = some (2, 1) := by
    decide +kernel
  rw [hrun, Option.bind_some, hitems, Option.map_some, Option.some.injEq, Prod.mk.injEq] at htwo
  have hle := s.conns.countP_le_length (p := fun sck => sck.serves 10 && sck.rsvrId = 0)
  rw [← hroutes 10 0] at hle
  omega

end BeehiveIm.Rtmq.Server
