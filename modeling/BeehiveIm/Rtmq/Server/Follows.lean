/-
Subscriptions follow their connections. A connection takes each type that it has subscribed to out
of the table when it is freed, under the gid that it has then: as long as that is the gid it has
subscribed under, what the table stores is of connections that have not been freed.
-/
import BeehiveIm.Rtmq.Server.NodeMap
import BeehiveIm.Rtmq.SubTab.Runs

namespace BeehiveIm.Rtmq.Server

open BeehiveIm.Lib BeehiveIm.Core AvlTree SubTab

/-- The connection that is being freed, and the type that is next. -/
def item (s : Server) (sid : BitVec 64) : Option (Sck × BitVec 32) :=
  (s.find sid).bind fun sck => (sck.frees.bind List.head?).map fun type => (sck, type)

/-- What an event makes of the subscriptions. -/
def follow (s : Server) (live : Finset Sub) : Event → Finset Sub
  | .link _ => live
  | .subReq sid type =>
    (s.opened sid).elim live fun sck => if sck.authSucc then Call.follow live (.add (link sck) type) else live
  | .subItemFree sid => (s.item sid).elim live fun i => Call.follow live (.del (link i.1) i.2)

/-- The server, with the subscriptions that were made and not taken back since. -/
def next (h : Server × Finset Sub) (e : Event) : Option (Server × Finset Sub) :=
  (h.1.step e).map fun s => (s, h.1.follow h.2 e)

/-- Every node that is stored is one of a connection that has not been freed. -/
def Follows (s : Server) : Prop :=
  ∃ lists, s.sub.stored = some lists ∧
    ∀ list ∈ lists, ∀ group ∈ list.2, ∀ node ∈ group.nodes.arr, ∃ sck ∈ s.conns, sck.sid = node.sid

/-- A subscription finds its group, or there is room for a new one; a connection takes out what it
has subscribed to under the gid that it has, and finds the group. -/
def Takes (h : Server × Finset Sub) : Event → Prop
  | .link _ => True
  | .subReq sid type => ∀ sck ∈ h.1.opened sid, sck.authSucc →
    SubTab.Reaches (h.1.sub, h.2) type sck.gid ∧ h.1.sub.TypeFits h.2 type ∧ NodeFits h.2 (link sck) type
  | .subItemFree sid => ∀ i ∈ h.1.item sid, ∀ x ∈ h.2, x.sid = sid → x.type = i.2 →
    x.gid = i.1.gid ∧ SubTab.Reaches (h.1.sub, h.2) x.type x.gid

instance (h : Server × Finset Sub) (e : Event) : Decidable (Takes h e) := by
  cases e with
  | link e => exact inferInstanceAs (Decidable True)
  | subReq sid type => exact inferInstanceAs (Decidable (∀ sck ∈ h.1.opened sid, sck.authSucc → _ ∧ _ ∧ _))
  | subItemFree sid => exact inferInstanceAs (Decidable (∀ i ∈ h.1.item sid, ∀ x ∈ h.2, _ → _ → _ ∧ _))

/-! ## The items of a connection -/

/-- The connection has an item for the type: in its list, or still to be freed. -/
def Sck.Has (type : BitVec 32) (sck : Sck) : Prop :=
  match sck.frees with
  | none => ∃ t, Wf sck.subList t ∧ type ∈ t.toList
  | some types => type ∈ types

theorem wf_toList {α : Type} {T : AvlTree α} {t u : PTree Int α} (ht : Wf T t) (hu : Wf T u) : t.toList = u.toList :=
  Option.some.inj ((avlTrav_eq ht).symm.trans (avlTrav_eq hu))

theorem rtmqRsvrSckAddSub_spec {subList : AvlTree (BitVec 32)} {t : PTree Int (BitVec 32)} (h : Wf subList t)
    (type : BitVec 32) : ∃ subList' t', rtmqRsvrSckAddSub subList type = some (subList', true) ∧ Wf subList' t' ∧
      ∀ x, x ∈ t'.toList ↔ x = type ∨ x ∈ t.toList := by
  unfold rtmqRsvrSckAddSub
  rw [avlQuery_eq h]
  cases hmeet : meetBy (diff32 type) t with
  | some x =>
    obtain ⟨h0, hperm⟩ := dropBy_perm hmeet
    have hx : x = type := ((diff32_eq_zero type x).1 h0).symm
    refine ⟨subList, t, rfl, h, fun y => (or_iff_right_of_imp ?_).symm⟩
    rintro rfl
    rw [← hx]
    exact hperm.mem_iff.2 List.mem_cons_self
  | none =>
    obtain ⟨subList', hins, t', hwf, hlist⟩ := avlInsert_placed (d := type) h hmeet
    refine ⟨subList', t', by rw [hins]; rfl, hwf, fun x => ?_⟩
    rw [hlist, (placeBy_perm t).mem_iff, List.mem_cons]

/-- The table is right, no slot is locked, and what is stored are items of connections
that have not been freed. -/
structure Sound (h : Server × Finset Sub) : Prop where
  keeps : ∃ lists, Keeps Drawn h.1.sub lists h.2
  unlocked : ∀ i, h.1.sub.locked i = false
  maps : ∃ t, Wf h.1.nodeToSvrMap t
  nodup : (h.1.conns.map Sck.sid).Nodup
  subs : ∀ sck ∈ h.1.conns, ∃ t, Wf sck.subList t
  owned : ∀ x ∈ h.2, ∃ sck ∈ h.1.conns, sck.sid = x.sid ∧ sck.Has x.type

variable {s : Server} {live : Finset Sub} {sck : Sck} {sid : BitVec 64} {type : BitVec 32}

theorem init_sound : Sound (init, ∅) where
  keeps := ⟨[], rtmqSubInit_keeps⟩
  unlocked _ := rfl
  maps := ⟨.nil, avlCreat_wf⟩
  nodup := List.nodup_nil
  subs _ h := (List.not_mem_nil h).elim
  owned x h := (Finset.notMem_empty x h).elim

theorem Sound.follows (h : Sound (s, live)) : s.Follows := by
  obtain ⟨lists, hkeeps⟩ := h.keeps
  obtain ⟨stored, hstored, hstores⟩ := hkeeps.stores drawn_keeper
  refine ⟨stored, hstored, fun list hl group hg node hnode => ?_⟩
  obtain ⟨sck, hsck, hsid, -⟩ := h.owned _
    ((hstores.mem list.1 group.gid node).2 ⟨list, hl, rfl, group, hg, rfl, hnode⟩)
  exact ⟨sck, hsck, hsid⟩

/-- The items of a connection, from what it has in the table. -/
theorem Sound.has (h : Sound (s, live)) (hsck : sck ∈ s.conns) {x : Sub} (hx : x ∈ live) (hsid : x.sid = sck.sid) :
    sck.Has x.type := by
  obtain ⟨sck', hsck', hsid', hhas⟩ := h.owned x hx
  obtain rfl := List.inj_on_of_nodup_map h.nodup hsck' hsck (hsid'.trans hsid)
  exact hhas

theorem Sound.node_map (h : Sound (s, live)) {maps : AvlTree NodeToSvrMap} {t : PTree Int NodeToSvrMap}
    (hwf : Wf maps t) : Sound ({ s with nodeToSvrMap := maps }, live) :=
  ⟨h.keeps, h.unlocked, ⟨t, hwf⟩, h.nodup, h.subs, h.owned⟩

/-- The table changes, and one connection, which keeps an item for each of its subscriptions. -/
theorem Sound.change (h : Sound (s, live)) {sub : SubTab} {live' : Finset Sub}
    (hkeeps : ∃ lists, Keeps Drawn sub lists live') (hlocked : sub.locked = s.sub.locked) (hsck : sck ∈ s.conns)
    {g : Sck → Sck} (hg : ∀ sck, (g sck).sid = sck.sid) (hsubs : ∃ t, Wf (g sck).subList t)
    (howned : ∀ x ∈ live', x.sid = sck.sid → (g sck).Has x.type) (hother : ∀ x ∈ live', x.sid ≠ sck.sid → x ∈ live) :
    Sound ({ s with sub := sub }.setSck sck.sid g, live') := by
  have hperm : ({ s with sub := sub }.setSck sck.sid g).conns.Perm (g sck :: without Sck.sid s.conns sck.sid) :=
    perm_writeAt hg h.nodup hsck
  refine ⟨hkeeps, fun i => ?_, h.maps, ?_, fun x hx => ?_, fun x hx => ?_⟩
  · change sub.locked i = false
    rw [hlocked]
    exact h.unlocked i
  · change ((writeAt Sck.sid sck.sid g s.conns).map Sck.sid).Nodup
    rw [map_key_writeAt hg]
    exact h.nodup
  · rcases List.mem_cons.1 (hperm.mem_iff.1 hx) with rfl | hx
    · exact hsubs
    · exact h.subs x (mem_without.1 hx).1
  · by_cases hsid : x.sid = sck.sid
    · exact ⟨g sck, hperm.mem_iff.2 List.mem_cons_self, (hg sck).trans hsid.symm, howned x hx hsid⟩
    · obtain ⟨sck', hsck', hsid', hhas⟩ := h.owned x (hother x hx hsid)
      have hrest : sck' ∈ without Sck.sid s.conns sck.sid := mem_without.2 ⟨hsck', fun h' => hsid (hsid'.symm.trans h')⟩
      exact ⟨sck', hperm.mem_iff.2 (List.mem_cons_of_mem _ hrest), hsid', hhas⟩

theorem Sound.setSck (h : Sound (s, live)) (hsck : sck ∈ s.conns) {g : Sck → Sck} (hg : ∀ sck, (g sck).sid = sck.sid)
    (hsubs : ∃ t, Wf (g sck).subList t) (howned : ∀ x ∈ live, x.sid = sck.sid → (g sck).Has x.type) :
    Sound (s.setSck sck.sid g, live) :=
  h.change h.keeps rfl hsck hg hsubs howned fun _ hx _ => hx

/-! ## Events -/

theorem Sound.addConn (h : Sound (s, live)) (hnone : s.find sid = none) (rsvrId : Nat) :
    Sound ({ s with conns := s.conns ++ [rtmqRsvrSckCreat sid rsvrId] }, live) := by
  have hnew := lookup_eq_none.1 hnone
  refine ⟨h.keeps, h.unlocked, h.maps, ?_, fun sck hsck => ?_, fun x hx => ?_⟩
  · dsimp only
    rw [List.map_append, List.nodup_append]
    refine ⟨h.nodup, List.nodup_singleton _, fun a ha b hb => ?_⟩
    obtain ⟨sck, hsck, rfl⟩ := List.mem_map.1 ha
    rw [List.mem_singleton.1 hb]
    exact hnew sck hsck
  · rcases List.mem_append.1 hsck with hsck | hsck
    · exact h.subs sck hsck
    · obtain rfl := List.mem_singleton.1 hsck
      exact ⟨.nil, avlCreat_wf⟩
  · obtain ⟨sck, hsck, hx⟩ := h.owned x hx
    exact ⟨sck, List.mem_append_left _ hsck, hx⟩

theorem Sound.delConn (h : Sound (s, live)) (hsck : sck ∈ s.conns) (hopen : sck.frees = none) :
    ∃ s', s.rtmqRsvrDelConnHdl sck = some s' ∧ Sound (s', live) := by
  obtain ⟨t, ht⟩ := h.maps
  obtain ⟨maps', t', hdel, hwf⟩ := rtmqNodeToSvrMapDel_wf ht sck.nid sck.rsvrId
  obtain ⟨u, hu⟩ := h.subs sck hsck
  obtain ⟨types, hdestroy, hperm⟩ := avlDestroy_spec hu
  refine ⟨{ s with nodeToSvrMap := maps' }.setSck sck.sid fun sck => { sck with frees := types }, ?_, ?_⟩
  · unfold rtmqRsvrDelConnHdl
    rw [hdel, hdestroy]
  · refine (h.node_map hwf).setSck hsck (fun _ => rfl) ⟨u, hu⟩ fun x hx hsid => ?_
    have hhas := h.has hsck hx hsid
    unfold Sck.Has at hhas ⊢
    rw [hopen] at hhas
    obtain ⟨u', hu', hmem⟩ := hhas
    exact hperm.mem_iff.2 (wf_toList hu' hu ▸ hmem)

/-- Whether the handler has succeeded or not. -/
theorem Sound.recvProc (h : Sound (s, live)) (hfind : s.find sid = some sck) (hopen : sck.frees = none) (ret : Bool) :
    ∃ s', recvProc sid (s, ret) = some s' ∧ Sound (s', live) := by
  cases ret with
  | true => exact ⟨s, rfl, h⟩
  | false =>
    obtain ⟨s', hdel, hs'⟩ := h.delConn (find_mem hfind).1 hopen
    exact ⟨s', by rw [Server.recvProc, hfind]; exact hdel, hs'⟩

theorem Sound.linkAuthReq (h : Sound (s, live)) (hfind : s.find sid = some sck) (hopen : sck.frees = none)
    (nid gid : BitVec 32) (valid : Bool) :
    ∃ s', (s.rtmqRsvrLinkAuthReqHdl sck nid gid valid).bind (Server.recvProc sid) = some s' ∧ Sound (s', live) := by
  obtain ⟨hsck, rfl⟩ := find_mem hfind
  unfold rtmqRsvrLinkAuthReqHdl
  split
  · exact h.recvProc hfind hopen false
  -- the request changes neither the list of the connection nor its sid
  have hauth {s : Server} (h : Sound (s, live)) (hfind : s.find sck.sid = some sck) :
      Sound (s.setSck sck.sid (linkAuth nid gid valid), live) ∧
        (s.setSck sck.sid (linkAuth nid gid valid)).find sck.sid = some (linkAuth nid gid valid sck) := by
    have hsck := (find_mem hfind).1
    constructor
    · exact h.setSck hsck (fun _ => rfl) (h.subs sck hsck) fun x hx hsid => h.has hsck hx hsid
    · rw [find_setSck (g := linkAuth nid gid valid) fun _ => rfl, hfind]
      rfl
  split
  · obtain ⟨t, ht⟩ := h.maps
    obtain ⟨maps', ret, t', hadd, hwf⟩ := rtmqNodeToSvrMapAdd_wf ht nid sck.rsvrId
    obtain ⟨hsound, hfind'⟩ := hauth (h.node_map hwf) hfind
    rw [hadd]
    exact hsound.recvProc hfind' hopen ret
  · exact ⟨_, rfl, (hauth h hfind).1⟩

theorem Sound.subReq (h : Sound (s, live)) (hfind : s.find sid = some sck) (hopen : sck.frees = none)
    (htakes : sck.authSucc → SubTab.Reaches (s.sub, live) type sck.gid ∧ s.sub.TypeFits live type ∧
      NodeFits live (link sck) type) :
    ∃ s', (s.rtmqRsvrSubReqHdl sck type).bind (Server.recvProc sid) = some s' ∧
      Sound (s', if sck.authSucc then Call.follow live (.add (link sck) type) else live) := by
  obtain ⟨hsck, rfl⟩ := find_mem hfind
  cases hauth : sck.authSucc with
  | false =>
    obtain ⟨s', hrecv, hs'⟩ := h.recvProc hfind hopen false
    refine ⟨s', ?_, hs'⟩
    unfold rtmqRsvrSubReqHdl
    rw [hauth]
    exact hrecv
  | true =>
    obtain ⟨hreach, htype, hnode⟩ := htakes hauth
    obtain ⟨lists, hkeeps⟩ := h.keeps
    obtain ⟨sub, lists', hadd, hkeeps', hlocked⟩ := hkeeps.add drawn_keeper (h.unlocked _) htype hnode
      (by rintro ⟨g, hg, -⟩; cases hg) (hreach.found hkeeps) fun _ _ _ _ => trivial
    obtain ⟨t, hwf⟩ := h.subs sck hsck
    obtain ⟨subList, t', hitem, hwf', hmem⟩ := rtmqRsvrSckAddSub_spec hwf type
    refine ⟨{ s with sub := sub }.setSck sck.sid fun sck => { sck with subList := subList }, ?_, ?_⟩
    · unfold rtmqRsvrSubReqHdl
      rw [hauth, hadd]
      dsimp only
      rw [hitem]
      rfl
    rw [if_pos rfl]
    have hnew : ∀ x ∈ Call.follow live (.add (link sck) type), x ∈ live ∨ x.sid = sck.sid ∧ x.type = type := by
      intro x hx
      unfold Call.follow at hx
      dsimp only at hx
      split at hx
      · exact .inl hx
      · rcases Finset.mem_insert.1 hx with rfl | hx
        · exact .inr ⟨rfl, rfl⟩
        · exact .inl hx
    refine h.change ⟨lists', hkeeps'⟩ hlocked hsck (fun _ => rfl) ⟨t', hwf'⟩ (fun x hx hsid => ?_) fun x hx hsid => ?_
    · unfold Sck.Has
      dsimp only
      rw [hopen]
      refine ⟨t', hwf', (hmem x.type).2 ?_⟩
      rcases hnew x hx with hx | ⟨-, htype⟩
      · have hhas := h.has hsck hx hsid
        unfold Sck.Has at hhas
        rw [hopen] at hhas
        obtain ⟨u, hu, hmemu⟩ := hhas
        exact .inr (wf_toList hu hwf ▸ hmemu)
      · exact .inl htype
    · exact (hnew x hx).resolve_right fun h' => hsid h'.1

theorem Sound.subItemFree (h : Sound (s, live)) (hsck : sck ∈ s.conns) {types : List (BitVec 32)}
    (hfrees : sck.frees = some (type :: types))
    (htakes : ∀ x ∈ live, x.sid = sck.sid → x.type = type → x.gid = sck.gid ∧
    SubTab.Reaches (s.sub, live) x.type x.gid) : ∃ sub, s.sub.rtmqRsvrSckSubItemFree (link sck) type = some sub ∧
      Sound ({ s with sub := sub }.setSck sck.sid fun sck => { sck with frees := types },
        Call.follow live (.del (link sck) type)) := by
  obtain ⟨lists, hkeeps⟩ := h.keeps
  have hremove : ∃ sub lists', s.sub.rtmqRsvrSckSubItemFree (link sck) type = some sub ∧
      Keeps Drawn sub lists' (Call.follow live (.del (link sck) type)) ∧ sub.locked = s.sub.locked := by
    by_cases hhas : Has live type sck.gid sck.sid
    · obtain ⟨x, hx, rfl, hgid, hsid⟩ := hhas
      have hreach := (htakes x hx hsid rfl).2
      rw [hgid] at hreach
      have hfound : ∀ list ∈ lists, list.type = x.type → ∀ G, Kept Drawn list.groups G (membersOf live x.type) →
          Found list.groups G (link sck).gid := hreach.found hkeeps
      obtain ⟨sub, lists', hsub, hkeeps', hlocked⟩ := hkeeps.remove drawn_keeper (h.unlocked _) hfound false
      exact ⟨sub, lists', hsub, hkeeps', hlocked (.inl rfl)⟩
    · refine ⟨s.sub, lists, hkeeps.remove_of_not_has (h.unlocked _) hhas, ?_, rfl⟩
      rw [follow_del_of_not_has hhas]
      exact hkeeps
  obtain ⟨sub, lists', hsub, hkeeps', hlocked⟩ := hremove
  refine ⟨sub, hsub, ?_⟩
  refine h.change ⟨lists', hkeeps'⟩ hlocked hsck (fun _ => rfl) (h.subs sck hsck) (fun x hx hsid => ?_) fun x hx _ => ?_
  · obtain ⟨hx, hne⟩ := Finset.mem_filter.1 hx
    have hhas := h.has hsck hx hsid
    unfold Sck.Has at hhas ⊢
    rw [hfrees] at hhas
    rcases List.mem_cons.1 hhas with htype | htypes
    · exact absurd ⟨htype, (htakes x hx hsid htype).1, hsid⟩ hne
    · exact htypes
  · exact (Finset.mem_filter.1 hx).1

/-- A connection without items left has nothing in the table, and is freed. -/
theorem Sound.freed (h : Sound (s, live)) (hsck : sck ∈ s.conns) (hfrees : sck.frees = some []) :
    Sound ({ s with conns := without Sck.sid s.conns sck.sid }, live) := by
  refine ⟨h.keeps, h.unlocked, h.maps, (List.filter_sublist.map _).nodup h.nodup, fun x hx => ?_, fun x hx => ?_⟩
  · exact h.subs x (mem_without.1 hx).1
  · obtain ⟨sck', hsck', hsid, hhas⟩ := h.owned x hx
    refine ⟨sck', mem_without.2 ⟨hsck', fun h' => ?_⟩, hsid, hhas⟩
    have hnone := h.has hsck hx (hsid.symm.trans h')
    unfold Sck.Has at hnone
    rw [hfrees] at hnone
    cases hnone

/-! ## Runs -/

/-- An event that is admitted goes through, and keeps the connections and the table in step. -/
theorem Sound.next {h : Server × Finset Sub} (hs : Sound h) {e : Event} (htakes : Takes h e) :
    ∃ h', next h e = some h' ∧ Sound h' := by
  obtain ⟨s, live⟩ := h
  have hstep : ∀ {e s' live'}, s.step e = some s' → s.follow live e = live' → Sound (s', live') →
      ∃ h', Server.next (s, live) e = some h' ∧ Sound h' := by
    intro e s' live' hstep hfollow hs'
    refine ⟨(s', live'), ?_, hs'⟩
    unfold Server.next
    rw [hstep, hfollow]
    rfl
  cases e with
  | link e =>
    cases e with
    | addConn sid rsvrId =>
      cases hfind : s.find sid with
      | none => exact hstep (by rw [step, stepLink, hfind]) rfl (hs.addConn hfind rsvrId)
      | some sck => exact hstep (by rw [step, stepLink, hfind]) rfl hs
    | linkAuthReq sid nid gid valid =>
      cases hopened : s.opened sid with
      | none => exact hstep (by rw [step, stepLink, hopened]) rfl hs
      | some sck =>
        obtain ⟨hfind, hopen⟩ := opened_eq_some.1 hopened
        obtain ⟨s', hreq, hs'⟩ := hs.linkAuthReq hfind hopen nid gid valid
        exact hstep (by rw [step, stepLink, hopened]; exact hreq) rfl hs'
    | delConn sid =>
      cases hopened : s.opened sid with
      | none => exact hstep (by rw [step, stepLink, hopened]) rfl hs
      | some sck =>
        obtain ⟨hfind, hopen⟩ := opened_eq_some.1 hopened
        obtain ⟨s', hdel, hs'⟩ := hs.delConn (find_mem hfind).1 hopen
        exact hstep (by rw [step, stepLink, hopened]; exact hdel) rfl hs'
  | subReq sid type =>
    cases hopened : s.opened sid with
    | none => exact hstep (by rw [step, hopened]) (by rw [follow, hopened]; rfl) hs
    | some sck =>
      obtain ⟨hfind, hopen⟩ := opened_eq_some.1 hopened
      obtain ⟨s', hreq, hs'⟩ := hs.subReq hfind hopen (htakes sck hopened)
      exact hstep (by rw [step, hopened]; exact hreq) (by rw [follow, hopened]; rfl) hs'
  | subItemFree sid =>
    cases hfind : s.find sid with
    | none => exact hstep (by rw [step, hfind]) (by rw [follow, item, hfind]; rfl) hs
    | some sck =>
      obtain ⟨hsck, rfl⟩ := find_mem hfind
      cases hfrees : sck.frees with
      | none =>
        refine hstep ?_ ?_ hs
        · rw [step, hfind]
          dsimp only
          rw [hfrees]
        · rw [follow, item, hfind, Option.bind_some, hfrees]
          rfl
      | some types =>
        cases types with
        | nil =>
          refine hstep ?_ ?_ (hs.freed hsck hfrees)
          · rw [step, hfind]
            dsimp only
            rw [hfrees]
          · rw [follow, item, hfind, Option.bind_some, hfrees]
            rfl
        | cons type types =>
          have hitem : s.item sck.sid = some (sck, type) := by
            rw [item, hfind, Option.bind_some, hfrees]
            rfl
          obtain ⟨sub, hsub, hs'⟩ := hs.subItemFree hsck hfrees (htakes (sck, type) hitem)
          refine hstep ?_ ?_ hs'
          · rw [step, hfind]
            dsimp only
            rw [hfrees]
            dsimp only
            rw [hsub]
            rfl
          · rw [follow, hitem]
            rfl

/-- In every run of events that are admitted, what is stored is of connections that have not been
freed. -/
theorem run_follows (events : List Event) (h : Guarded (fun h e => (next h e).getD h) Takes (init, ∅) events) :
    ∃ s live, events.foldlM next (init, ∅) = some (s, live) ∧ s.Follows := by
  obtain ⟨⟨s, live⟩, hrun, hs⟩ := run_invariant next Takes Sound (fun h e hs htakes => hs.next htakes) events _
    init_sound h
  exact ⟨s, live, hrun, hs.follows⟩

/-- A connection authenticates twice in one group, subscribes twice and goes. -/
theorem run_follows_once : ∃ s live, [.link (.addConn 1 0), .link (.linkAuthReq 1 10 5 true), .subReq 1 7,
    .link (.linkAuthReq 1 11 5 true), .subReq 1 8, .link (.delConn 1), .subItemFree 1, .subItemFree 1,
    .subItemFree 1].foldlM next (init, ∅) = some (s, live) ∧ s.Follows :=
  run_follows _ (by decide +kernel)

/-- A connection subscribes in a group, authenticates in another and goes; its subscription
stays. -/
theorem subscription_stays : ¬∀ events : List Event,
    ∃ s live, events.foldlM next (init, ∅) = some (s, live) ∧ s.Follows := by
  intro hall
  obtain ⟨s, live, hrun, lists, hstored, hfollows⟩ := hall [.link (.addConn 1 0), .link (.linkAuthReq 1 10 5 true),
    .subReq 1 7, .link (.linkAuthReq 1 10 6 true), .link (.delConn 1), .subItemFree 1, .subItemFree 1]
  have hleft : ([.link (.addConn 1 0), .link (.linkAuthReq 1 10 5 true), .subReq 1 7,
    .link (.linkAuthReq 1 10 6 true), .link (.delConn 1), .subItemFree 1, .subItemFree 1].foldlM next (init, ∅)).bind
      (fun h => h.1.sub.stored.map fun lists => (h.1.conns.map Sck.sid, (lists.flatMap fun list =>
        list.2.flatMap fun group => group.nodes.arr.map SubNode.sid))) = some ([], [1]) := by decide +kernel
  rw [hrun, Option.bind_some, hstored, Option.map_some, Option.some.injEq, Prod.mk.injEq] at hleft
  obtain ⟨hconns, hnodes⟩ := hleft
  have hmem : (1 : BitVec 64) ∈ lists.flatMap fun list => list.2.flatMap fun group =>
      group.nodes.arr.map SubNode.sid := by
    rw [hnodes]
    exact List.mem_singleton_self _
  obtain ⟨list, hl, hmem⟩ := List.mem_flatMap.1 hmem
  obtain ⟨group, hg, hmem⟩ := List.mem_flatMap.1 hmem
  obtain ⟨node, hnode, -⟩ := List.mem_map.1 hmem
  obtain ⟨sck, hsck, -⟩ := hfollows list hl group hg node hnode
  rw [List.map_eq_nil_iff.1 hconns] at hsck
  cases hsck

end BeehiveIm.Rtmq.Server
