/-
One active connection for each session. A connection is known by its address, which is not given out
again; what has happened in a run is compared with the index and with the kick list after it.
-/
import BeehiveIm.Listend.ConnList
import BeehiveIm.Listend.Kicks

namespace BeehiveIm.Listend

open BeehiveIm.Lib BeehiveIm.Core BeehiveIm.Chat

/-! ## The index -/

/-- The index has the sessions on the connections `cidOf`, and its locks are free. -/
structure ChatIs (C : ChatState) (cidOf : BitVec 64 → Option (BitVec 64)) : Prop where
  free : ∀ i, C.wrlocked i = false
  len : C.tab.sid2cids.len = lsndChatTabLen
  index : ∃ items, Holds idKey Prod.fst C.tab.sid2cids items ∧
    ∀ sid, lookup Prod.fst items sid = (cidOf sid).map (sid, ·)

namespace ChatIs

variable {C : ChatState} {cidOf : BitVec 64 → Option (BitVec 64)} {sid cid : BitVec 64}

theorem query (h : ChatIs C cidOf) (hsid : HashOk lsndChatTabLen sid.toInt) :
    idKey.query Prod.fst C.tab.sid2cids sid = some ((cidOf sid).map (sid, ·)) := by
  obtain ⟨items, hitems, hcids⟩ := h.index
  rw [hitems.query (by rw [h.len]; exact hsid), hcids]

theorem maps_iff (h : ChatIs C cidOf) :
    idKey.query Prod.fst C.tab.sid2cids sid = some (some (sid, cid)) ↔ cidOf sid = some cid := by
  obtain ⟨items, hitems, hcids⟩ := h.index
  rw [hitems.query_eq_some, hcids]
  simp

theorem chatGetCidBySid (h : ChatIs C cidOf) (hsid : HashOk lsndChatTabLen sid.toInt) :
    C.chatGetCidBySid sid = some ((cidOf sid).getD 0) := by
  rw [ChatState.chatGetCidBySid, h.free, if_neg Bool.false_ne_true, h.query hsid]
  cases cidOf sid <;> rfl

/-- The entry of a session goes. -/
theorem delete (h : ChatIs C cidOf) (hsid : HashOk lsndChatTabLen sid.toInt) :
    ∃ sid2cids, idKey.delete Prod.fst C.tab.sid2cids sid = some (sid2cids, (cidOf sid).map (sid, ·)) ∧
      ChatIs { C with tab := { C.tab with sid2cids := sid2cids } } (Function.update cidOf sid none) ∧
      ∀ k, Fits idKey Prod.fst C.tab.sid2cids k → Fits idKey Prod.fst sid2cids k := by
  obtain ⟨items, hitems, hcids⟩ := h.index
  obtain ⟨sid2cids, hdel, hitems', hlen⟩ := hitems.delete (k := sid) (by rw [h.len]; exact hsid)
  rw [hcids] at hdel
  refine ⟨sid2cids, hdel, ⟨h.free, hlen.trans h.len, _, hitems', fun s => ?_⟩, fun k hk => ?_⟩
  · rw [lookup_without, Function.update_apply]
    split
    · rfl
    · exact hcids s
  · obtain ⟨hhash, hcmp⟩ := hitems.fits_iff.1 hk
    rw [hitems'.fits_iff, hlen]
    exact ⟨hhash, hcmp.mono (slotKeys_mono fun e he => (mem_without.1 he).1)⟩

theorem insert (h : ChatIs C cidOf) (hsid : Fits idKey Prod.fst C.tab.sid2cids sid) (hno : cidOf sid = none)
    (cid : BitVec 64) : ∃ sid2cids, idKey.insert Prod.fst C.tab.sid2cids (sid, cid) true = some (sid2cids, .ok) ∧
      ChatIs { C with tab := { C.tab with sid2cids := sid2cids } } (Function.update cidOf sid (some cid)) := by
  obtain ⟨items, hitems, hcids⟩ := h.index
  obtain ⟨hhash, hcmp⟩ := hitems.fits_iff.1 hsid
  have hnone : lookup Prod.fst items sid = none := by rw [hcids, hno, Option.map_none]
  obtain ⟨sid2cids, hins, hitems', hlen⟩ := hitems.insert_ok (e := (sid, cid)) hhash hnone hcmp
  refine ⟨sid2cids, hins, h.free, hlen.trans h.len, _, hitems', fun s => ?_⟩
  rw [lookup_cons, Function.update_apply]
  by_cases hs : s = sid
  · subst hs
    rw [if_pos rfl, if_pos rfl]
    rfl
  · rw [if_neg (Ne.symm hs), if_neg hs, hcids]

theorem chatDelSidToCid (h : ChatIs C cidOf) (hsid : HashOk lsndChatTabLen sid.toInt) (cid : BitVec 64) :
    ∃ C', C.chatDelSidToCid sid cid = some C' ∧
      ChatIs C' (if cidOf sid = some cid then Function.update cidOf sid none else cidOf) := by
  rw [ChatState.chatDelSidToCid, h.free, if_neg Bool.false_ne_true, ChatTab.chatDelSidToCid, h.query hsid]
  cases hcid : cidOf sid with
  | none => exact ⟨C, rfl, h⟩
  | some old =>
    obtain ⟨sid2cids, hdel, hchat, -⟩ := h.delete hsid
    by_cases hsame : old = cid
    · subst hsame
      refine ⟨_, ?_, by rw [if_pos rfl]; exact hchat⟩
      simp [hdel]
    · have hne : ¬some old = some cid := fun h0 => hsame (Option.some.inj h0)
      refine ⟨C, ?_, by rw [if_neg hne]; exact h⟩
      simp [hsame]

theorem chatSetSidToCid (h : ChatIs C cidOf) (hsid : Fits idKey Prod.fst C.tab.sid2cids sid) (cid : BitVec 64) :
    ∃ C', C.chatSetSidToCid sid cid true true = some (C', 0) ∧ ChatIs C' (Function.update cidOf sid (some cid)) := by
  have hhash : HashOk lsndChatTabLen sid.toInt := h.len ▸ hsid.1
  rw [ChatState.chatSetSidToCid, h.free, if_neg Bool.false_ne_true, h.query hhash]
  cases hcid : cidOf sid with
  | none =>
    obtain ⟨sid2cids, hins, hchat⟩ := h.insert hsid hcid cid
    refine ⟨_, ?_, hchat⟩
    simp [hins]
  | some old =>
    by_cases hsame : old = cid
    · subst hsame
      refine ⟨C, by simp, ?_⟩
      rw [Function.update_eq_self_iff.2 hcid.symm]
      exact h
    · obtain ⟨sid2cids, hdel, hchat, hfits⟩ := h.delete hhash
      obtain ⟨sid2cids', hins, hchat'⟩ := hchat.insert (hfits sid hsid) (Function.update_self ..) cid
      rw [Function.update_idem] at hchat'
      refine ⟨_, ?_, hchat'⟩
      simp only [Option.map_some, hsame, if_false, hdel, if_true]
      have hins : idKey.insert Prod.fst sid2cids (sid, cid) true = some (sid2cids', .ok) := hins
      rw [hins]
      simp

end ChatIs

/-! ## The kick list -/

/-- The kick list is a table of `cid`s. -/
def KickListIs (kickList : HashTab LsndKickItem) : Prop :=
  kickList.len = lsndConnHashTabLen ∧ ∃ items, Holds idKey LsndKickItem.cid kickList items

/-- A `cid` has an item on the list. -/
def Listed (kickList : HashTab LsndKickItem) (cid : BitVec 64) : Prop :=
  (idKey.query LsndKickItem.cid kickList cid).join.isSome

/-- There is memory to kick a connection. -/
def LsndMem.Kicks (mem : LsndMem) : Prop := mem.kick ∧ mem.kickNode

namespace KickListIs

variable {kickList : HashTab LsndKickItem} {cid : BitVec 64}

/-- An insertion may find the item there, or no memory. -/
theorem insert (h : KickListIs kickList) (hcid : Fits idKey LsndKickItem.cid kickList cid) (ttl : Int) (node : Bool) :
    ∃ kickList' ret, idKey.insert LsndKickItem.cid kickList ⟨cid, ttl⟩ node = some (kickList', ret) ∧
      KickListIs kickList' ∧ (node → Listed kickList' cid) := by
  obtain ⟨hlen, items, hitems⟩ := h
  obtain ⟨hhash, hcmp⟩ := hitems.fits_iff.1 hcid
  unfold Listed
  cases hl : lookup LsndKickItem.cid items cid with
  | some item =>
    have hins := hitems.insert_exist (e := ⟨cid, ttl⟩) hhash hl node
    refine ⟨kickList, _, hins, ⟨hlen, items, hitems⟩, fun _ => ?_⟩
    rw [hitems.query hhash, hl]
    rfl
  | none =>
    cases node with
    | false =>
      have hins := hitems.insert_err (e := ⟨cid, ttl⟩) hhash hl hcmp
      exact ⟨kickList, _, hins, ⟨hlen, items, hitems⟩, nofun⟩
    | true =>
      obtain ⟨kickList', hins, hitems', hlen'⟩ := hitems.insert_ok (e := ⟨cid, ttl⟩) hhash hl hcmp
      refine ⟨kickList', _, hins, ⟨hlen'.trans hlen, _, hitems'⟩, fun _ => ?_⟩
      rw [hitems'.query (by rw [hlen']; exact hhash), lookup_cons, if_pos rfl]
      rfl

/-- The timer takes out items that it has found. -/
theorem kickLoop : ∀ {kickList : HashTab LsndKickItem} (cids : List (BitVec 64)), KickListIs kickList →
    (∀ cid ∈ cids, HashOk lsndConnHashTabLen cid.toInt) →
      ∃ kickList', Lsnd.kickLoop cids kickList = some kickList' ∧ KickListIs kickList'
  | kickList, [], h, _ => ⟨kickList, rfl, h⟩
  | kickList, cid :: cids, h, hcids => by
    unfold Lsnd.kickLoop
    split
    · exact ⟨kickList, rfl, h⟩
    · obtain ⟨hlen, items, hitems⟩ := h
      obtain ⟨kickList', hdel, hitems', hlen'⟩ :=
        hitems.delete (k := cid) (by rw [hlen]; exact hcids cid List.mem_cons_self)
      rw [hdel]
      exact kickLoop cids ⟨hlen'.trans hlen, _, hitems'⟩ fun c hc => hcids c (List.mem_cons_of_mem _ hc)

end KickListIs

namespace Lsnd

variable {L L' : Lsnd} {es es' : List Ptr} {p q : Ptr} {sid seq cid : BitVec 64} {now : Int} {mem : LsndMem}

theorem lsndTimerKickHandler_spec (h : KickListIs L.kickList) (now : Int) (pushed : BitVec 64 → Bool) :
    ∃ kickList, L.lsndTimerKickHandler now pushed = some { L with kickList := kickList } ∧ KickListIs kickList := by
  obtain ⟨hlen, items, hitems⟩ := h
  obtain ⟨F, htrav, hperm, -⟩ := Slotted.trav hitems
  unfold lsndTimerKickHandler
  rw [htrav]
  have hcids : ∀ cid ∈ timeoutList ((List.range L.kickList.len).flatMap F) now pushed,
      HashOk lsndConnHashTabLen cid.toInt := by
    intro cid hcid
    unfold timeoutList at hcid
    obtain ⟨item, hitem, rfl⟩ := List.mem_map.1 hcid
    have hitem := hperm.mem_iff.1 (List.mem_filter.1 hitem).1
    rw [← hlen]
    exact hitems.ok item hitem
  obtain ⟨kickList, hloop, hkicks⟩ := KickListIs.kickLoop _ ⟨hlen, items, hitems⟩ hcids
  refine ⟨kickList, ?_, hkicks⟩
  simp only [hloop, Option.map_some]

/-- `L'` is `L` after `lsnd_kick_add` of `p`: the connection is marked and, with memory,
has an item on the list. -/
structure Marks (L L' : Lsnd) (p : Ptr) (mem : LsndMem) : Prop where
  conns : L'.toLsndCntx = L.toLsndCntx.lsndKickAdd p mem.kick
  chat : L'.chat = L.chat
  kicks : KickListIs L'.kickList
  listed : mem.Kicks → Listed L'.kickList (L.extra p).cid

theorem lsndKickAdd_marks (h : KickListIs L.kickList) (hcid : Fits idKey LsndKickItem.cid L.kickList (L.extra p).cid)
    (now : Int) (mem : LsndMem) : ∃ L', L.lsndKickAdd p now mem = some L' ∧ Marks L L' p mem := by
  obtain ⟨kickList, ret, hins, hkicks, hlisted⟩ := h.insert hcid (now + lsndKickTtl) mem.kickNode
  unfold lsndKickAdd
  by_cases hkick : mem.kick
  · rw [if_pos hkick, hins]
    exact ⟨_, rfl, by rw [hkick], rfl, hkicks, fun hmem => hlisted hmem.2⟩
  · rw [if_neg hkick]
    refine ⟨L, rfl, ?_, rfl, h, fun hmem => absurd hmem.1 hkick⟩
    rw [Bool.not_eq_true] at hkick
    rw [hkick]
    rfl

/-! ## The invariant -/

variable {acked : List (BitVec 64 × Ptr)} {kicked kicked' : Ptr → Prop}

/-- The connection of each session, if the acknowledgements decide. -/
def cidOf (L : Lsnd) (acked : List (BitVec 64 × Ptr)) (sid : BitVec 64) : Option (BitVec 64) :=
  ((lastAcked acked sid).filter fun p => p ∈ L.opened).map fun p => (L.extra p).cid

theorem cidOf_eq_some : L.cidOf acked sid = some cid ↔ ∃ p ∈ L.opened, lastAcked acked sid = some p ∧
    (L.extra p).cid = cid := by
  unfold cidOf
  simp only [Option.map_eq_some_iff, Option.filter_eq_some_iff, decide_eq_true_eq]
  constructor
  · rintro ⟨p, ⟨hlast, hp⟩, hcid⟩
    exact ⟨p, hp, hlast, hcid⟩
  · rintro ⟨p, hp, hlast, hcid⟩
    exact ⟨p, ⟨hlast, hp⟩, hcid⟩

theorem lastAcked_mem (h : lastAcked acked sid = some p) : (sid, p) ∈ acked := by
  obtain ⟨⟨s, q⟩, hfind, rfl⟩ := Option.map_eq_some_iff.1 h
  have hs : s = sid := by simpa using List.find?_some hfind
  exact hs ▸ List.mem_of_find?_eq_some hfind

theorem lastAcked_cons {s : BitVec 64} :
    lastAcked ((sid, p) :: acked) s = if sid = s then some p else lastAcked acked s := by
  unfold lastAcked
  by_cases h : sid = s <;> simp [h]

/-- The open connection `p` was acknowledged for `sid`: it is in the list unless it is marked, and
it has been on the kick list unless it is the last one. -/
structure Keeps (L : Lsnd) (es : List Ptr) (acked : List (BitVec 64 × Ptr)) (kicked : Ptr → Prop) (sid : BitVec 64)
    (p : Ptr) : Prop where
  same : (L.extra p).sid = sid
  stat : (L.extra p).stat ≠ .establish
  entry : p ∈ es ∨ (L.extra p).stat = .kick
  kicked : kicked p ∨ lastAcked acked sid = some p ∧ p ∈ es

/-- The tables agree with the acknowledgements; `es` are the entries of `conn_list`. -/
structure Good (L : Lsnd) (es : List Ptr) (acked : List (BitVec 64 × Ptr)) (kicked : Ptr → Prop) : Prop where
  conns : LsndCntx.Inv L.toLsndCntx es
  chat : ChatIs L.chat (L.cidOf acked)
  kicks : KickListIs L.kickList
  sids : ∀ p ∈ L.opened, HashOk lsndChatTabLen (L.extra p).sid.toInt
  cids : ∀ p ∈ L.opened, (L.extra p).cid ≠ 0
  old : ∀ sid p, (sid, p) ∈ acked → p < L.next
  keeps : ∀ sid, ∀ p ∈ L.opened, (sid, p) ∈ acked → Keeps L es acked kicked sid p

theorem Good.oneActive {T : History} (h : Good L es T.acked (· ∈ T.kicked)) : OneActive L T where
  index := by
    intro sid cid
    exact h.chat.maps_iff.trans cidOf_eq_some
  others := by
    intro sid p hp hacked hother
    rcases (h.keeps sid p hp hacked).kicked with hkicked | ⟨hlast, -⟩
    · exact hkicked
    · exact absurd (h.chat.maps_iff.2 (cidOf_eq_some.2 ⟨p, hp, hlast, rfl⟩)) hother

theorem Good.entries (h : Good L es acked kicked) : Good L L.entries acked kicked := by
  have hp := h.conns.entries_perm
  refine ⟨h.conns.entries, h.chat, h.kicks, h.sids, h.cids, h.old, fun sid p hopen hacked => ?_⟩
  obtain ⟨hsid, hstat, hentry, hkicked⟩ := h.keeps sid p hopen hacked
  exact ⟨hsid, hstat, by rwa [hp.mem_iff], by rwa [hp.mem_iff]⟩

theorem Good.mono (h : Good L es acked kicked) (hk : ∀ p ∈ L.opened, kicked p → kicked' p) :
    Good L es acked kicked' := by
  refine ⟨h.conns, h.chat, h.kicks, h.sids, h.cids, h.old, fun sid p hp hacked => ?_⟩
  obtain ⟨hsid, hstat, hentry, hkicked⟩ := h.keeps sid p hp hacked
  exact ⟨hsid, hstat, hentry, hkicked.imp_left (hk p hp)⟩

/-- The index is about the same connections. -/
theorem cidOf_congr (hopened : ∀ sid p, (sid, p) ∈ acked → (p ∈ L'.opened ↔ p ∈ L.opened))
    (hcid : ∀ sid p, (sid, p) ∈ acked → (L'.extra p).cid = (L.extra p).cid) : L'.cidOf acked = L.cidOf acked := by
  funext sid
  unfold cidOf
  cases hlast : lastAcked acked sid with
  | none => rfl
  | some p =>
    have hmem := lastAcked_mem hlast
    simp only [Option.filter_some, hopened sid p hmem]
    split
    · rw [Option.map_some, Option.map_some, hcid sid p hmem]
    · rfl

/-- A step that opens and closes no connection, and acknowledges none. -/
theorem Good.move (h : Good L es acked kicked) (hconns : LsndCntx.Inv L'.toLsndCntx es') (hchat : L'.chat = L.chat)
    (hkicks : KickListIs L'.kickList) (hopened : L'.opened = L.opened) (hnext : L'.next = L.next)
    (hcid : ∀ q, (L'.extra q).cid = (L.extra q).cid)
    (hsids : ∀ q ∈ L.opened, HashOk lsndChatTabLen (L'.extra q).sid.toInt)
    (hkeeps : ∀ sid, ∀ q ∈ L.opened, Keeps L es acked kicked sid q → Keeps L' es' acked kicked' sid q) :
    Good L' es' acked kicked' where
  conns := hconns
  chat := by
    rw [hchat, cidOf_congr (fun _ _ _ => by rw [hopened]) fun _ p _ => hcid p]
    exact h.chat
  kicks := hkicks
  sids := by
    rw [hopened]
    exact hsids
  cids := by
    intro q hq
    rw [hcid]
    exact h.cids q (hopened ▸ hq)
  old := by
    rw [hnext]
    exact h.old
  keeps := by
    intro sid q hq hacked
    have hq := hopened ▸ hq
    exact hkeeps sid q hq (h.keeps sid q hq hacked)

/-! ## The events -/

theorem Good.connect (h : Good L es acked kicked) (hcid : cid ≠ 0) :
    Good { L with toLsndCntx := L.lsndCallbackCreatHandler cid } es acked kicked := by
  have hconns := h.conns.connect cid
  unfold LsndCntx.lsndCallbackCreatHandler at hconns ⊢
  split
  · exact h
  rename_i hnew
  rw [if_neg hnew] at hconns
  have hne : ∀ q, q < L.next → q ≠ L.next := fun q hq => Nat.ne_of_lt hq
  have hextra : ∀ q, q < L.next → Function.update L.extra L.next ⟨0, 0, cid, .establish⟩ q = L.extra q := fun q hq =>
    Function.update_of_ne (hne q hq) ..
  have hself : Function.update L.extra L.next ⟨0, 0, cid, .establish⟩ L.next = ⟨0, 0, cid, .establish⟩ :=
    Function.update_self ..
  refine ⟨hconns, ?_, h.kicks, ?_, ?_, fun sid p hp => Nat.lt_succ_of_lt (h.old sid p hp), ?_⟩
  · rw [cidOf_congr (L := L)]
    · exact h.chat
    · intro sid p hp
      exact List.mem_cons.trans (or_iff_right (hne p (h.old sid p hp)))
    · intro sid p hp
      exact congrArg LsndConnExtra.cid (hextra p (h.old sid p hp))
  · rintro q (_ | ⟨_, hq⟩)
    · simp only [hself]
      exact .inl (by decide)
    · simp only [hextra q (h.conns.lt q hq)]
      exact h.sids q hq
  · rintro q (_ | ⟨_, hq⟩)
    · simp only [hself]
      exact hcid
    · simp only [hextra q (h.conns.lt q hq)]
      exact h.cids q hq
  · -- the new connection has not been acknowledged
    rintro sid q (_ | ⟨_, hq⟩) hacked
    · exact absurd (h.old sid _ hacked) (Nat.lt_irrefl _)
    · obtain ⟨hsid, hstat, hentry, hkicked⟩ := h.keeps sid q hq hacked
      have hq := hextra q (h.conns.lt q hq)
      exact ⟨by simp only [hq]; exact hsid, by simp only [hq]; exact hstat, by simp only [hq]; exact hentry, hkicked⟩

theorem Marks.frame (hm : Marks L L' p mem) (q : Ptr) : (L'.extra q).cid = (L.extra q).cid ∧
    (L'.extra q).sid = (L.extra q).sid ∧ ((L'.extra q).stat = (L.extra q).stat ∨ (L'.extra q).stat = .kick) := by
  rw [hm.conns]
  exact LsndCntx.lsndKickAdd_frame q

theorem Marks.opened (hm : Marks L L' p mem) : L'.opened = L.opened ∧ L'.next = L.next := by
  rw [hm.conns]
  exact LsndCntx.lsndKickAdd_opened

theorem Marks.other (hm : Marks L L' p mem) (hq : q ≠ p) : L'.extra q = L.extra q := by
  rw [hm.conns]
  exact LsndCntx.lsndKickAdd_other hq

theorem Marks.stat (hm : Marks L L' p mem) (hkick : mem.Kicks) : (L'.extra p).stat = .kick := by
  rw [hm.conns, LsndCntx.lsndKickAdd, if_pos hkick.1, LsndCntx.setExtra_self]

theorem Marks.inv (hm : Marks L L' p mem) (h : LsndCntx.Inv L.toLsndCntx es) : LsndCntx.Inv L'.toLsndCntx es := by
  rw [hm.conns]
  exact h.lsndKickAdd mem.kick

/-- What is kept of an acknowledged connection when a status changes to that of a kicked one. -/
theorem Keeps.frame (h : Keeps L es acked kicked sid q) (L' : Lsnd) (hsid : (L'.extra q).sid = (L.extra q).sid)
    (hstat : (L'.extra q).stat = (L.extra q).stat ∨ (L'.extra q).stat = .kick) (hes : q ∈ es → q ∈ es') :
    Keeps L' es' acked kicked sid q := by
  refine ⟨hsid.trans h.same, ?_, ?_, h.kicked.imp_right fun hl => ⟨hl.1, hes hl.2⟩⟩
  · rcases hstat with hsame | hkick
    · rw [hsame]
      exact h.stat
    · rw [hkick]
      exact ConnStat.noConfusion
  · rcases hstat with hsame | hkick
    · rw [hsame]
      exact h.entry.imp_left hes
    · exact .inr hkick

/-- `lsnd_kick_add` -/
theorem Good.marks (h : Good L es acked kicked) (hm : Marks L L' p mem) : Good L' es acked kicked := by
  refine h.move (hm.inv h.conns) hm.chat hm.kicks hm.opened.1 hm.opened.2 (fun q => (hm.frame q).1) (fun q hq => ?_) ?_
  · rw [(hm.frame q).2.1]
    exact h.sids q hq
  · intro sid q hq hk
    exact hk.frame L' (hm.frame q).2.1 (hm.frame q).2.2 id

/-- An entry that the index loses is that of the connection. -/
theorem Good.cidOf_closed (h : Good L es acked kicked) (L' : Lsnd) (hp : p ∈ L.opened)
    (hmem : ∀ q, q ∈ L'.opened ↔ q ≠ p ∧ q ∈ L.opened)
    (hsame : ∀ q ∈ L'.opened, L'.extra q = L.extra q) : L'.cidOf acked =
      if L.cidOf acked (L.extra p).sid = some (L.extra p).cid then Function.update (L.cidOf acked) (L.extra p).sid none
      else L.cidOf acked := by
  have hcut : ∀ s cid, L'.cidOf acked s = some cid ↔ L.cidOf acked s = some cid ∧
      ¬(s = (L.extra p).sid ∧ cid = (L.extra p).cid) := by
    intro s cid
    rw [cidOf_eq_some, cidOf_eq_some]
    constructor
    · rintro ⟨q, hq, hlast, hcid⟩
      obtain ⟨hne, hopen⟩ := (hmem q).1 hq
      rw [hsame q hq] at hcid
      refine ⟨⟨q, hopen, hlast, hcid⟩, ?_⟩
      rintro ⟨-, rfl⟩
      exact hne (List.inj_on_of_nodup_map h.conns.cids hopen hp hcid)
    · rintro ⟨⟨q, hopen, hlast, hcid⟩, hother⟩
      have hne : q ≠ p := by
        rintro rfl
        exact hother ⟨(h.keeps s q hopen (lastAcked_mem hlast)).same.symm, hcid.symm⟩
      have hq := (hmem q).2 ⟨hne, hopen⟩
      exact ⟨q, hq, hlast, by rw [hsame q hq]; exact hcid⟩
  funext s
  apply Option.ext
  intro cid
  apply (hcut s cid).trans
  split
  · rename_i hself
    rw [Function.update_apply]
    split
    · rename_i hs
      subst hs
      rw [hself]
      simp [eq_comm]
    · rename_i hs
      simp [hs]
  · rename_i hself
    apply and_iff_left_of_imp
    rintro hcid ⟨rfl, rfl⟩
    exact hself hcid

/-- The connection ends; the index forgets it. -/
theorem Good.destroy (h : Good L es acked kicked) (hp : p ∈ L.opened) : ∃ L', L.lsndCallbackDestroyHandler p = some L' ∧
    (∃ es', Good L' es' acked kicked) ∧ ∀ q ∈ L'.opened, (L'.extra q).stat = (L.extra q).stat := by
  obtain ⟨cntx, hcntx, hconns⟩ := h.conns.destroy hp
  obtain ⟨hopened, hnext, hextra⟩ := LsndCntx.destroy_frame hcntx
  obtain ⟨chat, hdel, hchat⟩ := h.chat.chatDelSidToCid (h.sids p hp) (L.extra p).cid
  have hmem : ∀ q, q ∈ cntx.opened ↔ q ≠ p ∧ q ∈ L.opened := fun q => by
    rw [hopened]
    exact h.conns.cids.of_map.mem_erase_iff
  have hsame : ∀ q ∈ cntx.opened, cntx.extra q = L.extra q := fun q hq => hextra q ((hmem q).1 hq).1
  refine ⟨{ L with toLsndCntx := cntx, chat := chat }, ?_, ⟨_, hconns, ?_, h.kicks, ?_, ?_, ?_, ?_⟩, ?_⟩
  · rw [lsndCallbackDestroyHandler, hcntx]
    simp only [hdel, Option.map_some]
  · rw [h.cidOf_closed { L with toLsndCntx := cntx, chat := chat } hp hmem hsame]
    exact hchat
  · intro q hq
    have hq' : q ∈ cntx.opened := hq
    show HashOk lsndChatTabLen (cntx.extra q).sid.toInt
    rw [hsame q hq']
    exact h.sids q ((hmem q).1 hq').2
  · intro q hq
    have hq' : q ∈ cntx.opened := hq
    show (cntx.extra q).cid ≠ 0
    rw [hsame q hq']
    exact h.cids q ((hmem q).1 hq').2
  · intro sid q hacked
    show q < cntx.next
    rw [hnext]
    exact h.old sid q hacked
  · intro sid q hq hacked
    have hq' : q ∈ cntx.opened := hq
    obtain ⟨hne, hopen⟩ := (hmem q).1 hq'
    obtain ⟨hsid, hstat, hentry, hkicked⟩ := h.keeps sid q hopen hacked
    have hstays : q ∈ es → q ∈ without L.connKey es (L.connKey p) := fun he =>
      mem_without.2 ⟨he, fun hkey => hne ((h.conns.key_inj hopen hp).1 hkey)⟩
    have hextra := hsame q hq'
    exact ⟨(congrArg LsndConnExtra.sid hextra).trans hsid, fun h0 => hstat
      ((congrArg LsndConnExtra.stat hextra).symm.trans h0), hentry.imp hstays
      (congrArg LsndConnExtra.stat hextra).trans, hkicked.imp_right fun hl => ⟨hl.1, hstays hl.2⟩⟩
  · intro q hq
    exact congrArg LsndConnExtra.stat (hsame q hq)

theorem destroy_opened (h : L.lsndCallbackDestroyHandler p = some L') (hq : q ∈ L'.opened) : q ∈ L.opened := by
  unfold lsndCallbackDestroyHandler at h
  split at h
  · cases h
  · rename_i cntx hcntx
    obtain ⟨chat, -, rfl⟩ := Option.map_eq_some_iff.1 h
    have hq : q ∈ cntx.opened := hq
    rw [(LsndCntx.destroy_frame hcntx).1] at hq
    exact List.mem_of_mem_erase hq

/-! ## Runs -/

/-- The `cid` of the connection goes on the kick list. -/
def KickFits (L : Lsnd) (p : Ptr) : Prop := Fits idKey LsndKickItem.cid L.kickList (L.extra p).cid

/-- The events a run may have: `cid`s count from 1; the ids are such as the tables take; there is
memory for what an acknowledgement enters and for the kicks of connections that were acknowledged;
and an ONLINE request that is not dropped brings the `sid` its connection has already, if the
connection is in the list. -/
def Admits (L : Lsnd) : LsndEvent → Prop
  | .connect cid => cid ≠ 0
  | .online p sid seq _ _ => p ∈ L.opened → (L.extra p).stat ≠ .kick → (L.extra p).seq < seq →
      LsndCntx.OnlineOk L.toLsndCntx L.entries p sid ∧ HashOk lsndChatTabLen sid.toInt
  | .onlineAck sid _ cid _ mem => HashOk lsndConnHashTabLen sid.toInt ∧ ∀ p ∈ L.entries, L.connKey p = (sid, cid) →
      ((L.extra p).stat ≠ .establish ∨ sid = 0 → L.KickFits p) ∧
      ((L.extra p).stat = .establish → sid ≠ 0 → mem.item ∧ mem.node ∧ Fits idKey Prod.fst L.chat.tab.sid2cids sid ∧
        ∀ q ∈ L.entries, (L.extra q).sid = sid → L.Maps sid (L.extra q).cid → mem.Kicks ∧ L.KickFits q)
  | .kick sid cid _ mem => HashOk lsndConnHashTabLen sid.toInt ∧ (cid = 0 → HashOk lsndChatTabLen sid.toInt) ∧
      ∀ p ∈ L.entries, (L.extra p).sid = sid → L.kickCid sid cid = some (L.extra p).cid →
        L.KickFits p ∧ ((L.extra p).stat ≠ .establish → mem.Kicks)
  | .timer _ _ => True
  | .disconnect _ => True

theorem Good.recv (h : Good L L.entries acked kicked) (hp : p ∈ L.opened) {node sent : Bool}
    (hok : L.Admits (.online p sid seq node sent)) :
    ∃ L' b, L.lsndCallbackRecvHandler p sid seq node sent = some (L', b) ∧
      p ∈ L'.opened ∧ (∃ es', Good L' es' acked kicked) ∧ ∀ q ∈ L'.opened, (L'.extra q).stat = (L.extra q).stat := by
  obtain ⟨cntx, b, hrecv, hp', es', hconns, hsub⟩ := h.conns.recv hp fun hp hstat hseq => (hok hp hstat hseq).1
  obtain ⟨hopened, hnext, hextra, hstat, hcid, hsid⟩ := LsndCntx.recv_frame hrecv
  have hstats : ∀ q, (cntx.extra q).stat = (L.extra q).stat := by
    intro q
    by_cases hq : q = p
    · rw [hq, hstat]
    · rw [hextra q hq]
  refine ⟨{ L with toLsndCntx := cntx }, b, ?_, hp', ⟨es', h.move hconns rfl h.kicks hopened hnext ?_ ?_ ?_⟩,
    fun q _ => hstats q⟩
  · rw [lsndCallbackRecvHandler, hrecv, Option.map_some]
  · intro q
    by_cases hq : q = p
    · subst hq
      exact hcid
    · exact congrArg LsndConnExtra.cid (hextra q hq)
  · intro q hopen
    show HashOk lsndChatTabLen (cntx.extra q).sid.toInt
    by_cases hq : q = p
    · subst hq
      rcases hsid with hsame | ⟨hstat, hseq, hnew⟩
      · rw [hsame]
        exact h.sids q hopen
      · rw [hnew]
        exact (hok hopen hstat hseq).2
    · rw [hextra q hq]
      exact h.sids q hopen
  · rintro s q hopen ⟨hsame, hest, hentry, hkicked⟩
    refine ⟨?_, ?_, ?_, hkicked.imp_right fun hl => ⟨hl.1, hsub hl.2⟩⟩
    · show (cntx.extra q).sid = s
      by_cases hq : q = p
      · subst hq
        rcases hsid with hold | ⟨hstat, hseq, hnew⟩
        · exact hold.trans hsame
        · -- it is in the list, so the request brings its own sid
          have hin := hentry.resolve_right hstat
          exact (hnew.trans ((hok hopen hstat hseq).1.same hin)).trans hsame
      · exact (congrArg LsndConnExtra.sid (hextra q hq)).trans hsame
    · rw [hstats]
      exact hest
    · rw [hstats]
      exact hentry.imp_left fun he => hsub he

theorem kickCid_spec (h : Good L es acked kicked) (hsid : cid = 0 → HashOk lsndChatTabLen sid.toInt) :
    ∃ c, L.kickCid sid cid = some c := by
  unfold kickCid
  split
  · rename_i h0
    exact ⟨_, h.chat.chatGetCidBySid (hsid h0)⟩
  · exact ⟨cid, rfl⟩

/-- A kick from upstream. The connection leaves the list, and goes on the kick list. -/
theorem Good.kick (h : Good L L.entries acked kicked) (hok : L.Admits (.kick sid cid now mem)) :
    ∃ L', L.lsndUpmesgKickHandler sid cid now mem = some L' ∧
      (∃ es', Good L' es' acked fun q => kicked q ∨ Listed L'.kickList (L'.extra q).cid) ∧
      ∀ q ∈ L'.opened, (L'.extra q).stat = .online → (L.extra q).stat = .online := by
  obtain ⟨hhash, hindex, hfound⟩ := hok
  obtain ⟨c, hc⟩ := kickCid_spec h hindex
  obtain ⟨connList, hdel, hconns⟩ := h.conns.delete (k := (sid, c)) hhash
  have hstays : ∀ q ∈ L.entries, L.connKey q ≠ (sid, c) → q ∈ without L.connKey L.entries (sid, c) := fun q hq hne =>
    mem_without.2 ⟨hq, hne⟩
  unfold lsndUpmesgKickHandler
  rw [hc]
  simp only [hdel]
  cases hl : lookup L.connKey L.entries (sid, c) with
  | none =>
    have hgood : Good { L with connList := connList } (without L.connKey L.entries (sid, c)) acked kicked := by
      refine h.move hconns rfl h.kicks rfl rfl (fun _ => rfl) h.sids fun s q hq hk => ?_
      exact hk.frame _ rfl (.inl rfl) fun he => hstays q he (lookup_eq_none.1 hl q he)
    exact ⟨{ L with connList := connList }, rfl, ⟨_, hgood.mono fun _ _ hk => .inl hk⟩, fun _ _ => id⟩
  | some p =>
    obtain ⟨hp, hkey⟩ := lookup_mem hl
    have hcid : (L.extra p).cid = c := congrArg Prod.snd hkey
    obtain ⟨hfits, hkicks⟩ := hfound p hp (congrArg Prod.fst hkey) (hcid ▸ hc)
    obtain ⟨L', hadd, hm⟩ := lsndKickAdd_marks (L := { L with connList := connList }) h.kicks hfits now mem
    refine ⟨L', hadd, ⟨_, h.move (hm.inv hconns) hm.chat hm.kicks hm.opened.1 hm.opened.2
      (fun q => (hm.frame q).1) ?_ ?_⟩, ?_⟩
    · intro q hq
      rw [(hm.frame q).2.1]
      exact h.sids q hq
    · intro s q hq hk
      by_cases hqp : q = p
      · subst hqp
        have hkick := hkicks hk.stat
        refine ⟨(hm.frame q).2.1.trans hk.same, ?_, .inr (hm.stat hkick), .inl (.inr ?_)⟩
        · rw [hm.stat hkick]
          exact ConnStat.noConfusion
        · rw [(hm.frame q).1]
          exact hm.listed hkick
      · have hkeep := hk.frame L' (hm.frame q).2.1 (hm.frame q).2.2 fun he =>
          hstays q he fun hkeyq => hqp ((h.conns.key_inj hq (h.conns.live p hp)).1 (hkeyq.trans hkey.symm))
        exact ⟨hkeep.same, hkeep.stat, hkeep.entry, hkeep.kicked.imp_left .inl⟩
    · intro q _ honline
      rcases (hm.frame q).2.2 with hsame | hkick
      · rwa [hsame] at honline
      · rw [hkick] at honline
        cases honline

/-! ### An acknowledgement -/

/-- What an acknowledgement writes to its connection. -/
def onlineExtra (sid seq : BitVec 64) (e : LsndConnExtra) : LsndConnExtra :=
  { e with sid := sid, seq := seq, stat := .online }

def online (L : Lsnd) (p : Ptr) (sid seq : BitVec 64) : Lsnd :=
  { L with toLsndCntx := L.setExtra p (onlineExtra sid seq) }

/-- `L'` is `L` after the old connection of the session of `p` was kicked, if it was in the list. -/
structure OldKicked (L L' : Lsnd) (es : List Ptr) (p : Ptr) : Prop where
  conns : LsndCntx.Inv L'.toLsndCntx es
  chat : L'.chat = L.chat
  kicks : KickListIs L'.kickList
  opened : L'.opened = L.opened
  next : L'.next = L.next
  frame : ∀ q, (L'.extra q).cid = (L.extra q).cid ∧ (L'.extra q).sid = (L.extra q).sid ∧
    ((L'.extra q).stat = (L.extra q).stat ∨ (L'.extra q).stat = .kick)
  spared : L'.extra p = L.extra p

theorem connKey_online (hkey : L.connKey p = (sid, cid)) : (L.online p sid seq).connKey = L.connKey :=
  LsndCntx.connKey_setExtra (g := onlineExtra sid seq) ⟨(congrArg Prod.fst hkey).symm, rfl⟩

/-- The old connection is on the kick list, unless it has been there before. -/
theorem Good.kickOld (h : Good L es acked kicked) (seq : BitVec 64) (now : Int) (hp : p ∈ es)
    (hkey : L.connKey p = (sid, cid))
    (hest : (L.extra p).stat = .establish) (hhash : HashOk lsndChatTabLen sid.toInt)
    (hsid : HashOk lsndConnHashTabLen sid.toInt)
    (hmem : ∀ q ∈ es, (L.extra q).sid = sid → L.Maps sid (L.extra q).cid → mem.Kicks ∧ L.KickFits q) :
    ∃ L', (L.online p sid seq).kickOld sid cid now mem = some L' ∧ OldKicked (L.online p sid seq) L' es p ∧
      ∀ q ∈ L.opened, lastAcked acked sid = some q → kicked q ∨ Listed L'.kickList (L.extra q).cid := by
  have hopen := h.conns.live p hp
  have hconns : LsndCntx.Inv (L.online p sid seq).toLsndCntx es :=
    h.conns.setExtra (g := onlineExtra sid seq) ⟨(congrArg Prod.fst hkey).symm, rfl⟩
  have hself : OldKicked (L.online p sid seq) (L.online p sid seq) es p :=
    ⟨hconns, rfl, h.kicks, rfl, rfl, fun _ => ⟨rfl, rfl, .inl rfl⟩, rfl⟩
  have hget : (L.online p sid seq).chat.chatGetCidBySid sid = some ((L.cidOf acked sid).getD 0) :=
    h.chat.chatGetCidBySid hhash
  unfold Lsnd.kickOld
  rw [hget]
  cases hold : L.cidOf acked sid with
  | none =>
    refine ⟨_, by simp, hself, fun q hq hlast => ?_⟩
    have hcid : L.cidOf acked sid = some (L.extra q).cid := cidOf_eq_some.2 ⟨q, hq, hlast, rfl⟩
    rw [hold] at hcid
    cases hcid
  | some old =>
    obtain ⟨q, hq, hlast, hcidq⟩ := cidOf_eq_some.1 hold
    have hkeep := h.keeps sid q hq (lastAcked_mem hlast)
    have hne : q ≠ p := by
      rintro rfl
      exact hkeep.stat hest
    have hcidp : (L.extra p).cid = cid := congrArg Prod.snd hkey
    have hnecid : old ≠ cid := fun h0 => hne (List.inj_on_of_nodup_map h.conns.cids hq hopen (by rw [hcidq, hcidp, h0]))
    have hne0 : old ≠ 0 := hcidq ▸ h.cids q hq
    have hquery : sessionKey.query (L.online p sid seq).connKey (L.online p sid seq).connList (sid, old) =
        some (lookup (L.online p sid seq).connKey es (sid, old)) := hconns.holds.query (by rw [hconns.len]; exact hsid)
    rw [connKey_online hkey] at hquery
    simp only [Option.getD_some]
    rw [if_pos ⟨hne0, hnecid⟩, connKey_online hkey, hquery]
    cases hl : lookup L.connKey es (sid, old) with
    | none =>
      -- it has left the list, for the kick list
      refine ⟨_, rfl, hself, fun r _ hlastr => .inl ?_⟩
      obtain rfl : q = r := Option.some.inj (hlast.symm.trans hlastr)
      refine hkeep.kicked.resolve_right fun hin => lookup_eq_none.1 hl q hin.2 ?_
      rw [LsndCntx.connKey, hkeep.same, hcidq]
    | some r =>
      obtain ⟨hr, hkeyr⟩ := lookup_mem hl
      have hcidr : (L.extra r).cid = (L.extra q).cid := (congrArg Prod.snd hkeyr).trans hcidq.symm
      obtain rfl : r = q := List.inj_on_of_nodup_map h.conns.cids (h.conns.live r hr) hq hcidr
      obtain ⟨hkicks, hfits⟩ := hmem r hr hkeep.same (h.chat.maps_iff.2 (hcidq ▸ hold))
      have hextra : (L.online p sid seq).extra r = L.extra r := LsndCntx.setExtra_of_ne _ hne
      obtain ⟨L', hadd, hm⟩ := lsndKickAdd_marks (L := L.online p sid seq) (p := r) h.kicks
        (by rw [hextra]; exact hfits) now mem
      have hafter : OldKicked (L.online p sid seq) L' es p :=
        ⟨hm.inv hconns, hm.chat, hm.kicks, hm.opened.1, hm.opened.2, hm.frame, hm.other hne.symm⟩
      refine ⟨L', hadd, hafter, fun s _ hlasts => .inr ?_⟩
      obtain rfl : r = s := Option.some.inj (hlast.symm.trans hlasts)
      have hlisted := hm.listed hkicks
      rwa [hextra] at hlisted

/-- The acknowledged connection is the last one of its session, and the index has it. -/
theorem Good.goOnline {L₂ : Lsnd} {chat : ChatState} (h : Good L es acked kicked) (hp : p ∈ es)
    (hkey : L.connKey p = (sid, cid))
    (hest : (L.extra p).stat = .establish) (hold : OldKicked (L.online p sid seq) L₂ es p)
    (hkicked : ∀ q ∈ L.opened, lastAcked acked sid = some q → kicked q ∨ Listed L₂.kickList (L.extra q).cid)
    (hchat : ChatIs chat (Function.update (L.cidOf acked) sid (some cid))) :
    Good { L₂ with chat := chat } es ((sid, p) :: acked) fun q => kicked q ∨ Listed L₂.kickList (L₂.extra q).cid := by
  have hopen := h.conns.live p hp
  have hsid : (L.extra p).sid = sid := congrArg Prod.fst hkey
  have hself : (L.online p sid seq).extra p = onlineExtra sid seq (L.extra p) := LsndCntx.setExtra_self _
  have hother : ∀ q, q ≠ p → (L.online p sid seq).extra q = L.extra q := fun q hq => LsndCntx.setExtra_of_ne _ hq
  have hkeys : ∀ q, (L₂.extra q).cid = (L.extra q).cid ∧ (L₂.extra q).sid = (L.extra q).sid := by
    intro q
    obtain ⟨hcid, hsame, -⟩ := hold.frame q
    rw [hcid, hsame]
    by_cases hq : q = p
    · subst hq
      rw [hself]
      exact ⟨rfl, hsid.symm⟩
    · rw [hother q hq]
      exact ⟨rfl, rfl⟩
  have hopened : L₂.opened = L.opened := hold.opened
  refine ⟨hold.conns, ?_, hold.kicks, ?_, ?_, ?_, ?_⟩
  · have hindex : ({ L₂ with chat := chat } : Lsnd).cidOf ((sid, p) :: acked) = Function.update (L.cidOf acked) sid
        (some cid) := by
      have hsame : ({ L₂ with chat := chat } : Lsnd).cidOf acked = L.cidOf acked :=
        cidOf_congr (fun _ q _ => by rw [← hopened]) fun _ q _ => (hkeys q).1
      funext s
      rw [Function.update_apply, ← hsame]
      unfold cidOf
      rw [lastAcked_cons]
      by_cases hs : s = sid
      · subst hs
        have hin : p ∈ L₂.opened := hopened ▸ hopen
        have hcid : (L.extra p).cid = cid := congrArg Prod.snd hkey
        simp [hin, (hkeys p).1, hcid]
      · rw [if_neg (Ne.symm hs), if_neg hs]
    rw [hindex]
    exact hchat
  · intro q hq
    show HashOk lsndChatTabLen (L₂.extra q).sid.toInt
    rw [(hkeys q).2]
    exact h.sids q (hopened ▸ hq)
  · intro q hq
    show (L₂.extra q).cid ≠ 0
    rw [(hkeys q).1]
    exact h.cids q (hopened ▸ hq)
  · intro s q hq
    show q < L₂.next
    rw [show L₂.next = L.next from hold.next]
    rcases List.mem_cons.1 hq with heq | hq
    · cases heq
      exact h.conns.lt p hopen
    · exact h.old s q hq
  · intro s q hq hack
    have hq : q ∈ L.opened := hopened ▸ hq
    rcases List.mem_cons.1 hack with heq | hack
    · cases heq
      have hextra : L₂.extra p = onlineExtra sid seq (L.extra p) := hold.spared.trans hself
      refine ⟨(hkeys p).2.trans hsid, ?_, .inl hp, .inr ⟨by rw [lastAcked_cons, if_pos rfl], hp⟩⟩
      show (L₂.extra p).stat ≠ .establish
      rw [hextra]
      exact ConnStat.noConfusion
    · have hk := h.keeps s q hq hack
      have hne : q ≠ p := by
        rintro rfl
        exact hk.stat hest
      have hstat := (hold.frame q).2.2
      rw [hother q hne] at hstat
      have hkept := hk.frame { L₂ with chat := chat } (hkeys q).2 hstat id
      refine ⟨hkept.same, hkept.stat, hkept.entry, ?_⟩
      rcases hk.kicked with hdone | ⟨hlast, hin⟩
      · exact .inl (.inl hdone)
      by_cases hs : sid = s
      · -- it was the last one until now
        subst hs
        refine .inl ((hkicked q hq hlast).imp_right fun hlisted => ?_)
        rw [(hkeys q).1]
        exact hlisted
      · exact .inr ⟨by rw [lastAcked_cons, if_neg hs]; exact hlast, hin⟩

/-- An ONLINE-ACK is refused, or its connection goes online. -/
theorem Good.ack (h : Good L L.entries acked kicked) (hok : L.Admits (.onlineAck sid seq cid now mem)) :
    ∃ L' ret, L.lsndMesgOnlineAckLogic sid seq cid now mem = some (L', ret) ∧
      ((∃ es', Good L' es' acked kicked) ∧ (∀ q ∈ L'.opened, (L'.extra q).stat = .online → (L.extra q).stat = .online) ∨
        ∃ p ∈ L'.opened, (L'.extra p).sid = sid ∧ (L'.extra p).stat = .online ∧ (L.extra p).stat ≠ .online ∧
          (∀ q ∈ L'.opened, q ≠ p → (L'.extra q).stat = .online → (L.extra q).stat = .online) ∧
          ∃ es', Good L' es' ((sid, p) :: acked) fun q => kicked q ∨ Listed L'.kickList (L'.extra q).cid) := by
  obtain ⟨hhash, hfound⟩ := hok
  have hquery : sessionKey.query L.connKey L.connList (sid, cid) = some (lookup L.connKey L.entries (sid, cid)) :=
    h.conns.holds.query (by rw [h.conns.len]; exact hhash)
  unfold lsndMesgOnlineAckLogic
  rw [hquery]
  cases hl : lookup L.connKey L.entries (sid, cid) with
  | none => exact ⟨L, -1, rfl, .inl ⟨⟨_, h⟩, fun _ _ => id⟩⟩
  | some p =>
    obtain ⟨hp, hkey⟩ := lookup_mem hl
    obtain ⟨hrefused, htaken⟩ := hfound p hp hkey
    have hsid : (L.extra p).sid = sid := congrArg Prod.fst hkey
    by_cases hest : (L.extra p).stat ≠ .establish ∨ sid = 0
    · -- refused: the connection is kicked
      obtain ⟨L', hadd, hm⟩ := lsndKickAdd_marks h.kicks (hrefused hest) now mem
      refine ⟨L', -1, ?_, .inl ⟨⟨_, h.marks hm⟩, fun q _ honline => ?_⟩⟩
      · simp only [hadd, Option.map_some]
        rcases hest with hest | hest
        · rw [if_pos hest]
        · rw [if_pos hest, ite_self]
      · rcases (hm.frame q).2.2 with hsame | hkick
        · rwa [hsame] at honline
        · rw [hkick] at honline
          cases honline
    · rw [not_or, not_not] at hest
      obtain ⟨hitem, hnode, hfits, hold⟩ := htaken hest.1 hest.2
      have hindex : HashOk lsndChatTabLen sid.toInt := hsid ▸ h.sids p (h.conns.live p hp)
      obtain ⟨L₂, hkickOld, hafter, hkicked⟩ := h.kickOld seq now hp hkey hest.1 hindex hhash hold
      have hchat₂ : L₂.chat = L.chat := hafter.chat
      obtain ⟨chat, hset, hchat⟩ := h.chat.chatSetSidToCid hfits cid
      have hgood := h.goOnline hp hkey hest.1 hafter hkicked hchat
      have hself : L₂.extra p = onlineExtra sid seq (L.extra p) := hafter.spared.trans (LsndCntx.setExtra_self _)
      refine ⟨{ L₂ with chat := chat }, 0, ?_, .inr ⟨p, ?_, ?_, ?_, ?_, ?_, _, hgood⟩⟩
      · have hkickOld : ({ L with toLsndCntx := L.setExtra p fun e => { e with sid := sid, seq := seq, stat := .online } } : Lsnd).kickOld
            sid cid now mem = some L₂ := hkickOld
        simp only [hest.1, hest.2, ne_eq, not_true_eq_false, if_false, hkickOld]
        rw [hchat₂, hitem, hnode, hset, Option.map_some]
      · exact hafter.opened ▸ h.conns.live p hp
      · exact congrArg LsndConnExtra.sid hself
      · exact congrArg LsndConnExtra.stat hself
      · rw [hest.1]
        exact ConnStat.noConfusion
      · intro q _ hne honline
        have honline : (L₂.extra q).stat = .online := honline
        have hother : (L.online p sid seq).extra q = L.extra q := LsndCntx.setExtra_of_ne _ hne
        rcases (hafter.frame q).2.2 with hsame | hkick
        · rwa [hsame, hother] at honline
        · rw [hkick] at honline
          cases honline

/-! ### The history -/

theorem wentOnline_eq_nil (h : ∀ q ∈ L'.opened, (L'.extra q).stat = .online → (L.extra q).stat = .online) :
    wentOnline L L' = [] := by
  unfold wentOnline
  apply List.filter_eq_nil_iff.2
  intro q hq hin
  obtain ⟨honline, hnot⟩ := of_decide_eq_true hin
  exact hnot (h q hq honline)

theorem wentOnline_eq_singleton (hn : L'.opened.Nodup) (hp : p ∈ L'.opened) (honline : (L'.extra p).stat = .online)
    (hnot : (L.extra p).stat ≠ .online)
    (h : ∀ q ∈ L'.opened, q ≠ p → (L'.extra q).stat = .online → (L.extra q).stat = .online) :
    wentOnline L L' = [p] := by
  apply List.perm_singleton.1
  apply (List.perm_ext_iff_of_nodup (hn.filter _) (List.nodup_singleton p)).2
  intro q
  apply List.mem_filter.trans
  rw [List.mem_singleton, decide_eq_true_eq]
  constructor
  · rintro ⟨hq, hon, hoff⟩
    by_contra hne
    exact hoff (h q hq hne hon)
  · rintro rfl
    exact ⟨hp, honline, hnot⟩

variable {T : History}

/-- A step goes into the history. -/
theorem Good.remember (h : Good L' es acked fun q => q ∈ T.kicked ∨ Listed L'.kickList (L'.extra q).cid)
    (hacked : (record T L L').acked = acked) :
    Good L' L'.entries (record T L L').acked (· ∈ (record T L L').kicked) := by
  rw [hacked]
  apply (h.mono _).entries
  rintro p hp (hbefore | hlisted)
  · exact List.mem_append_right _ hbefore
  · exact List.mem_append_left _ (List.mem_filter.2 ⟨hp, hlisted⟩)

theorem Good.rememberSame (h : Good L' es T.acked fun q => q ∈ T.kicked ∨ Listed L'.kickList (L'.extra q).cid)
    (hstat : ∀ q ∈ L'.opened, (L'.extra q).stat = .online → (L.extra q).stat = .online) :
    Good L' L'.entries (record T L L').acked (· ∈ (record T L L').kicked) := by
  apply h.remember
  rw [record, wentOnline_eq_nil hstat]
  rfl

theorem Good.rememberOnly (h : Good L' es T.acked (· ∈ T.kicked))
    (hstat : ∀ q ∈ L'.opened, (L'.extra q).stat = .online → (L.extra q).stat = .online) :
    Good L' L'.entries (record T L L').acked (· ∈ (record T L L').kicked) :=
  (h.mono fun _ _ hk => .inl hk).rememberSame hstat

theorem Good.step (h : Good L L.entries T.acked (· ∈ T.kicked)) (e : LsndEvent) (he : L.Admits e) :
    ∃ L', L.step e = some L' ∧ Good L' L'.entries (record T L L').acked (· ∈ (record T L L').kicked) := by
  cases e with
  | connect cid =>
    refine ⟨_, rfl, (h.connect he).rememberOnly fun q hq honline => ?_⟩
    have honline : ((L.lsndCallbackCreatHandler cid).extra q).stat = .online := honline
    unfold LsndCntx.lsndCallbackCreatHandler at honline
    split at honline
    · exact honline
    · dsimp only at honline
      by_cases hnew : q = L.next
      · subst hnew
        rw [Function.update_self] at honline
        cases honline
      · rwa [Function.update_of_ne hnew] at honline
  | online p sid seq node sent =>
    unfold Lsnd.step
    dsimp only
    split
    · rename_i hp
      obtain ⟨L₁, b, hrecv, hp₁, ⟨es₁, h₁⟩, hstat₁⟩ := h.recv hp he
      rw [hrecv]
      cases b with
      | true =>
        refine ⟨L₁, rfl, h₁.rememberOnly fun q hq honline => ?_⟩
        rwa [← hstat₁ q hq]
      | false =>
        obtain ⟨L₂, hdestroy, ⟨es₂, h₂⟩, hstat₂⟩ := h₁.destroy hp₁
        refine ⟨L₂, hdestroy, h₂.rememberOnly fun q hq honline => ?_⟩
        have hq₁ : q ∈ L₁.opened := destroy_opened hdestroy hq
        rwa [hstat₂ q hq, hstat₁ q hq₁] at honline
    · exact ⟨L, rfl, h.rememberOnly fun _ _ => id⟩
  | onlineAck sid seq cid now mem =>
    obtain ⟨L', ret, hlogic, ⟨⟨es', h'⟩, hstat⟩ | ⟨p, hp, hsid, honline, hnot, hstat, es', h'⟩⟩ := h.ack he
    · refine ⟨L', ?_, h'.rememberOnly hstat⟩
      rw [Lsnd.step, hlogic, Option.map_some]
    · refine ⟨L', ?_, h'.remember ?_⟩
      · rw [Lsnd.step, hlogic, Option.map_some]
      · rw [record, wentOnline_eq_singleton h'.conns.cids.of_map hp honline hnot hstat, List.map_singleton, hsid]
        rfl
  | kick sid cid now mem =>
    obtain ⟨L', hkick, ⟨es', h'⟩, hstat⟩ := h.kick he
    exact ⟨L', hkick, h'.rememberSame hstat⟩
  | timer now pushed =>
    obtain ⟨kickList, htimer, hkicks⟩ := lsndTimerKickHandler_spec h.kicks now pushed
    have h' : Good { L with kickList := kickList } L.entries T.acked (· ∈ T.kicked) :=
      h.move h.conns rfl hkicks rfl rfl (fun _ => rfl) h.sids fun _ _ _ hk => hk.frame _ rfl (.inl rfl) id
    exact ⟨_, htimer, h'.rememberOnly fun _ _ => id⟩
  | disconnect p =>
    unfold Lsnd.step
    dsimp only
    split
    · rename_i hp
      obtain ⟨L₁, hdestroy, ⟨es₁, h₁⟩, hstat⟩ := h.destroy hp
      refine ⟨L₁, hdestroy, h₁.rememberOnly fun q hq honline => ?_⟩
      rwa [hstat q hq] at honline
    · exact ⟨L, rfl, h.rememberOnly fun _ _ => id⟩

theorem lsndInit_good : Good lsndInit [] [] (· ∈ ([] : List Ptr)) where
  conns := LsndCntx.init_inv
  chat := ⟨fun _ => rfl, rfl, [], hashTabCreat_holds (by decide) (by decide), fun _ => rfl⟩
  kicks := ⟨rfl, [], hashTabCreat_holds (by decide) (by decide)⟩
  sids := nofun
  cids := nofun
  old := nofun
  keeps := nofun

/-- In a run of such events the index has each session on the connection acknowledged last, as long
as that is open, and all the others that were online for it have been put on the kick list. -/
theorem one_active_run (events : List LsndEvent)
    (he : Guarded (fun s e => (track s e).getD s) (fun s e => s.1.Admits e) (lsndInit, ⟨[], []⟩) events) :
    ∃ L T, run events = some (L, T) ∧ OneActive L T := by
  obtain ⟨⟨L, T⟩, hrun, h⟩ := run_invariant track (fun s e => s.1.Admits e)
    (fun s => Good s.1 s.1.entries s.2.acked (· ∈ s.2.kicked)) (fun s e h he => by
      obtain ⟨L', hstep, h'⟩ := h.step e he
      exact ⟨(L', record s.2 s.1 L'), by rw [track, hstep, Option.map_some], h'⟩) events
        (lsndInit, ⟨[], []⟩) lsndInit_good.entries he
  exact ⟨L, T, hrun, h.oneActive⟩

/-- All the memory there is to ask for. -/
def enough : LsndMem := ⟨true, true, true, true⟩

/-- Ids from 0 on are such as the tables take. -/
theorem admits_of_nonneg (hsid : 0 ≤ sid.toInt) (hes : ∀ q ∈ L.entries, 0 ≤ (L.extra q).cid.toInt)
    (hindex : (L.chat.tab.sid2cids.hashTabTrav.getD []).all fun item => 0 ≤ item.1.toInt)
    (hkicks : (L.kickList.hashTabTrav.getD []).all fun item => 0 ≤ item.cid.toInt) :
    L.Admits (.onlineAck sid seq cid now enough) := by
  simp only [List.all_eq_true, decide_eq_true_eq] at hindex hkicks
  refine ⟨.inl hsid, fun p hp _ => ⟨fun _ => fits_of_nonneg (hes p hp) hkicks, fun _ _ => ⟨rfl, rfl, ?_, ?_⟩⟩⟩
  · exact fits_of_nonneg hsid hindex
  · intro q hq _ _
    exact ⟨⟨rfl, rfl⟩, fits_of_nonneg (hes q hq) hkicks⟩

set_option maxRecDepth 20000 in
/-- Session 1 moves from the first connection to the second. -/
theorem one_active_run_two : ∃ L T, run [.connect 1, .online 0 1 1 true true, .onlineAck 1 1 1 0 enough,
    .connect 2, .online 1 1 1 true true, .onlineAck 1 1 2 0 enough] = some (L, T) ∧ OneActive L T := by
  have hone : (1 : BitVec 64) ≠ 0 := by decide
  have htwo : (2 : BitVec 64) ≠ 0 := by decide
  have hhash : HashOk lsndChatTabLen (1 : BitVec 64).toInt := .inl (by decide)
  apply one_active_run
  refine ⟨hone, fun _ _ _ => ⟨?_, hhash⟩, ?_, htwo, fun _ _ _ => ⟨?_, hhash⟩, ?_, trivial⟩
  · exact LsndCntx.onlineOk_of_nonneg (by decide) (by decide) (by decide)
  · exact admits_of_nonneg (by decide) (by decide) (by decide) (by decide)
  · exact LsndCntx.onlineOk_of_nonneg (by decide) (by decide) (by decide)
  · exact admits_of_nonneg (by decide) (by decide) (by decide) (by decide)

set_option maxRecDepth 20000 in
/-- An acknowledged connection asks to be another session, and is not found when its
session has a new connection. -/
theorem one_active_renamed : ¬∀ events, ∃ L T, run events = some (L, T) ∧ OneActive L T := by
  intro h
  obtain ⟨L, T, hrun, hone⟩ := h [.connect 1, .online 0 1 1 true true, .onlineAck 1 1 1 0 enough,
    .online 0 2 2 true true, .connect 2, .online 1 1 1 true true, .onlineAck 1 1 2 0 enough]
  have hend : (run [.connect 1, .online 0 1 1 true true, .onlineAck 1 1 1 0 enough, .online 0 2 2 true true,
      .connect 2, .online 1 1 1 true true, .onlineAck 1 1 2 0 enough]).map (fun s =>
        (s.1.opened, s.2.acked, s.2.kicked, (idKey.query Prod.fst s.1.chat.tab.sid2cids 1).join.map Prod.snd,
        (s.1.extra 0).cid)) =
      some ([1, 0], [(1, 1), (1, 0)], [], some 2, 1) := by decide
  rw [hrun] at hend
  simp only [Option.map_some, Option.some.injEq, Prod.mk.injEq] at hend
  obtain ⟨hopened, hacked, hkicked, hindex, hcid⟩ := hend
  have hput := hone.others 1 0 (by rw [hopened]; decide) (by rw [hacked]; decide) (by
    intro hmaps
    rw [hmaps, hcid] at hindex
    exact absurd hindex (by decide))
  rw [hkicked] at hput
  cases hput

end Lsnd

end BeehiveIm.Listend
