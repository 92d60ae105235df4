/-
Runs of the chat table. As long as no session joins a second room and no lock is waited for in vain,
sessions and rooms list each other, and the table refines `Membership`.
-/
import BeehiveIm.Chat.Sessions
import BeehiveIm.Lib.Run

namespace BeehiveIm.Chat

open BeehiveIm.Lib BeehiveIm.Core

variable {len : Nat} {R : Set Rid} {S : Set SessionKey}

theorem setWidth_setWidth (gid : BitVec 16) : (gid.setWidth 32).setWidth 16 = gid :=
  BitVec.setWidth_setWidth_of_le gid (by decide)

theorem setWidth_inj {gid gid' : BitVec 16} : gid.setWidth 32 = gid'.setWidth 32 ↔ gid = gid' := by
  constructor
  · intro h
    rw [← setWidth_setWidth gid, h, setWidth_setWidth]
  · rintro rfl; rfl

/-- Whether a session that joins its first room is taken on. -/
def Mem.enters (mem : Mem) : Bool := mem.sid && mem.sidNode && (mem.session && mem.tables && mem.sessionNode)

namespace ChatTab

variable {T : ChatTab} {m : Membership SessionKey Rid (BitVec 32)} {rid : Rid} {gid : BitVec 16} {sid cid : BitVec 64}
  {mem : Mem}

/-! ## The invariant -/

/-- Sessions and rooms list each other, and the counters count. -/
structure Consistent (T : ChatTab) : Prop where
  lists_iff : ∀ key rid gid, T.lists key rid = some gid ↔ ∃ gid' :
    BitVec 16, gid = gid'.setWidth 32 ∧ T.has rid gid' key
  counts : ∃ rooms, T.rooms.hashTabTrav = some rooms ∧ ∀ room ∈ rooms,
    ∃ grps, room.groups.hashTabTrav = some grps ∧ room.sidNum = (grps.map ChatGroup.sidNum).sum ∧
      ∀ grp ∈ grps, ∃ keys, grp.sidSet.hashTabTrav = some keys ∧ grp.sidNum = keys.length

/-- The members a table of `m` has. -/
def Listed (m : Membership SessionKey Rid (BitVec 32)) : Members :=
  fun rid gid key => m.lists key rid = some (gid.setWidth 32)

/-- The table shows `m`, in its sessions and in its rooms. -/
structure Shows (len : Nat) (R : Set Rid) (S : Set SessionKey) (T : ChatTab)
    (m : Membership SessionKey Rid (BitVec 32)) : Prop where
  ids : Ids len R S
  sessions : SessionsOk len R S T.sessions m
  rooms : RoomsOk len R S T.rooms (Listed m)
  gids : ∀ key rid gid, m.lists key rid = some gid → ∃ gid' : BitVec 16, gid = gid'.setWidth 32
  sid2cids : Stored idKey Prod.fst (Prod.fst '' S) len T.sid2cids []

theorem Shows.consistent (h : T.Shows len R S m) : T.Consistent := by
  constructor
  · intro key rid gid
    have hlists : T.lists key rid = m.lists key rid := h.sessions.lists key rid
    have hhas : ∀ gid', T.has rid gid' key ↔ m.lists key rid = some (gid'.setWidth 32) := fun gid' => h.rooms.has
    simp only [hlists, hhas]
    constructor
    · intro hl
      obtain ⟨gid', rfl⟩ := h.gids key rid gid hl
      exact ⟨gid', rfl, hl⟩
    · rintro ⟨gid', rfl, hl⟩
      exact hl
  · obtain ⟨rooms, htrav, hrooms⟩ := h.rooms.trav
    refine ⟨rooms, htrav, fun room hroom => ?_⟩
    obtain ⟨grps, htrav, hsum, hgrps⟩ := (hrooms room hroom).2.trav
    refine ⟨grps, htrav, hsum, fun grp hgrp => ?_⟩
    obtain ⟨keys, htrav, hnum, -⟩ := (hgrps grp hgrp).trav
    exact ⟨keys, htrav, hnum⟩

theorem chatTabInit_shows (h : Ids len R S) : (chatTabInit len).Shows len R S fun _ => none where
  ids := h
  sessions := sessionsOk_empty h
  rooms := (roomsOk_empty h).congr fun _ _ _ => by simp [Listed, Membership.lists]
  gids := by simp [Membership.lists]
  sid2cids := hashTabCreat_stored h.pos h.lt h.sids

/-! ## `chat_room_add_session` -/

theorem SessionsOk.chatSessionTabAdd (hids : Ids len R S) (h : SessionsOk len R S T.sessions m) (gid : BitVec 32)
    (hr : rid ∈ R) (hk : (sid, cid) ∈ S) (hno : m (sid, cid) = none)
    (hsafe : mem.session → mem.room ∧
    (mem.tables → ¬T.rdlocked (T.slot (sid, cid)) ∧ (mem.sessionNode → mem.roomNode))) :
    (mem.session && mem.tables && mem.sessionNode) = true ∧ (∃ sessions',
      T.chatSessionTabAdd rid gid sid cid mem = some ({ T with sessions := sessions' }, true) ∧
        SessionsOk len R S sessions' (m.join (sid, cid) rid gid)) ∨
    (mem.session && mem.tables && mem.sessionNode) = false ∧
    T.chatSessionTabAdd rid gid sid cid mem = some (T, false) := by
  unfold ChatTab.chatSessionTabAdd
  cases hsession : mem.session with
  | false => exact .inr ⟨rfl, by simp⟩
  | true =>
    obtain ⟨hroom, hsafe⟩ := hsafe hsession
    cases htables : mem.tables with
    | false => exact .inr ⟨rfl, by simp [hroom]⟩
    | true =>
      obtain ⟨hlock, hnode⟩ := hsafe htables
      have hempty : Stored itemKey ChatRoomItem.rid R chatSessionSlotLen
          (HashTab.hashTabCreat ChatRoomItem chatSessionSlotLen) [] :=
        hashTabCreat_stored (by decide) (by decide) hids.items
      obtain ⟨room, hins, hst⟩ := hempty.insert_ok (e := ⟨rid, gid⟩) hr rfl
      cases hsn : mem.sessionNode with
      | true =>
        have hok : SessionOk R ⟨sid, cid, room⟩ (Function.update (fun _ => none) rid (some gid)) := by
          refine ⟨_, hst, fun r => ?_⟩
          rw [lookup_cons, Function.update_apply]
          by_cases hrid : rid = r
          · rw [if_pos hrid, if_pos hrid.symm]; rfl
          · rw [if_neg hrid, if_neg (Ne.symm hrid)]; rfl
        obtain ⟨sessions', hins', h'⟩ := h.insert ⟨sid, cid, room⟩ hk hno rfl hok
        refine .inl ⟨rfl, sessions', by simp [hroom, hnode hsn, hins, hlock, hins'], ?_⟩
        rwa [Membership.join, Membership.lists, hno]
      | false =>
        have herr (room : HashTab ChatRoomItem) := h.insert_err ⟨sid, cid, room⟩ hk hno rfl
        have hins' : ∃ room ret, itemKey.insert ChatRoomItem.rid (HashTab.hashTabCreat ChatRoomItem chatSessionSlotLen)
            ⟨rid, gid⟩ mem.roomNode = some (room, ret) := by
          cases mem.roomNode with
          | true => exact ⟨room, .ok, hins⟩
          | false => exact ⟨HashTab.hashTabCreat ChatRoomItem chatSessionSlotLen, .err, hempty.insert_err hr rfl⟩
        obtain ⟨room', ret, hins'⟩ := hins'
        exact .inr ⟨rfl, by simp [hroom, hins', hlock, herr]⟩

/-- What the rooms of `m` and one more pair are. -/
theorem listed_join {gid : BitVec 16} (hno : m.lists (sid, cid) rid = none) (r : Rid) (g : BitVec 16) (k : SessionKey) :
    Listed m r g k ∨ r = rid ∧ g = gid ∧ k = (sid, cid) ↔ Listed (m.join (sid, cid) rid (gid.setWidth 32)) r g k := by
  have hjoin : (m.join (sid, cid) rid (gid.setWidth 32)).lists (sid, cid) rid = some (gid.setWidth 32) := by
    rw [Membership.lists_join, if_pos ⟨rfl, rfl⟩, hno]; rfl
  rw [Listed, Listed, Membership.lists_join_iff hjoin, setWidth_inj]

/-- A call for a session that is in the table adds nothing; a new session is taken on as
a whole, or not at all. -/
def AddsSafely (T : ChatTab) (rid : Rid) (key : SessionKey) (mem : Mem) : Prop :=
  if (sessionKey.query ChatSession.key T.sessions key).join.isSome then mem.item → (T.lists key rid).isSome
  else (mem.sid && mem.sidNode && mem.session) → mem.room ∧
    (mem.tables → ¬T.rdlocked (T.slot key) ∧ (mem.sessionNode → mem.roomNode))

instance (rid : Rid) (key : SessionKey) (mem : Mem) : Decidable (T.AddsSafely rid key mem) :=
  inferInstanceAs (Decidable (ite ..))

theorem Shows.chatRoomAddSession (h : T.Shows len R S m) (gid : BitVec 16) (hr : rid ∈ R) (hk : (sid, cid) ∈ S)
    (hsafe : T.AddsSafely rid (sid, cid) mem) :
    ∃ T' ret, T.chatRoomAddSession rid (gid.setWidth 32) sid cid mem = some (T', ret) ∧
      T'.Shows len R S (if (m (sid, cid)).isSome ∨ ¬mem.enters then m
      else m.join (sid, cid) rid (gid.setWidth 32)) := by
  unfold ChatTab.chatRoomAddSession
  unfold AddsSafely at hsafe
  have hlists : T.lists (sid, cid) rid = m.lists (sid, cid) rid := h.sessions.lists _ _
  rcases h.sessions.query hk with ⟨session, rooms, hq, -, hm, hok⟩ | ⟨hq, hno⟩
  · -- the session is in the table
    rw [if_pos (.inl (by rw [hm]; rfl))]
    simp only [hq, Option.join_some, Option.isSome_some, if_true] at hsafe ⊢
    obtain ⟨item, hitem, hgid⟩ := hok.query hr
    rw [hlists, Membership.lists, hm, Option.bind_some, ← hgid] at hsafe
    simp only [hitem]
    cases item with
    | some item => exact ⟨T, _, rfl, h⟩
    | none =>
      have hitem : mem.item = false := by simpa using hsafe
      exact ⟨T, -1, by simp [hitem], h⟩
  · -- the session is new
    simp only [hq, Option.join_some, Option.isSome_none, Bool.false_eq_true, if_false] at hsafe ⊢
    have hnone : m.lists (sid, cid) rid = none := by rw [Membership.lists, hno]; rfl
    obtain ⟨rooms', hadd, hrooms⟩ := h.rooms.roomAddSession h.ids.sidSets (gid.setWidth 32) mem hr hk
      (by rw [Listed, hnone]; simp)
    rw [setWidth_setWidth] at hrooms
    rw [hadd]
    cases hsid : mem.sid && mem.sidNode with
    | false =>
      rw [hsid] at hrooms
      refine ⟨_, _, rfl, ?_⟩
      rw [if_pos (.inr (by simp [Mem.enters, hsid]))]
      exact ⟨h.ids, h.sessions, hrooms.congr fun _ _ _ => by simp, h.gids, h.sid2cids⟩
    | true =>
      rw [hsid] at hrooms hsafe
      simp only [true_and] at hrooms
      have htab := SessionsOk.chatSessionTabAdd (T := { T with rooms := rooms' }) h.ids h.sessions (gid.setWidth 32)
        hr hk hno hsafe
      rcases htab with ⟨henters, sessions', htab, hsessions⟩ | ⟨henters, htab⟩
      · refine ⟨_, _, by simp only [htab]; rfl, ?_⟩
        rw [if_neg (by simp only [hno, Mem.enters, hsid, henters]; decide)]
        refine ⟨h.ids, hsessions, hrooms.congr (listed_join hnone), fun k r g hl => ?_, h.sid2cids⟩
        rw [Membership.lists_join] at hl
        split at hl
        · exact ⟨gid, by simpa [hnone] using hl.symm⟩
        · exact h.gids k r g hl
      · obtain ⟨rooms'', hdel, hrooms'⟩ := hrooms.roomDelSession (gid.setWidth 32) hr hk
        refine ⟨_, _, by simp only [htab, hdel]; rfl, ?_⟩
        rw [if_pos (.inr (by simp only [Mem.enters, hsid, henters]; decide))]
        refine ⟨h.ids, h.sessions, hrooms'.congr fun r g k => ?_, h.gids, h.sid2cids⟩
        rw [setWidth_setWidth]
        constructor
        · rintro ⟨hor, hne⟩
          exact hor.resolve_right hne
        · intro hl
          refine ⟨.inl hl, ?_⟩
          rintro ⟨rfl, rfl, rfl⟩
          rw [Listed, hnone] at hl
          cases hl

/-! ## `chat_room_del_session` -/

theorem Shows.chatRoomDelSession (h : T.Shows len R S m) (hr : rid ∈ R) (hk : (sid, cid) ∈ S) :
    ∃ T', T.chatRoomDelSession rid sid cid = some T' ∧ T'.Shows len R S (m.quit (sid, cid) rid) := by
  unfold ChatTab.chatRoomDelSession
  rcases h.sessions.query hk with ⟨session, rooms, hq, hkey, hm, hok⟩ | ⟨hq, hno⟩
  · simp only [hq]
    obtain ⟨room, item, hdel, hgid, hrid, hok'⟩ := hok.delete hr
    have hlists : m.lists (sid, cid) rid = item.map ChatRoomItem.gid := by
      rw [Membership.lists, hm, Option.bind_some, hgid]
    simp only [hdel]
    cases item with
    | none =>
      rw [Membership.quit_of_not_lists hlists]
      exact ⟨_, rfl, h.ids, h.sessions, h.rooms, h.gids, h.sid2cids⟩
    | some item =>
      obtain rfl := hrid item rfl
      obtain ⟨sessions', hw, hsessions⟩ := h.sessions.write hk hq hok'
      obtain ⟨rooms', hdelRoom, hrooms⟩ := h.rooms.roomDelSession item.gid hr hk
      refine ⟨{ T with
          rooms := rooms'
          sessions := sessions'
          rdlocked := Function.update T.rdlocked (T.slot (sid, cid)) true }, by simp only [hw, hdelRoom]; rfl,
        h.ids, ?_, hrooms.congr fun r g k => ?_, fun k r g hl => ?_, h.sid2cids⟩
      · rwa [Membership.quit, hm]
      · obtain ⟨gid, hgid⟩ := h.gids _ _ _ hlists
        rw [Option.map_some, hgid] at hlists
        rw [Listed, Listed, Membership.lists_quit_iff hlists, hgid, setWidth_setWidth, setWidth_inj]
      · rw [Membership.lists_quit] at hl
        split at hl
        · cases hl
        · exact h.gids k r g hl
  · refine ⟨T, by simp only [hq], ?_⟩
    rwa [Membership.quit_of_not_lists (by rw [Membership.lists, hno]; rfl)]

/-! ## `chat_del_session` -/

theorem Shows.chatDelSidToCid (h : T.Shows len R S m) (hk : (sid, cid) ∈ S) : T.chatDelSidToCid sid cid = some T := by
  rw [ChatTab.chatDelSidToCid, h.sid2cids.query (Set.mem_image_of_mem Prod.fst hk)]
  rfl

/-- The traversal takes away the members it visits. -/
theorem delItems_spec {key : SessionKey} (hk : key ∈ S) : ∀ (items : List ChatRoomItem) {rooms : HashTab ChatRoom}
    {M : Members}, RoomsOk len R S rooms M → (∀ item ∈ items, item.rid ∈ R) →
    ∃ rooms', items.foldlM (fun rooms item => roomDelSession rooms item.rid item.gid key) rooms = some rooms' ∧
      RoomsOk len R S rooms' fun r g k => M r g k ∧
      ¬((∃ item ∈ items, r = item.rid ∧ g = item.gid.setWidth 16) ∧ k = key)
  | [], rooms, M, h, _ => ⟨rooms, rfl, h.congr fun _ _ _ => by simp⟩
  | item :: items, rooms, M, h, hR => by
    obtain ⟨hr, hR⟩ := List.forall_mem_cons.1 hR
    obtain ⟨rooms₁, hdel, h₁⟩ := h.roomDelSession item.gid hr hk
    obtain ⟨rooms', hrest, h'⟩ := delItems_spec hk items h₁ hR
    refine ⟨rooms', by rw [List.foldlM_cons, hdel]; exact hrest, h'.congr fun r g k => ?_⟩
    simp only [List.mem_cons, exists_eq_or_imp]
    constructor
    · rintro ⟨⟨hM, hhead⟩, htail⟩
      refine ⟨hM, ?_⟩
      rintro ⟨⟨hr, hg⟩ | hex, hkey⟩
      · exact hhead ⟨hr, hg, hkey⟩
      · exact htail ⟨hex, hkey⟩
    · rintro ⟨hM, hno⟩
      exact ⟨⟨hM, fun ⟨hr, hg, hkey⟩ => hno ⟨.inl ⟨hr, hg⟩, hkey⟩⟩, fun ⟨hex, hkey⟩ => hno ⟨.inr hex, hkey⟩⟩

theorem Shows.chatDelSession (h : T.Shows len R S m) (hk : (sid, cid) ∈ S) (hlock : ¬T.rdlocked (T.slot (sid, cid))) :
    ∃ T', T.chatDelSession sid cid = some T' ∧ T'.Shows len R S (m.del (sid, cid)) := by
  unfold ChatTab.chatDelSession
  simp only [h.chatDelSidToCid hk, if_neg hlock]
  have hgids : ∀ key rid gid, (m.del (sid, cid)).lists key rid = some gid → ∃ gid' :
      BitVec 16, gid = gid'.setWidth 32 := by
    intro key rid gid hl
    rw [Membership.lists_del] at hl
    split at hl
    · cases hl
    · exact h.gids key rid gid hl
  obtain ⟨sessions', hsessions, ⟨session, rooms, hdel, hkey, hm, hok⟩ | ⟨hdel, hno⟩⟩ := h.sessions.delete hk
  · obtain ⟨items, htrav, hR, hitems⟩ := hok.trav
    obtain ⟨rooms', hfold, hrooms⟩ := delItems_spec hk items h.rooms hR
    have htravDel : travDelSession T.rooms session = some rooms' := by
      unfold travDelSession
      rw [show (session.sid, session.cid) = (sid, cid) from hkey, htrav]
      exact hfold
    refine ⟨{ T with rooms := rooms', sessions := sessions' }, by simp only [hdel, htravDel]; rfl,
      h.ids, hsessions, hrooms.congr fun r g k => ?_, hgids, h.sid2cids⟩
    rw [Listed, Listed, Membership.lists_del]
    by_cases hkk : k = (sid, cid)
    · -- the session was listed in the rooms of its items, and in no other
      subst hkk
      simp only [and_true, if_true, reduceCtorEq, iff_false, not_and, not_not]
      intro hl
      rw [Membership.lists, hm, Option.bind_some, hitems] at hl
      obtain ⟨item, hitem, rfl, hgid⟩ := hl
      exact ⟨item, hitem, rfl, by rw [hgid, setWidth_setWidth]⟩
    · simp [hkk]
  · have hsame : m.del (sid, cid) = m := Membership.del_of_none hno
    rw [hsame] at hsessions ⊢
    exact ⟨T, by simp only [hdel], h⟩

/-! ## `chat_room_clean_hdl` -/

/-- Rid 0 does not hide another rid of the list. -/
def ZeroLast (rids : List Rid) : Prop := 0 ∉ rids.dropLast

theorem cleanLoop_spec {M : Members} : ∀ {rids : List Rid} {rooms : HashTab ChatRoom}, RoomsOk len R S rooms M →
    (∀ rid ∈ rids, rid ∈ R) → ZeroLast rids → ∃ rooms', cleanLoop rids rooms = some rooms' ∧ RoomsOk len R S rooms' M
  | [], rooms, h, _, _ => ⟨rooms, rfl, h⟩
  | rid :: rids, rooms, h, hR, hz => by
    rw [cleanLoop]
    by_cases hrid : rid = 0
    · have hnil : rids = [] := by
        by_contra hne
        rw [ZeroLast, List.dropLast_cons_of_ne_nil hne, hrid] at hz
        exact hz List.mem_cons_self
      exact ⟨rooms, by rw [if_pos hrid, if_pos hnil], h⟩
    · obtain ⟨hr, hR⟩ := List.forall_mem_cons.1 hR
      obtain ⟨rooms₁, hdel, h₁⟩ := h.chatDelRoom hr
      have hz' : ZeroLast rids := by
        rcases eq_or_ne rids [] with rfl | hne
        · exact List.not_mem_nil
        · rw [ZeroLast, List.dropLast_cons_of_ne_nil hne] at hz
          exact fun hmem => hz (List.mem_cons_of_mem _ hmem)
      obtain ⟨rooms', hclean, h'⟩ := cleanLoop_spec h₁ hR hz'
      exact ⟨rooms', by rw [if_neg hrid, hdel]; exact hclean, h'⟩

theorem Shows.chatRoomCleanHdl (h : T.Shows len R S m) (pushed : Rid → Bool)
    (hz : ∀ rooms ∈ T.rooms.hashTabTrav, ZeroLast (cleanList rooms pushed)) :
    ∃ T', T.chatRoomCleanHdl pushed = some T' ∧ T'.Shows len R S m := by
  obtain ⟨rooms, htrav, hrooms⟩ := h.rooms.trav
  have hR : ∀ rid ∈ cleanList rooms pushed, rid ∈ R := by
    intro rid hrid
    obtain ⟨room, hroom, rfl⟩ := List.mem_map.1 hrid
    exact (hrooms room (List.mem_of_mem_filter hroom)).1
  obtain ⟨rooms', hclean, h'⟩ := cleanLoop_spec h.rooms hR (hz rooms htrav)
  exact ⟨{ T with rooms := rooms' }, by rw [ChatTab.chatRoomCleanHdl, htrav]; simp only [hclean]; rfl,
    h.ids, h.sessions, h', h.gids, h.sid2cids⟩

/-! ## Runs -/

/-- The calls that keep sessions and rooms together: their ids are in `R` and `S`, no session joins
a second room, no lock is waited for in vain and rid 0 hides no other rid from the clean-up. -/
def Safe (R : Set Rid) (S : Set SessionKey) (T : ChatTab) : Op → Prop
  | .addSession rid _ sid cid mem => rid ∈ R ∧ (sid, cid) ∈ S ∧ T.AddsSafely rid (sid, cid) mem
  | .roomDelSession rid sid cid => rid ∈ R ∧ (sid, cid) ∈ S
  | .delSession sid cid => (sid, cid) ∈ S ∧ ¬T.rdlocked (T.slot (sid, cid))
  | .clean pushed => ∀ rooms ∈ T.rooms.hashTabTrav, ZeroLast (cleanList rooms pushed)

/-- What a call does to the membership. -/
def Op.apply (m : Membership SessionKey Rid (BitVec 32)) : Op → Membership SessionKey Rid (BitVec 32)
  | .addSession rid gid sid cid mem =>
    if (m (sid, cid)).isSome ∨ ¬mem.enters then m else m.join (sid, cid) rid (gid.setWidth 32)
  | .roomDelSession rid sid cid => m.quit (sid, cid) rid
  | .delSession sid cid => m.del (sid, cid)
  | .clean _ => m

theorem Shows.step (h : T.Shows len R S m) (op : Op) (hop : T.Safe R S op) :
    ∃ T', T.step op = some T' ∧ T'.Shows len R S (op.apply m) := by
  cases op with
  | addSession rid gid sid cid mem =>
    obtain ⟨hr, hk, hsafe⟩ := hop
    obtain ⟨T', ret, hadd, h'⟩ := h.chatRoomAddSession gid hr hk hsafe
    exact ⟨T', by rw [ChatTab.step, hadd]; rfl, h'⟩
  | roomDelSession rid sid cid => exact h.chatRoomDelSession hop.1 hop.2
  | delSession sid cid => exact h.chatDelSession hop.1 hop.2
  | clean pushed => exact h.chatRoomCleanHdl pushed hop

end ChatTab

/-- A run whose calls are all safe ends in a table whose sessions and rooms list each other. -/
theorem chat_run_consistent (len : Nat) (R : Set Rid) (S : Set SessionKey) (hids : Ids len R S)
    (ops : List ChatTab.Op)
    (hops : Guarded (fun T op => (T.step op).getD T) (ChatTab.Safe R S) (ChatTab.chatTabInit len) ops) :
    ∃ T, ops.foldlM ChatTab.step (ChatTab.chatTabInit len) = some T ∧ T.Consistent := by
  obtain ⟨T, hrun, m, h⟩ := run_invariant ChatTab.step (ChatTab.Safe R S) (fun T => ∃ m, T.Shows len R S m)
    (fun T op ⟨m, h⟩ hop => by
      obtain ⟨T', hstep, h'⟩ := h.step op hop
      exact ⟨T', hstep, _, h'⟩) ops _ ⟨_, ChatTab.chatTabInit_shows hids⟩ hops
  exact ⟨T, hrun, h.consistent⟩

theorem chat_run_consistent_two : ∃ T, [.addSession 1 1 1 1 .enough, .addSession 1 3 4 5 .enough,
    .addSession 1 2 4 5 .enough, .roomDelSession 1 1 1, .delSession 4 5, .clean fun _ => true].foldlM ChatTab.step
    (ChatTab.chatTabInit 5) = some T ∧ T.Consistent := by
  refine chat_run_consistent 5 _ _ (ids_of_nonneg (by decide) (by decide)) _ ⟨?_, ?_, ?_, ?_, ?_, ?_, trivial⟩
  · exact ⟨by decide, by decide, by decide⟩
  · exact ⟨by decide, by decide, by decide⟩
  · exact ⟨by decide, by decide, by decide⟩
  · exact ⟨by decide, by decide⟩
  · exact ⟨by decide, by decide +kernel⟩
  · unfold ChatTab.Safe ChatTab.ZeroLast
    decide +kernel

/-- A session that joins a second room lists it, and is in no group of it. -/
theorem second_room_not_entered : ¬∀ (len : Nat) (ops : List ChatTab.Op), 0 < len → len < 2 ^ 31 →
    ∃ T, ops.foldlM ChatTab.step (ChatTab.chatTabInit len) = some T ∧ T.Consistent := by
  intro h
  obtain ⟨T, hrun, hT⟩ := h 1 [.addSession 1 1 1 1 .enough, .addSession 2 1 1 1 .enough] (by decide) (by decide)
  have hview : (([.addSession 1 1 1 1 .enough, .addSession 2 1 1 1 .enough].foldlM ChatTab.step
      (ChatTab.chatTabInit 1)).map fun T => (T.lists (1, 1) 2, T.has 2 1 (1, 1))) = some (some 1, false) := by
    decide
  rw [hrun, Option.map_some, Option.some.injEq, Prod.mk.injEq] at hview
  obtain ⟨gid, hgid, hhas⟩ := (hT.lists_iff (1, 1) 2 1).1 hview.1
  obtain rfl : gid = 1 := setWidth_inj.1 (hgid.symm : gid.setWidth 32 = (1 : BitVec 16).setWidth 32)
  rw [hview.2] at hhas
  cases hhas

end BeehiveIm.Chat
