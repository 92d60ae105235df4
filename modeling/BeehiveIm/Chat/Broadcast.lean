/-
Whom `chat_room_trav_session` visits after any calls. Sessions join under 32 bits of a group id, of
which the groups of a room and the traversal have 16: sessions whose groups agree in these are
visited together, and a group whose 16 bits are 0 is all groups.
-/
import BeehiveIm.Chat.Calls.Kept
import BeehiveIm.Chat.Run

namespace BeehiveIm.Chat

open BeehiveIm.Lib BeehiveIm.Core

variable {len : Nat} {R : Set Rid} {S : Set SessionKey} {m : Membership SessionKey Rid (BitVec 32)} {rid : Rid}
  {gid : BitVec 32} {key : SessionKey} {sid cid : BitVec 64}

/-! ## The invariant -/

/-- The sessions of a group have joined under its 16 bits. -/
def Joined (m : Membership SessionKey Rid (BitVec 32)) : Members :=
  fun rid g key => ∃ gid, m.lists key rid = some gid ∧ gid.setWidth 16 = g

/-- The sessions and the rooms of the table are those of `m`. -/
structure Placed (len : Nat) (R : Set Rid) (S : Set SessionKey) (T : ChatTab)
    (m : Membership SessionKey Rid (BitVec 32)) : Prop where
  ids : Ids len R S
  sessions : SessionsOk len R S T.sessions m
  rooms : RoomsOk len R S T.rooms (Joined m)

/-- One pair more. -/
theorem joined_join (hno : m.lists key rid = none) (r : Rid) (g : BitVec 16) (k : SessionKey) :
    Joined (m.join key rid gid) r g k ↔ Joined m r g k ∨ r = rid ∧ g = gid.setWidth 16 ∧ k = key := by
  unfold Joined
  simp only [Membership.lists_join, hno, Option.getD_none]
  by_cases hkr : k = key ∧ r = rid
  · obtain ⟨rfl, rfl⟩ := hkr
    simp [hno, eq_comm]
  · simp only [hkr, if_false]
    refine ⟨.inl, fun hor => hor.resolve_right ?_⟩
    rintro ⟨hr, -, hk⟩
    exact hkr ⟨hk, hr⟩

/-- One pair less. -/
theorem joined_quit (hl : m.lists key rid = some gid) (r : Rid) (g : BitVec 16) (k : SessionKey) :
    Joined (m.quit key rid) r g k ↔ Joined m r g k ∧ ¬(r = rid ∧ g = gid.setWidth 16 ∧ k = key) := by
  unfold Joined
  simp only [Membership.lists_quit]
  by_cases hkr : k = key ∧ r = rid
  · obtain ⟨rfl, rfl⟩ := hkr
    simp [hl, eq_comm]
  · simp only [hkr, if_false]
    refine ⟨fun h => ⟨h, ?_⟩, And.left⟩
    rintro ⟨hr, -, hk⟩
    exact hkr ⟨hk, hr⟩

/-- A call for a session that is in the table adds nothing, and a new one gets the item of its
room. -/
def ChatTab.JoinsOnce (T : ChatTab) (rid : Rid) (key : SessionKey) (mem : Mem) : Prop :=
  if (sessionKey.query ChatSession.key T.sessions key).join.isSome then mem.item → (T.lists key rid).isSome
  else mem.enters → mem.roomNode

instance (T : ChatTab) (rid : Rid) (key : SessionKey) (mem : Mem) : Decidable (T.JoinsOnce rid key mem) :=
  inferInstanceAs (Decidable (ite ..))

namespace Placed

variable {T T' : ChatTab} {mem : Mem} {ret : BitVec 32}

theorem init (h : Ids len R S) : Placed len R S (ChatTab.chatTabInit len) fun _ => none where
  ids := h
  sessions := sessionsOk_empty h
  rooms := (roomsOk_empty h).congr fun _ _ _ => by simp [Joined, Membership.lists]

/-! ## Calls -/

/-- A session that was put into the table waited for no lock. -/
theorem tabAdd_safe {ok : Bool} (hadd : T.chatSessionTabAdd rid gid sid cid mem = some (T', ok))
    (hnode : mem.session → mem.tables → mem.sessionNode → mem.roomNode) :
    mem.session → mem.room ∧ (mem.tables → ¬T.rdlocked (T.slot (sid, cid)) ∧ (mem.sessionNode → mem.roomNode)) := by
  intro hsession
  unfold ChatTab.chatSessionTabAdd at hadd
  rw [if_neg (not_not.2 hsession)] at hadd
  split at hadd
  · cases hadd
  rename_i hroom
  refine ⟨not_not.1 hroom, fun htables => ?_⟩
  rw [if_neg (not_not.2 htables)] at hadd
  split at hadd
  · cases hadd
  split at hadd
  · cases hadd
  rename_i hlock
  exact ⟨hlock, hnode hsession htables⟩

/-- An answer other than -1 says that the session is in the room. -/
theorem addSession (h : Placed len R S T m) (hr : rid ∈ R) (hk : (sid, cid) ∈ S)
    (honce : T.JoinsOnce rid (sid, cid) mem) (hadd : T.chatRoomAddSession rid gid sid cid mem = some (T', ret)) :
    Placed len R S T' (if ret = -1 then m else m.join (sid, cid) rid gid) := by
  unfold ChatTab.chatRoomAddSession at hadd
  unfold ChatTab.JoinsOnce at honce
  have hlists : T.lists (sid, cid) rid = m.lists (sid, cid) rid := h.sessions.lists _ _
  rcases h.sessions.query hk with ⟨session, rooms, hq, -, hm, hok⟩ | ⟨hq, hno⟩
  · -- the session is in the table
    simp only [hq, Option.join_some, Option.isSome_some, if_true] at hadd honce
    obtain ⟨item, hitem, hgid⟩ := hok.query hr
    have hitemGid : m.lists (sid, cid) rid = item.map ChatRoomItem.gid := by
      rw [Membership.lists, hm, Option.bind_some, hgid]
    rw [hlists, hitemGid] at honce
    simp only [hitem] at hadd
    cases item with
    | some item =>
      cases hadd
      rw [Membership.join_of_lists (hitemGid : m.lists (sid, cid) rid = some item.gid), ite_self]
      exact h
    | none =>
      have hno : mem.item = false := by simpa using honce
      simp only [hno, Bool.false_eq_true, if_false] at hadd
      cases hadd
      exact h
  · -- the session is new
    simp only [hq, Option.join_some, Option.isSome_none, Bool.false_eq_true, if_false] at hadd honce
    have hnone : m.lists (sid, cid) rid = none := by rw [Membership.lists, hno]; rfl
    have hnot : ¬Joined m rid (gid.setWidth 16) (sid, cid) := by
      rintro ⟨gid', hl, -⟩
      rw [hnone] at hl
      cases hl
    obtain ⟨rooms', hroom, hrooms⟩ := h.rooms.roomAddSession h.ids.sidSets gid mem hr hk hnot
    rw [hroom] at hadd
    cases hsid : mem.sid && mem.sidNode with
    | false =>
      rw [hsid] at hadd hrooms
      cases hadd
      exact ⟨h.ids, h.sessions, hrooms.congr fun _ _ _ => by simp⟩
    | true =>
      rw [hsid] at hadd hrooms
      simp only [true_and] at hrooms
      have hnode : mem.session → mem.tables → mem.sessionNode → mem.roomNode := by
        intro h₁ h₂ h₃
        exact honce (by simp [Mem.enters, hsid, h₁, h₂, h₃])
      cases htab : ChatTab.chatSessionTabAdd { T with rooms := rooms' } rid gid sid cid mem with
      | none =>
        simp only [htab] at hadd
        cases hadd
      | some p =>
        obtain ⟨T₁, ok⟩ := p
        have hsessions := ChatTab.SessionsOk.chatSessionTabAdd
            (T := { T with rooms := rooms' }) h.ids h.sessions gid hr hk hno
          (tabAdd_safe htab hnode)
        rcases hsessions with ⟨-, sessions', htab', hsessions'⟩ | ⟨-, htab'⟩
        · rw [htab] at htab'
          cases htab'
          simp only [htab] at hadd
          cases hadd
          exact ⟨h.ids, hsessions', hrooms.congr fun r g k => (joined_join hnone r g k).symm⟩
        · -- the session is taken out of the room again
          rw [htab] at htab'
          cases htab'
          simp only [htab] at hadd
          obtain ⟨rooms'', hdel, hrooms'⟩ := hrooms.roomDelSession gid hr hk
          rw [hdel] at hadd
          cases hadd
          refine ⟨h.ids, h.sessions, hrooms'.congr fun r g k => ?_⟩
          constructor
          · rintro ⟨hor, hne⟩
            exact hor.resolve_right hne
          · intro hjoined
            refine ⟨.inl hjoined, ?_⟩
            rintro ⟨rfl, rfl, rfl⟩
            exact hnot hjoined

theorem roomDelSession (h : Placed len R S T m) (hr : rid ∈ R) (hk : (sid, cid) ∈ S)
    (hdel : T.chatRoomDelSession rid sid cid = some T') : Placed len R S T' (m.quit (sid, cid) rid) := by
  unfold ChatTab.chatRoomDelSession at hdel
  rcases h.sessions.query hk with ⟨session, rooms, hq, hkey, hm, hok⟩ | ⟨hq, hno⟩
  · simp only [hq] at hdel
    obtain ⟨room, item, hdelItem, hgid, hrid, hok'⟩ := hok.delete hr
    have hlists : m.lists (sid, cid) rid = item.map ChatRoomItem.gid := by
      rw [Membership.lists, hm, Option.bind_some, hgid]
    simp only [hdelItem] at hdel
    cases item with
    | none =>
      cases hdel
      rw [Membership.quit_of_not_lists hlists]
      exact ⟨h.ids, h.sessions, h.rooms⟩
    | some item =>
      obtain rfl := hrid item rfl
      obtain ⟨sessions', hw, hsessions⟩ := h.sessions.write hk hq hok'
      obtain ⟨rooms', hdelRoom, hrooms⟩ := h.rooms.roomDelSession item.gid hr hk
      simp only [hw, hdelRoom] at hdel
      cases hdel
      refine ⟨h.ids, ?_, hrooms.congr fun r g k => (joined_quit hlists r g k).symm⟩
      show SessionsOk len R S sessions' (m.quit (sid, cid) item.rid)
      rwa [Membership.quit, hm]
  · simp only [hq] at hdel
    cases hdel
    rw [Membership.quit_of_not_lists (by rw [Membership.lists, hno]; rfl)]
    exact h

theorem delSession (h : Placed len R S T m) (hk : (sid, cid) ∈ S) (hdel : T.chatDelSession sid cid = some T') :
    Placed len R S T' (m.del (sid, cid)) := by
  unfold ChatTab.chatDelSession at hdel
  split at hdel
  · cases hdel
  rename_i T₁ hindex
  obtain ⟨hrooms₁, hsessions₁⟩ := chatDelSidToCid_same hindex
  obtain ⟨hids, hsessions, hrooms⟩ := h
  rw [← hsessions₁] at hsessions
  rw [← hrooms₁] at hrooms
  split at hdel
  · cases hdel
  obtain ⟨sessions', hsessions', ⟨session, rooms, hdelSession, hkey, hm, hok⟩ | ⟨hdelSession, hno⟩⟩ :=
    hsessions.delete hk
  · simp only [hdelSession] at hdel
    obtain ⟨rooms', htrav, heq⟩ := Option.map_eq_some_iff.1 hdel
    cases heq
    obtain ⟨items, hitems, hR, hlisted⟩ := hok.trav
    unfold ChatTab.travDelSession at htrav
    rw [hitems, show (session.sid, session.cid) = (sid, cid) from hkey] at htrav
    obtain ⟨rooms'', hfold, hrooms'⟩ := ChatTab.delItems_spec hk items hrooms hR
    obtain rfl : rooms'' = rooms' := Option.some.inj (hfold.symm.trans htrav)
    refine ⟨hids, hsessions', hrooms'.congr fun r g k => ?_⟩
    unfold Joined
    simp only [Membership.lists_del]
    by_cases hkk : k = (sid, cid)
    · -- the session was in the rooms of its items, and in no other
      subst hkk
      simp only [and_true, if_true, reduceCtorEq, false_and, exists_false, iff_false, not_and, not_not]
      rintro ⟨gid, hl, rfl⟩
      rw [Membership.lists, hm, Option.bind_some, hlisted] at hl
      obtain ⟨item, hitem, rfl, rfl⟩ := hl
      exact ⟨item, hitem, rfl, rfl⟩
    · simp [hkk]
  · simp only [hdelSession] at hdel
    cases hdel
    rw [Membership.del_of_none hno]
    exact ⟨hids, hsessions, hrooms⟩

theorem delRoom (h : Placed len R S T m) (hr : rid ∈ R) {rooms : HashTab ChatRoom}
    (hdel : chatDelRoom T.rooms rid = some rooms) : Placed len R S { T with rooms := rooms } m := by
  obtain ⟨rooms', hdel', hrooms⟩ := h.rooms.chatDelRoom hr
  obtain rfl : rooms' = rooms := Option.some.inj (hdel'.symm.trans hdel)
  exact ⟨h.ids, h.sessions, hrooms⟩

theorem cleanLoop {M : Members} : ∀ {rids : List Rid} {rooms rooms' : HashTab ChatRoom}, RoomsOk len R S rooms M →
    (∀ rid ∈ rids, rid ∈ R) → ChatTab.cleanLoop rids rooms = some rooms' → RoomsOk len R S rooms' M
  | [], rooms, rooms', h, _, hclean => by
    cases hclean
    exact h
  | rid :: rids, rooms, rooms', h, hR, hclean => by
    obtain ⟨hr, hR⟩ := List.forall_mem_cons.1 hR
    unfold ChatTab.cleanLoop at hclean
    split at hclean
    · split at hclean
      · cases hclean
        exact h
      · cases hclean
    · obtain ⟨rooms₁, hdel, h₁⟩ := h.chatDelRoom hr
      rw [hdel] at hclean
      exact cleanLoop h₁ hR hclean

theorem clean (h : Placed len R S T m) {pushed : Rid → Bool} (hclean : T.chatRoomCleanHdl pushed = some T') :
    Placed len R S T' m := by
  obtain ⟨rooms, htrav, hrooms⟩ := h.rooms.trav
  unfold ChatTab.chatRoomCleanHdl at hclean
  rw [htrav] at hclean
  obtain ⟨rooms', hloop, rfl⟩ := Option.map_eq_some_iff.1 hclean
  have hR : ∀ rid ∈ ChatTab.cleanList rooms pushed, rid ∈ R := by
    intro rid hrid
    obtain ⟨room, hroom, rfl⟩ := List.mem_map.1 hrid
    exact (hrooms room (List.mem_of_mem_filter hroom)).1
  exact ⟨h.ids, h.sessions, cleanLoop h.rooms hR hloop⟩

/-! ## The traversal -/

/-- All members of the room are visited for 16 bits that are 0, and else those who
joined under these 16 bits. -/
theorem trav (h : Placed len R S T m) (hr : rid ∈ R) (g : BitVec 16) : ∃ keys, T.chatRoomTravSession rid g = some keys ∧
    keys.Nodup ∧ ∀ key, key ∈ keys ↔ ∃ gid, m.lists key rid = some gid ∧ (g = 0 ∨ gid.setWidth 16 = g) := by
  unfold ChatTab.chatRoomTravSession
  rcases h.rooms.query hr with ⟨room, hq⟩ | ⟨hq, hno⟩
  · obtain ⟨rfl, hok⟩ := h.rooms.queried hq
    obtain ⟨keys, htrav, hmem, hnodup⟩ := hok.chatGroupTrav_once g
    refine ⟨keys, by rw [hq]; exact htrav, hnodup ?_, fun key => ?_⟩
    · -- a session lists a room under one group
      rintro g₁ g₂ k ⟨gid, hl, rfl⟩ ⟨gid', hl', rfl⟩
      rw [hl] at hl'
      cases hl'
      rfl
    · rw [hmem]
      constructor
      · rintro ⟨g', hg, gid, hl, rfl⟩
        exact ⟨gid, hl, hg⟩
      · rintro ⟨gid, hl, hg⟩
        exact ⟨_, hg, gid, hl, rfl⟩
  · refine ⟨[], by rw [hq], .nil, fun key => ?_⟩
    simp only [List.not_mem_nil, false_iff]
    rintro ⟨gid, hl, -⟩
    exact hno _ key ⟨gid, hl, rfl⟩

end Placed

/-! ## Runs -/

namespace ChatState

variable {C C' : ChatState} {ret : Int}

/-- The calls whose ids the tables can handle, and by which no session joins a second room. -/
def Call.JoinsOnce (R : Set Rid) (S : Set SessionKey) (C : ChatState) : Call → Prop
  | .addSession rid _ sid cid mem => rid ∈ R ∧ (sid, cid) ∈ S ∧ C.tab.JoinsOnce rid (sid, cid) mem
  | .roomDelSession rid sid cid => rid ∈ R ∧ (sid, cid) ∈ S
  | .delSession sid cid => (sid, cid) ∈ S
  | .delRoom rid => rid ∈ R
  | .setSidToCid .. | .delSidToCid .. | .addSub .. | .delSub .. | .clean _ => True

/-- Who has joined which room under which group, after a call and its answer; -1 is no group. -/
def Call.joins (m : Membership SessionKey Rid (BitVec 32)) : Call → Int → Membership SessionKey Rid (BitVec 32)
  | .addSession rid gid sid cid _, ret => if ret = 4294967295 then m else m.join (sid, cid) rid gid
  | .roomDelSession rid sid cid, _ => m.quit (sid, cid) rid
  | .delSession sid cid, _ => m.del (sid, cid)
  | .setSidToCid .., _ | .delSidToCid .., _ | .addSub .., _ | .delSub .., _ | .delRoom _, _ | .clean _, _ => m

/-- The calls that change neither rooms nor sessions. -/
theorem setSidToCid_same {item node : Bool} (hcall : C.chatSetSidToCid sid cid item node = some (C', ret)) :
    C'.tab.rooms = C.tab.rooms ∧ C'.tab.sessions = C.tab.sessions := by
  unfold chatSetSidToCid at hcall
  split at hcall
  · cases hcall
  split at hcall
  · cases hcall
  · split at hcall
    · cases hcall
      exact ⟨rfl, rfl⟩
    split at hcall
    · cases hcall
    split at hcall
    · split at hcall
      · cases hcall
      · cases hcall
        exact ⟨rfl, rfl⟩
    · cases hcall
      exact ⟨rfl, rfl⟩
  · split at hcall
    · obtain ⟨p, -, heq⟩ := Option.map_eq_some_iff.1 hcall
      cases heq
      exact ⟨rfl, rfl⟩
    · cases hcall
      exact ⟨rfl, rfl⟩

theorem addSub_same {cmd : Cmd} {item node : Bool} (hcall : C.chatAddSub sid cmd item node = some (C', ret)) :
    C'.tab = C.tab := by
  unfold chatAddSub at hcall
  split at hcall
  · cases hcall
    rfl
  split at hcall
  · cases hcall
  split at hcall
  · cases hcall
    rfl
  split at hcall
  · cases hcall
  · cases hcall
    rfl
  · split at hcall
    all_goals cases hcall
    all_goals rfl

theorem delSub_same {cmd : Cmd} (hcall : C.chatDelSub sid cmd = some (C', ret)) : C'.tab = C.tab := by
  unfold chatDelSub at hcall
  split at hcall
  · cases hcall
  split at hcall
  · cases hcall
    rfl
  split at hcall
  · cases hcall
  · cases hcall
    rfl
  · obtain ⟨p, -, heq⟩ := Option.map_eq_some_iff.1 hcall
    cases heq
    rfl

theorem placed_call (h : Placed len R S C.tab m) (c : Call) (hc : c.JoinsOnce R S C)
    (hcall : C.call c = some (C', ret)) : Placed len R S C'.tab (c.joins m ret) := by
  have hframe {T : ChatTab} (hT : T.rooms = C.tab.rooms ∧ T.sessions = C.tab.sessions) : Placed len R S T m :=
    ⟨h.ids, hT.2 ▸ h.sessions, hT.1 ▸ h.rooms⟩
  cases c with
  | addSession rid gid sid cid mem =>
    obtain ⟨⟨C₁, w⟩, hadd, heq⟩ := Option.map_eq_some_iff.1 hcall
    cases heq
    obtain ⟨⟨T, w'⟩, htab, heq⟩ := Option.map_eq_some_iff.1 hadd
    cases heq
    have hminus : ((w'.toNat : Int) = 4294967295) ↔ w' = -1 := by
      rw [← BitVec.toNat_inj]
      show _ ↔ w'.toNat = 4294967295
      omega
    unfold Call.joins
    simp only [hminus]
    exact h.addSession hc.1 hc.2.1 hc.2.2 htab
  | roomDelSession rid sid cid =>
    obtain ⟨C₁, hdel, heq⟩ := Option.map_eq_some_iff.1 hcall
    cases heq
    obtain ⟨T, htab, heq⟩ := Option.map_eq_some_iff.1 hdel
    cases heq
    exact h.roomDelSession hc.1 hc.2 htab
  | delSession sid cid =>
    obtain ⟨C₁, hdel, heq⟩ := Option.map_eq_some_iff.1 hcall
    cases heq
    unfold chatDelSession at hdel
    split at hdel
    · cases hdel
    obtain ⟨T, htab, heq⟩ := Option.map_eq_some_iff.1 hdel
    cases heq
    exact h.delSession hc htab
  | setSidToCid sid cid item node => exact hframe (setSidToCid_same hcall)
  | delSidToCid sid cid =>
    obtain ⟨C₁, hdel, heq⟩ := Option.map_eq_some_iff.1 hcall
    cases heq
    unfold chatDelSidToCid at hdel
    split at hdel
    · cases hdel
    obtain ⟨T, htab, heq⟩ := Option.map_eq_some_iff.1 hdel
    cases heq
    exact hframe (chatDelSidToCid_same htab)
  | addSub sid cmd item node =>
    have htab : C'.tab = C.tab := addSub_same hcall
    exact hframe (htab ▸ ⟨rfl, rfl⟩)
  | delSub sid cmd =>
    have htab : C'.tab = C.tab := delSub_same hcall
    exact hframe (htab ▸ ⟨rfl, rfl⟩)
  | delRoom rid =>
    obtain ⟨C₁, hdel, heq⟩ := Option.map_eq_some_iff.1 hcall
    cases heq
    obtain ⟨rooms, hrooms, heq⟩ := Option.map_eq_some_iff.1 hdel
    cases heq
    exact h.delRoom hc hrooms
  | clean pushed =>
    obtain ⟨C₁, hclean, heq⟩ := Option.map_eq_some_iff.1 hcall
    cases heq
    obtain ⟨T, htab, heq⟩ := Option.map_eq_some_iff.1 hclean
    cases heq
    exact h.clean htab

/-- A call, and who has joined then. -/
def joinStep (p : ChatState × Membership SessionKey Rid (BitVec 32)) (c : Call) :
    Option (ChatState × Membership SessionKey Rid (BitVec 32)) :=
  (p.1.call c).map fun q => (q.1, c.joins p.2 q.2)

/-- The state after the calls, and who has joined. -/
def joinRun (len : Nat) (calls : List Call) : Option (ChatState × Membership SessionKey Rid (BitVec 32)) :=
  calls.foldlM joinStep (chatTabInit len, fun _ => none)

/-- In every call of the run no session joins a second room. -/
def JoinsOnce (len : Nat) (R : Set Rid) (S : Set SessionKey) (calls : List Call) : Prop :=
  Guarded (fun p c => (joinStep p c).getD p) (fun p c => c.JoinsOnce R S p.1) (chatTabInit len, fun _ => none) calls

theorem joinRun_placed {calls : List Call} (hids : Ids len R S) (hcalls : JoinsOnce len R S calls)
    (hrun : joinRun len calls = some (C, m)) : Placed len R S C.tab m := by
  refine run_kept joinStep (fun p c => c.JoinsOnce R S p.1) (fun p => Placed len R S p.1.tab p.2) ?_ calls _ _
    (Placed.init hids) hcalls hrun
  intro p c q h hc hstep
  obtain ⟨⟨C₁, ret⟩, hcall, rfl⟩ := Option.map_eq_some_iff.1 hstep
  exact placed_call h c hc hcall

/-! ## The broadcast -/

/-- The traversal of group `g` visits each session that has joined the room under `g` once and no
other; that of group 0 all members. -/
def VisitsExactly (T : ChatTab) (m : Membership SessionKey Rid (BitVec 32)) (rid : Rid) (g : BitVec 32) : Prop :=
  ∃ keys, T.chatRoomTravSession rid (g.setWidth 16) = some keys ∧ keys.Nodup ∧
    ∀ key, key ∈ keys ↔ if g = 0 then m.lists key rid ≠ none else m.lists key rid = some g

/-- No member of the room is in another group that looks the same in 16 bits, as all do if these are
0. -/
def StandsAlone (m : Membership SessionKey Rid (BitVec 32)) (rid : Rid) (g : BitVec 32) : Prop :=
  ∀ key gid, m.lists key rid = some gid → gid ≠ g → g.setWidth 16 ≠ 0 ∧ gid.setWidth 16 ≠ g.setWidth 16

theorem visitsExactly_iff {T : ChatTab} (h : Placed len R S T m) (hr : rid ∈ R) (g : BitVec 32) :
    VisitsExactly T m rid g ↔ g = 0 ∨ StandsAlone m rid g := by
  obtain ⟨keys, htrav, hnodup, hmem⟩ := h.trav hr (g.setWidth 16)
  have hexact : VisitsExactly T m rid g ↔
      ∀ key, key ∈ keys ↔ if g = 0 then m.lists key rid ≠ none else m.lists key rid = some g := by
    unfold VisitsExactly
    rw [htrav]
    constructor
    · rintro ⟨keys', heq, -, hkeys⟩
      cases heq
      exact hkeys
    · exact fun hkeys => ⟨keys, rfl, hnodup, hkeys⟩
  rw [hexact]
  by_cases hzero : g = 0
  · subst hzero
    refine ⟨fun _ => .inl rfl, fun _ key => ?_⟩
    rw [hmem, if_pos rfl, Option.ne_none_iff_exists']
    constructor
    · rintro ⟨gid, hl, -⟩
      exact ⟨gid, hl⟩
    · rintro ⟨gid, hl⟩
      exact ⟨gid, hl, .inl rfl⟩
  · simp only [if_neg hzero, hmem]
    constructor
    · intro hkeys
      refine .inr fun key gid hl hne => ?_
      have hnot : ¬(g.setWidth 16 = 0 ∨ gid.setWidth 16 = g.setWidth 16) := by
        intro hor
        have hl' := (hkeys key).1 ⟨gid, hl, hor⟩
        rw [hl] at hl'
        exact hne (Option.some.inj hl')
      exact not_or.1 hnot
    · rintro (rfl | halone) key
      · exact absurd rfl hzero
      constructor
      · rintro ⟨gid, hl, hor⟩
        by_contra hno
        have hne : gid ≠ g := by
          rintro rfl
          exact hno hl
        obtain ⟨hz, hsame⟩ := halone key gid hl hne
        exact hor.elim hz hsame
      · exact fun hl => ⟨g, hl, .inr rfl⟩

/-- After any calls by which no session joins a second room, the traversal of a group is exact if
the group stands alone in the room; that of group 0 always is. -/
theorem trav_exact_iff {calls : List Call} (hids : Ids len R S) (hcalls : JoinsOnce len R S calls)
    (hrun : joinRun len calls = some (C, m)) (hr : rid ∈ R) (g : BitVec 32) :
    VisitsExactly C.tab m rid g ↔ g = 0 ∨ StandsAlone m rid g :=
  visitsExactly_iff (joinRun_placed hids hcalls hrun) hr g

theorem trav_exact_two : ∃ C m, joinRun 5 [.addSession 1 65537 1 1 .enough, .addSession 1 1 4 5 .enough] = some (C, m) ∧
    VisitsExactly C.tab m 1 0 := by
  have hsome : (joinRun 5 [.addSession 1 65537 1 1 .enough, .addSession 1 1 4 5 .enough]).isSome := by decide +kernel
  obtain ⟨⟨C, m⟩, hrun⟩ := Option.isSome_iff_exists.1 hsome
  have hcalls : JoinsOnce 5 {r | 0 ≤ r.toInt} {k | 0 ≤ k.1.toInt ∧ 0 ≤ k.2.toInt}
      [.addSession 1 65537 1 1 .enough, .addSession 1 1 4 5 .enough] := by
    refine ⟨⟨by decide, by decide, by decide⟩, ⟨by decide, by decide, ?_⟩, trivial⟩
    decide +kernel
  exact ⟨C, m, hrun, (trav_exact_iff (ids_of_nonneg (by decide) (by decide)) hcalls hrun (by decide) 0).2 (.inl rfl)⟩

/-- A session of group 65537 is visited for group 1. -/
theorem large_group_leaks : ¬∀ (len : Nat) (calls : List Call) (C : ChatState)
    (m : Membership SessionKey Rid (BitVec 32))
    (rid : Rid) (g : BitVec 32), 0 < len → len < 2 ^ 31 → joinRun len calls = some (C, m) →
    VisitsExactly C.tab m rid g := by
  intro h
  have hview : (joinRun 1 [.addSession 1 65537 1 1 .enough]).map (fun p =>
      (p.1.tab.chatRoomTravSession 1 1, p.2.lists (1, 1) 1)) = some (some [(1, 1)], some 65537) := by decide +kernel
  obtain ⟨⟨C, m⟩, hrun, hview⟩ := Option.map_eq_some_iff.1 hview
  simp only [Prod.mk.injEq] at hview
  obtain ⟨htrav, hlists⟩ := hview
  obtain ⟨keys, hkeys, -, hmem⟩ := h 1 _ C m 1 1 (by decide) (by decide) hrun
  rw [show (1 : BitVec 32).setWidth 16 = 1 from rfl, htrav] at hkeys
  cases hkeys
  have hl := (hmem (1, 1)).1 List.mem_cons_self
  rw [if_neg (by decide), hlists] at hl
  cases hl

end ChatState

end BeehiveIm.Chat
