/-
The sessions of the chat table and the rooms they list, against a `Membership`.
-/
import BeehiveIm.Chat.Members
import BeehiveIm.Chat.Membership

namespace BeehiveIm.Chat

open BeehiveIm.Lib BeehiveIm.Core

variable {len : Nat} {R : Set Rid} {S : Set SessionKey} {key : SessionKey} {rid : Rid} {gid : BitVec 32}

theorem Ids.items (h : Ids len R S) : KeySet itemKey chatSessionSlotLen R :=
  ⟨fun _ _ => .inl (Int.natCast_nonneg _), h.rooms.cmpOn⟩

/-- The session lists room `rid` under group `rooms rid`. -/
def SessionOk (R : Set Rid) (session : ChatSession) (rooms : Rid → Option (BitVec 32)) : Prop :=
  ∃ items, Stored itemKey ChatRoomItem.rid R chatSessionSlotLen session.room items ∧
    ∀ rid, (lookup ChatRoomItem.rid items rid).map ChatRoomItem.gid = rooms rid

/-- The sessions are those of `m`, and list the rooms that `m` says. -/
def SessionsOk (len : Nat) (R : Set Rid) (S : Set SessionKey) (sessions : HashTab ChatSession)
    (m : Membership SessionKey Rid (BitVec 32)) : Prop :=
  ∃ ss, Stored sessionKey ChatSession.key S len sessions ss ∧
    (∀ session ∈ ss, ∃ rooms, m session.key = some rooms ∧ SessionOk R session rooms) ∧
    ∀ k, (m k).isSome → ∃ session ∈ ss, session.key = k

section Session

variable {session : ChatSession} {rooms : Rid → Option (BitVec 32)}

theorem SessionOk.query (h : SessionOk R session rooms) (hr : rid ∈ R) :
    ∃ item, itemKey.query ChatRoomItem.rid session.room rid = some item ∧ item.map ChatRoomItem.gid = rooms rid := by
  obtain ⟨items, hst, hrooms⟩ := h
  exact ⟨_, hst.query hr, hrooms rid⟩

/-- Whatever the room, only one that is listed is found. -/
theorem SessionOk.lists (h : SessionOk R session rooms) (rid : Rid) :
    (itemKey.query ChatRoomItem.rid session.room rid).join.map ChatRoomItem.gid = rooms rid := by
  obtain ⟨items, hst, hrooms⟩ := h
  rw [← hrooms]
  congr 1
  exact Option.ext fun item => by rw [Option.join_eq_some_iff, hst.query_eq_some]

theorem SessionOk.delete (h : SessionOk R session rooms) (hr : rid ∈ R) :
    ∃ room item, itemKey.delete ChatRoomItem.rid session.room rid = some (room, item) ∧
      item.map ChatRoomItem.gid = rooms rid ∧ (∀ i ∈ item, i.rid = rid) ∧
      SessionOk R { session with room := room } (Function.update rooms rid none) := by
  obtain ⟨items, hst, hrooms⟩ := h
  obtain ⟨room, hdel, hst'⟩ := hst.delete hr
  refine ⟨room, _, hdel, hrooms rid, fun i hi => (lookup_mem hi).2, _, hst', fun r => ?_⟩
  rw [lookup_without, Function.update_apply]
  split
  · rfl
  · exact hrooms r

theorem SessionOk.trav (h : SessionOk R session rooms) :
    ∃ items, session.room.hashTabTrav = some items ∧ (∀ item ∈ items, item.rid ∈ R) ∧
      ∀ rid gid, rooms rid = some gid ↔ ∃ item ∈ items, item.rid = rid ∧ item.gid = gid := by
  obtain ⟨live, hst, hrooms⟩ := h
  obtain ⟨items, htrav, hperm⟩ := hst.trav
  refine ⟨items, htrav, fun item hitem => hst.keys item (hperm.mem_iff.1 hitem), fun rid gid => ?_⟩
  rw [← hrooms, Option.map_eq_some_iff]
  constructor
  · rintro ⟨item, hl, rfl⟩
    obtain ⟨hmem, hrid⟩ := lookup_mem hl
    exact ⟨item, hperm.mem_iff.2 hmem, hrid, rfl⟩
  · rintro ⟨item, hitem, rfl, rfl⟩
    exact ⟨item, lookup_eq_some hst.nodup (hperm.mem_iff.1 hitem), rfl⟩

end Session

section Sessions

variable {sessions : HashTab ChatSession} {session : ChatSession} {m : Membership SessionKey Rid (BitVec 32)}
  {rooms : Rid → Option (BitVec 32)}

theorem sessionsOk_empty (h : Ids len R S) :
    SessionsOk len R S (HashTab.hashTabCreat ChatSession len) fun _ => none :=
  ⟨[], hashTabCreat_stored h.pos h.lt h.sessions, by simp, by simp⟩

theorem SessionsOk.query (h : SessionsOk len R S sessions m) (hk : key ∈ S) :
    (∃ session rooms, sessionKey.query ChatSession.key sessions key = some (some session) ∧ session.key = key ∧
      m key = some rooms ∧ SessionOk R session rooms) ∨
    sessionKey.query ChatSession.key sessions key = some none ∧ m key = none := by
  obtain ⟨ss, hst, hok, hex⟩ := h
  rw [hst.query hk]
  cases hl : lookup ChatSession.key ss key with
  | some session =>
    obtain ⟨hs, rfl⟩ := lookup_mem hl
    obtain ⟨rooms, hm, hok⟩ := hok session hs
    exact .inl ⟨session, rooms, rfl, rfl, hm, hok⟩
  | none =>
    refine .inr ⟨rfl, ?_⟩
    by_contra hno
    obtain ⟨session, hs, hkey⟩ := hex key (Option.isSome_iff_ne_none.2 hno)
    exact lookup_eq_none.1 hl session hs hkey

theorem SessionsOk.lists (h : SessionsOk len R S sessions m) (key : SessionKey) (rid : Rid) :
    ((sessionKey.query ChatSession.key sessions key).join.bind fun session =>
      (itemKey.query ChatRoomItem.rid session.room rid).join).map ChatRoomItem.gid = m.lists key rid := by
  obtain ⟨ss, hst, hok, hex⟩ := h
  cases hq : (sessionKey.query ChatSession.key sessions key).join with
  | some session =>
    obtain ⟨hs, rfl⟩ := lookup_mem (hst.query_eq_some.1 (Option.join_eq_some_iff.1 hq))
    obtain ⟨rooms, hm, hok⟩ := hok session hs
    rw [Option.bind_some, hok.lists, Membership.lists, hm]
    rfl
  | none =>
    have hnone : m key = none := by
      by_contra hno
      obtain ⟨session, hs, rfl⟩ := hex key (Option.isSome_iff_ne_none.2 hno)
      rw [hst.query_eq_some.2 (lookup_eq_some hst.nodup hs)] at hq
      cases hq
    rw [Membership.lists, hnone]
    rfl

/-- A session with its first room is put into the table. -/
theorem SessionsOk.insert (h : SessionsOk len R S sessions m) (session : ChatSession) (hk : key ∈ S)
    (hno : m key = none) (hkey : session.key = key) (hok' : SessionOk R session rooms) :
    ∃ sessions', sessionKey.insert ChatSession.key sessions session true = some (sessions', .ok) ∧
      SessionsOk len R S sessions' (Function.update m key (some rooms)) := by
  subst hkey
  obtain ⟨ss, hst, hok, hex⟩ := h
  have hne : ∀ s ∈ ss, s.key ≠ session.key := by
    intro s hs heq
    obtain ⟨rooms, hm, -⟩ := hok s hs
    rw [heq, hno] at hm
    cases hm
  obtain ⟨sessions', hins, hst'⟩ := hst.insert_ok hk (lookup_eq_none.2 hne)
  refine ⟨sessions', hins, _, hst', List.forall_mem_cons.2 ⟨⟨rooms, by simp, hok'⟩, fun s hs => ?_⟩, fun k hsome => ?_⟩
  · obtain ⟨rooms', hm, hok⟩ := hok s hs
    exact ⟨rooms', by rwa [Function.update_of_ne (hne s hs)], hok⟩
  · rcases eq_or_ne k session.key with rfl | hne
    · exact ⟨session, List.mem_cons_self, rfl⟩
    · rw [Function.update_of_ne hne] at hsome
      obtain ⟨s, hs, hkey⟩ := hex k hsome
      exact ⟨s, List.mem_cons_of_mem _ hs, hkey⟩

theorem SessionsOk.insert_err (h : SessionsOk len R S sessions m) (session : ChatSession) (hk : key ∈ S)
    (hno : m key = none) (hkey : session.key = key) :
    sessionKey.insert ChatSession.key sessions session false = some (sessions, .err) := by
  subst hkey
  obtain ⟨ss, hst, hok, -⟩ := h
  refine hst.insert_err hk (lookup_eq_none.2 fun s hs heq => ?_)
  obtain ⟨rooms, hm, -⟩ := hok s hs
  rw [heq, hno] at hm
  cases hm

/-- The rooms of one session are written. -/
theorem SessionsOk.write (h : SessionsOk len R S sessions m) (hk : key ∈ S)
    (hq : sessionKey.query ChatSession.key sessions key = some (some session)) {room : HashTab ChatRoomItem}
    (hok' : SessionOk R { session with room := room } rooms) :
    ∃ sessions', sessionKey.write ChatSession.key sessions key (fun s => { s with room := room }) = some sessions' ∧
      SessionsOk len R S sessions' (Function.update m key (some rooms)) := by
  obtain ⟨ss, hst, hok, hex⟩ := h
  obtain ⟨hs, hkey⟩ := lookup_mem (hst.query_eq_some.1 hq)
  obtain ⟨sessions', hw, hst'⟩ := hst.write hk (g := fun s => { s with room := room }) fun _ => rfl
  refine ⟨sessions', hw, _, hst', ?_, fun k hsome => ?_⟩
  · refine forall_writeAt (Q := fun k session => ∃ rooms', Function.update m key (some rooms) k = some rooms' ∧
      SessionOk R session rooms') (fun _ => rfl) (fun s hs hne => ?_) fun s _ _ => ⟨rooms, by simp, hok'⟩
    obtain ⟨rooms', hm, hok⟩ := hok s hs
    exact ⟨rooms', by rwa [Function.update_of_ne hne], hok⟩
  · have hmem : k ∈ ss.map ChatSession.key := by
      rcases eq_or_ne k key with rfl | hne
      · exact hkey ▸ List.mem_map_of_mem hs
      · rw [Function.update_of_ne hne] at hsome
        obtain ⟨s, hs, rfl⟩ := hex k hsome
        exact List.mem_map_of_mem hs
    rw [← map_key_writeAt (k := key) (g := fun s : ChatSession => { s with room := room }) fun _ => rfl] at hmem
    exact List.mem_map.1 hmem

theorem SessionsOk.delete (h : SessionsOk len R S sessions m) (hk : key ∈ S) :
    ∃ sessions', SessionsOk len R S sessions' (m.del key) ∧
      ((∃ session rooms, sessionKey.delete ChatSession.key sessions key = some (sessions', some session) ∧
          session.key = key ∧ m key = some rooms ∧ SessionOk R session rooms) ∨
        sessionKey.delete ChatSession.key sessions key = some (sessions', none) ∧ m key = none) := by
  have hquery := h.query hk
  obtain ⟨ss, hst, hok, hex⟩ := h
  obtain ⟨sessions', hdel, hst'⟩ := hst.delete hk
  rw [hst.query hk] at hquery
  refine ⟨sessions', ⟨_, hst', fun s hs => ?_, fun k hsome => ?_⟩, ?_⟩
  · obtain ⟨hs, hne⟩ := mem_without.1 hs
    obtain ⟨rooms, hm, hok⟩ := hok s hs
    exact ⟨rooms, by rwa [Membership.del, Function.update_of_ne hne], hok⟩
  · rcases eq_or_ne k key with rfl | hne
    · simp [Membership.del] at hsome
    · rw [Membership.del, Function.update_of_ne hne] at hsome
      obtain ⟨s, hs, rfl⟩ := hex k hsome
      exact ⟨s, mem_without.2 ⟨hs, hne⟩, rfl⟩
  · rcases hquery with ⟨session, rooms, hl, hrest⟩ | ⟨hl, hno⟩
    · exact .inl ⟨session, rooms, by rw [hdel, Option.some.inj hl], hrest⟩
    · exact .inr ⟨by rw [hdel, Option.some.inj hl], hno⟩

end Sessions

end BeehiveIm.Chat
