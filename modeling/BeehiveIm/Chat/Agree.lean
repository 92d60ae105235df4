/-
The chat tables of the C side and of the Go side, run side by side. Both refine `Membership`, so
both hand the same sessions to a broadcast.
-/
import BeehiveIm.Chat.Run
import BeehiveIm.GoChat.Run

namespace BeehiveIm.Chat

open BeehiveIm.Lib BeehiveIm.Core

variable {len : Nat} {R : Set Rid} {S : Set SessionKey} {m : Membership SessionKey Rid (BitVec 32)}

/-! ## What a broadcast sees -/

theorem ChatTab.Shows.chatRoomTravSession {T : ChatTab} (h : T.Shows len R S m) {rid : Rid} (hr : rid ∈ R)
    (gid : BitVec 16) : ∃ keys, T.chatRoomTravSession rid gid = some keys ∧
      ∀ key, key ∈ keys ↔ ∃ g : BitVec 16, (gid = 0 ∨ g = gid) ∧ m.lists key rid = some (g.setWidth 32) := by
  unfold ChatTab.chatRoomTravSession
  rcases h.rooms.query hr with ⟨room, hq⟩ | ⟨hq, hno⟩
  · obtain ⟨rfl, hok⟩ := h.rooms.queried hq
    obtain ⟨keys, htrav, hmem⟩ := hok.chatGroupTrav gid
    exact ⟨keys, by rw [hq]; exact htrav, hmem⟩
  · refine ⟨[], by rw [hq], fun key => ?_⟩
    simp only [List.not_mem_nil, false_iff]
    rintro ⟨g, -, hl⟩
    exact hno g key hl

/-! ## Calls on both tables -/

/-- `order` is that in which the Go side ranges over the rooms of the session. -/
inductive TabOp where
  | join (rid : Rid) (gid : BitVec 16) (sid cid : BitVec 64)
  | quit (rid : Rid) (sid cid : BitVec 64)
  | delSession (sid cid : BitVec 64) (order : List (Rid × BitVec 32))

namespace TabOp

/-- The call on the C side; the allocator has memory. -/
def onC : TabOp → ChatTab.Op
  | join rid gid sid cid => .addSession rid gid sid cid .enough
  | quit rid sid cid => .roomDelSession rid sid cid
  | delSession sid cid _ => .delSession sid cid

def onGo (π : Type) : TabOp → GoChat.ChatTab.Op π
  | join rid gid sid cid => .roomJoin rid (gid.setWidth 32) sid cid
  | quit rid sid cid => .roomQuit rid sid cid
  | delSession sid cid order => .sessionDel sid cid order

end TabOp

/-- Where it is safe, a call does the same to the membership on both sides. -/
theorem apply_eq {T : ChatTab} (h : T.Shows len R S m) (π : Type) (op : TabOp) (hop : T.Safe R S op.onC) :
    ChatTab.Op.apply m op.onC = GoChat.ChatTab.Op.apply m (op.onGo π) := by
  cases op with
  | quit | delSession => rfl
  | join rid gid sid cid =>
    obtain ⟨-, hk, hsafe⟩ := hop
    simp only [TabOp.onC, TabOp.onGo, ChatTab.Op.apply, GoChat.ChatTab.Op.apply]
    split
    · rename_i hsome
      have hsome : (m (sid, cid)).isSome := hsome.resolve_right (by decide)
      -- the session is in the table, so it lists the room already
      rcases h.sessions.query hk with ⟨session, rooms, hq, -⟩ | ⟨-, hno⟩
      · rw [ChatTab.AddsSafely, hq, Option.join_some, Option.isSome_some, if_pos rfl] at hsafe
        have hlists : T.lists (sid, cid) rid = m.lists (sid, cid) rid := h.sessions.lists _ _
        obtain ⟨gid', hgid⟩ := Option.isSome_iff_exists.1 (hsafe rfl)
        rw [Membership.join_of_lists (hlists.symm.trans hgid)]
      · rw [hno] at hsome
        cases hsome
    · rfl

/-- Both tables are run through the calls, and show the same membership in the end. -/
theorem agree_run {π : Type} : ∀ (ops : List TabOp) {T : ChatTab} {G : GoChat.ChatTab π}
    {m : Membership SessionKey Rid (BitVec 32)}, T.Shows len R S m → G.Shows m →
    Guarded (fun T op => (T.step op).getD T) (ChatTab.Safe R S) T (ops.map TabOp.onC) →
    ∃ T' G' m', (ops.map TabOp.onC).foldlM ChatTab.step T = some T' ∧
      (ops.map (TabOp.onGo π)).foldlM GoChat.ChatTab.step G = some G' ∧ T'.Shows len R S m' ∧ G'.Shows m'
  | [], T, G, m, hT, hG, _ => ⟨T, G, m, rfl, rfl, hT, hG⟩
  | op :: ops, T, G, m, hT, hG, hops => by
    obtain ⟨T₁, hT₁, hshowsT⟩ := hT.step op.onC hops.1
    obtain ⟨G₁, hG₁, hshowsG⟩ := hG.step (op.onGo π)
    rw [← apply_eq hT π op hops.1] at hshowsG
    have hrest : Guarded (fun T op => (T.step op).getD T) (ChatTab.Safe R S) T₁ (ops.map TabOp.onC) := by
      simpa [hT₁] using hops.2
    obtain ⟨T', G', m', hrunT, hrunG, hT', hG'⟩ := agree_run ops hshowsT hshowsG hrest
    refine ⟨T', G', m', ?_, ?_, hT', hG'⟩
    · rw [List.map_cons, List.foldlM_cons, hT₁]
      exact hrunT
    · rw [List.map_cons, List.foldlM_cons, hG₁]
      exact hrunG

/-- After calls that are safe on the C side, every broadcast reaches the same
sessions on both sides. -/
theorem chat_tables_agree (π : Type) (len : Nat) (R : Set Rid) (S : Set SessionKey) (hids : Ids len R S)
    (ops : List TabOp) (hops : Guarded (fun T op => (T.step op).getD T) (ChatTab.Safe R S) (ChatTab.chatTabInit len)
      (ops.map TabOp.onC)) :
    ∃ T G, (ops.map TabOp.onC).foldlM ChatTab.step (ChatTab.chatTabInit len) = some T ∧
      (ops.map (TabOp.onGo π)).foldlM GoChat.ChatTab.step (GoChat.ChatTab.init π) = some G ∧
      ∀ rid ∈ R, ∀ gid : BitVec 16, ∃ keys, T.chatRoomTravSession rid gid = some keys ∧
        ∀ key, key ∈ keys ↔ key ∈ G.travRoomSession rid (gid.setWidth 32) := by
  obtain ⟨T, G, m, hT, hG, hshowsT, hshowsG⟩ :=
    agree_run (π := π) ops (ChatTab.chatTabInit_shows hids) GoChat.ChatTab.init_shows hops
  refine ⟨T, G, hT, hG, fun rid hr gid => ?_⟩
  obtain ⟨keys, htrav, hkeys⟩ := hshowsT.chatRoomTravSession hr gid
  refine ⟨keys, htrav, fun key => ?_⟩
  rw [hkeys, hshowsG.mem_travRoomSession]
  have hzero : gid.setWidth 32 = (0 : BitVec 16).setWidth 32 ↔ gid = 0 := setWidth_inj
  constructor
  · rintro ⟨g, hg, hl⟩
    exact ⟨g.setWidth 32, hg.imp hzero.2 setWidth_inj.2, hl⟩
  · rintro ⟨g, hg, hl⟩
    obtain ⟨g, rfl⟩ := hshowsT.gids key rid g hl
    exact ⟨g, hg.imp hzero.1 setWidth_inj.1, hl⟩

theorem chat_tables_agree_two : ∃ T G,
    ([.join 1 1 1 1, .join 1 3 4 5, .join 1 2 4 5, .quit 1 1 1, .delSession 4 5 []].map TabOp.onC).foldlM ChatTab.step
      (ChatTab.chatTabInit 5) = some T ∧
    ([.join 1 1 1 1, .join 1 3 4 5, .join 1 2 4 5, .quit 1 1 1, .delSession 4 5 []].map (TabOp.onGo Unit)).foldlM
      GoChat.ChatTab.step (GoChat.ChatTab.init Unit) = some G ∧
    ∀ rid ∈ {r : Rid | 0 ≤ r.toInt}, ∀ gid : BitVec 16, ∃ keys, T.chatRoomTravSession rid gid = some keys ∧
      ∀ key, key ∈ keys ↔ key ∈ G.travRoomSession rid (gid.setWidth 32) := by
  refine chat_tables_agree Unit 5 _ _ (ids_of_nonneg (by decide) (by decide)) _ ⟨?_, ?_, ?_, ?_, ?_, trivial⟩
  · exact ⟨by decide, by decide, by decide⟩
  · exact ⟨by decide, by decide, by decide⟩
  · exact ⟨by decide, by decide, by decide⟩
  · exact ⟨by decide, by decide⟩
  · exact ⟨by decide, by decide +kernel⟩

/-- When a session joins a second room, only the Go side broadcasts to it there. -/
theorem second_room_disagrees : ¬∀ (len : Nat) (ops : List TabOp), 0 < len → len < 2 ^ 31 →
    ∃ T G, (ops.map TabOp.onC).foldlM ChatTab.step (ChatTab.chatTabInit len) = some T ∧
      (ops.map (TabOp.onGo Unit)).foldlM GoChat.ChatTab.step (GoChat.ChatTab.init Unit) = some G ∧
      ∀ (rid : Rid) (gid : BitVec 16), ∃ keys, T.chatRoomTravSession rid gid = some keys ∧
        ∀ key, key ∈ keys ↔ key ∈ G.travRoomSession rid (gid.setWidth 32) := by
  intro h
  obtain ⟨T, G, hT, hG, htrav⟩ := h 1 [.join 1 1 1 1, .join 2 1 1 1] (by decide) (by decide)
  obtain ⟨keys, hkeys, hmem⟩ := htrav 2 1
  have hC : (([.join 1 1 1 1, .join 2 1 1 1].map TabOp.onC).foldlM ChatTab.step (ChatTab.chatTabInit 1)).bind
      (·.chatRoomTravSession 2 1) = some [] := by decide
  have hGo : (([.join 1 1 1 1, .join 2 1 1 1].map (TabOp.onGo Unit)).foldlM GoChat.ChatTab.step
      (GoChat.ChatTab.init Unit)).map (fun G => decide ((1, 1) ∈ G.travRoomSession 2 1)) = some true := by decide
  rw [hT, Option.bind_some, hkeys, Option.some.injEq] at hC
  rw [hG, Option.map_some, Option.some.injEq, decide_eq_true_eq] at hGo
  rw [hC] at hmem
  cases (hmem (1, 1)).2 hGo

end BeehiveIm.Chat
