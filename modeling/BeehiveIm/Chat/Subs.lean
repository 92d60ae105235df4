/-
What `chat_has_sub` answers after any calls. It asks for the session of `sid` on the
connection that its stack happens to hold, while `chat_add_sub` and `chat_del_sub` take the
connection from the index.
-/
import BeehiveIm.Chat.Calls.Ledger

namespace BeehiveIm.Chat

open BeehiveIm.Lib BeehiveIm.Core

namespace ChatState

variable {len : Nat} {R : Set Rid} {S : Set SessionKey} {C : ChatState} {L : Ledger} {sid word : BitVec 64} {cmd : Cmd}

/-- A session is looked for by its `sid` first, so that any connection may be asked for. -/
theorem Recorded.querySession (h : C.Recorded len R S L) (hsid : sid ∈ Prod.fst '' S) (word : BitVec 64) :
    (∃ session, sessionKey.query ChatSession.key C.tab.sessions (sid, word) = some (some session) ∧
    session.key = (sid, word)) ∨
    sessionKey.query ChatSession.key C.tab.sessions (sid, word) = some none ∧ L.subs (sid, word) = none := by
  obtain ⟨m, ⟨ss, hst, hok, hex⟩, hdom⟩ := h.sessions
  obtain ⟨key, hkey, rfl⟩ := hsid
  have hhash : HashOk C.tab.sessions.len (sessionKey.hash (key.1, word)) := by
    have hhash := hst.hashOk hkey
    exact hhash
  rw [hst.holds.query hhash]
  cases hl : lookup ChatSession.key ss (key.1, word) with
  | some session => exact .inl ⟨session, rfl, (lookup_mem hl).2⟩
  | none =>
    refine .inr ⟨rfl, ?_⟩
    by_contra hsome
    obtain ⟨session, hmem, heq⟩ := hex (key.1, word) ((hdom _).2 (Option.isSome_iff_ne_none.2 hsome))
    exact lookup_eq_none.1 hl session hmem heq

/-- The answer is about the session on connection `word`. -/
theorem Recorded.chatHasSub (h : C.Recorded len R S L) (hsid : sid ∈ Prod.fst '' S) (cmd : Cmd) (word : BitVec 64) :
    ∃ b, C.chatHasSub sid cmd word = some b ∧ (b ↔ L.Has (sid, word) cmd) := by
  unfold ChatState.chatHasSub
  rcases h.querySession hsid word with ⟨session, hq, hkey⟩ | ⟨hq, hnone⟩
  · obtain ⟨-, s, hs, hsub⟩ := h.session hq
    obtain ⟨item, hitem, hiff⟩ := hsub.query cmd
    rw [hq]
    dsimp only
    rw [hkey, hitem]
    refine ⟨item.isSome, rfl, hiff.trans ⟨fun hc => ⟨s, hs, hc⟩, ?_⟩⟩
    rintro ⟨s', hs', hc⟩
    obtain rfl : s = s' := Option.some.inj (hs.symm.trans hs')
    exact hc
  · rw [hq]
    refine ⟨false, rfl, ?_⟩
    simp only [Bool.false_eq_true, false_iff]
    rintro ⟨s, hs, -⟩
    rw [hnone] at hs
    cases hs

/-- After any calls, the answer is about the session of `sid` on its connection if that
connection is what the stack holds, or if the session on the one that it holds has subscribed
to the command just so. -/
theorem has_sub_iff {calls : List Call} (hids : Ids len R S) (hcalls : ∀ c ∈ calls, c.WithIds R S)
    (hrun : run len calls = some (C, L)) (hsid : sid ∈ Prod.fst '' S) (cmd : Cmd) (word : BitVec 64) :
    (∃ b, C.chatHasSub sid cmd word = some b ∧ (b ↔ L.Subscribed sid cmd)) ↔
      L.cidOf sid = some word ∨ (L.Has (sid, word) cmd ↔ L.Subscribed sid cmd) := by
  obtain ⟨b, hb, hiff⟩ := (run_recorded hids hcalls hrun).chatHasSub hsid cmd word
  rw [hb]
  constructor
  · rintro ⟨b', heq, hsub⟩
    cases heq
    exact .inr (hiff.symm.trans hsub)
  · rintro (hcid | hsame)
    · refine ⟨b, rfl, hiff.trans ⟨fun hhas => ⟨word, hcid, hhas⟩, ?_⟩⟩
      rintro ⟨cid, hcid', hhas⟩
      rw [hcid] at hcid'
      cases hcid'
      exact hhas
    · exact ⟨b, rfl, hiff.trans hsame⟩

theorem has_sub_two : ∃ C L, run 5 [.addSession 1 1 1 2 .enough, .setSidToCid 1 2 true true, .addSub 1 7 true true] =
    some (C, L) ∧ ∃ b, C.chatHasSub 1 7 2 = some b ∧ (b ↔ L.Subscribed 1 7) := by
  have hcid : ((run 5 [.addSession 1 1 1 2 .enough, .setSidToCid 1 2 true true, .addSub 1 7 true true]).map fun p =>
      p.2.cidOf 1) = some (some 2) := by decide +kernel
  obtain ⟨⟨C, L⟩, hrun, hcid⟩ := Option.map_eq_some_iff.1 hcid
  have hmem : (1 : BitVec 64) ∈ Prod.fst '' {k : SessionKey | 0 ≤ k.1.toInt ∧ 0 ≤ k.2.toInt} := ⟨(1, 1), by decide, rfl⟩
  refine ⟨C, L, hrun, (has_sub_iff (ids_of_nonneg (by decide) (by decide)) ?_ hrun hmem 7 2).2 (.inl hcid)⟩
  refine List.forall_mem_cons.2 ⟨⟨by decide, by decide⟩, List.forall_mem_cons.2 ⟨hmem, ?_⟩⟩
  exact List.forall_mem_singleton.2 hmem

/-- With another word on the stack, a subscription is not found. -/
theorem sub_not_found : ¬∀ (len : Nat) (calls : List Call) (C : ChatState) (L : Ledger) (sid : BitVec 64) (cmd : Cmd)
    (word : BitVec 64), 0 < len → len < 2 ^ 31 → run len calls = some (C, L) →
    ∃ b, C.chatHasSub sid cmd word = some b ∧ (b ↔ L.Subscribed sid cmd) := by
  intro h
  have hview : ((run 1 [.addSession 1 1 1 2 .enough, .setSidToCid 1 2 true true, .addSub 1 7 true true]).map fun p =>
      (p.2.cidOf 1, p.1.chatHasSub 1 7 2, p.1.chatHasSub 1 7 0)) = some (some 2, some true, some false) := by
      decide +kernel
  obtain ⟨⟨C, L⟩, hrun, hview⟩ := Option.map_eq_some_iff.1 hview
  simp only [Prod.mk.injEq] at hview
  obtain ⟨hcid, htrue, hfalse⟩ := hview
  have hmem : (1 : BitVec 64) ∈ Prod.fst '' {k : SessionKey | 0 ≤ k.1.toInt ∧ 0 ≤ k.2.toInt} := ⟨(1, 1), by decide, rfl⟩
  have hrec := run_recorded (ids_of_nonneg (by decide) (by decide)) (by
    exact List.forall_mem_cons.2 ⟨⟨by decide, by decide⟩, List.forall_mem_cons.2
      ⟨hmem, List.forall_mem_singleton.2 hmem⟩⟩) hrun
  -- the session on connection 2 has subscribed
  obtain ⟨b, hb, hhas⟩ := hrec.chatHasSub hmem 7 2
  rw [htrue] at hb
  cases hb
  obtain ⟨b, hb, hsub⟩ := h 1 _ C L 1 7 0 (by decide) (by decide) hrun
  rw [hfalse] at hb
  cases hb
  exact Bool.false_ne_true (hsub.2 ⟨2, hcid, hhas.1 rfl⟩)

end ChatState

end BeehiveIm.Chat
