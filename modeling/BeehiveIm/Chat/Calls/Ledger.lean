/-
What the chat table is for, beside its rooms: which sessions there are, on which connection
each session id is, and the commands each session has subscribed to. Every call does to the
tables what it does to this.
-/
import BeehiveIm.Chat.Calls.Kept

namespace BeehiveIm.Chat

open BeehiveIm.Lib BeehiveIm.Core

/-- The connection of each session id, and the commands of each session there is. -/
structure Ledger where
  cidOf : BitVec 64 → Option (BitVec 64)
  subs : SessionKey → Option (Cmd → Prop)

namespace Ledger

/-- The session has subscribed to the command. -/
def Has (L : Ledger) (key : SessionKey) (cmd : Cmd) : Prop := ∃ s, L.subs key = some s ∧ s cmd

/-- The session on the connection of `sid` has subscribed to the command. -/
def Subscribed (L : Ledger) (sid : BitVec 64) (cmd : Cmd) : Prop := ∃ cid, L.cidOf sid = some cid ∧ L.Has (sid, cid) cmd

def empty : Ledger := ⟨fun _ => none, fun _ => none⟩

/-- The commands of the session of `sid`, if there is one, are changed. -/
def alter (L : Ledger) (sid : BitVec 64) (f : (Cmd → Prop) → Cmd → Prop) : Ledger :=
  match L.cidOf sid with
  | none => L
  | some cid => { L with subs := Function.update L.subs (sid, cid) ((L.subs (sid, cid)).map f) }

/-- Session id `sid` is no longer on connection `cid`. -/
def forget (L : Ledger) (sid cid : BitVec 64) : Ledger :=
  if L.cidOf sid = some cid then { L with cidOf := Function.update L.cidOf sid none } else L

/-- A call, with its answer, goes into the books. -/
def record (L : Ledger) : ChatState.Call → Int → Ledger
  | .addSession _ _ sid cid _, ret =>
    if ret = 0 ∧ (L.subs (sid, cid)).isNone then
      { L with subs := Function.update L.subs (sid, cid) (some fun _ => False) }
    else L
  | .delSession sid cid, _ =>
    let L := L.forget sid cid
    { L with subs := Function.update L.subs (sid, cid) none }
  | .setSidToCid sid cid _ _, ret =>
    { L with cidOf := Function.update L.cidOf sid (if ret = 0 then some cid else none) }
  | .delSidToCid sid cid, _ => L.forget sid cid
  | .addSub sid cmd _ _, ret => if ret = 0 then L.alter sid fun s c => c = cmd ∨ s c else L
  | .delSub sid cmd, ret => if ret = 0 then L.alter sid fun s c => s c ∧ c ≠ cmd else L
  | .roomDelSession .., _ | .delRoom _, _ | .clean _, _ => L

end Ledger

/-! ## The index -/

variable {len : Nat} {R : Set Rid} {S : Set SessionKey}

/-- The index has the connections `cidOf`. -/
def IndexOk (len : Nat) (S : Set SessionKey) (sid2cids : HashTab SessionKey) (cidOf : BitVec 64 → Option (BitVec 64)) :
    Prop :=
  ∃ items, Stored idKey Prod.fst (Prod.fst '' S) len sid2cids items ∧
  ∀ sid, (lookup Prod.fst items sid).map Prod.snd = cidOf sid

namespace IndexOk

variable {sid2cids : HashTab SessionKey} {cidOf : BitVec 64 → Option (BitVec 64)} {sid cid : BitVec 64}

theorem query (h : IndexOk len S sid2cids cidOf) (hsid : sid ∈ Prod.fst '' S) :
    ∃ item, idKey.query Prod.fst sid2cids sid = some item ∧ item.map Prod.snd = cidOf sid := by
  obtain ⟨items, hst, hcids⟩ := h
  exact ⟨_, hst.query hsid, hcids sid⟩

theorem delete (h : IndexOk len S sid2cids cidOf) (hsid : sid ∈ Prod.fst '' S) :
    ∃ sid2cids' item, idKey.delete Prod.fst sid2cids sid = some (sid2cids', item) ∧
      IndexOk len S sid2cids' (Function.update cidOf sid none) := by
  obtain ⟨items, hst, hcids⟩ := h
  obtain ⟨sid2cids', hdel, hst'⟩ := hst.delete hsid
  refine ⟨sid2cids', _, hdel, _, hst', fun s => ?_⟩
  rw [lookup_without, Function.update_apply]
  split
  · rfl
  · exact hcids s

theorem insert (h : IndexOk len S sid2cids cidOf) (hsid : sid ∈ Prod.fst '' S) (hno : cidOf sid = none)
    (cid : BitVec 64) : (∃ sid2cids', idKey.insert Prod.fst sid2cids (sid, cid) true = some (sid2cids', .ok) ∧
      IndexOk len S sid2cids' (Function.update cidOf sid (some cid))) ∧
    idKey.insert Prod.fst sid2cids (sid, cid) false = some (sid2cids, .err) := by
  obtain ⟨items, hst, hcids⟩ := h
  have hl : lookup Prod.fst items sid = none := by
    rw [← Option.map_eq_none_iff, hcids, hno]
  constructor
  · obtain ⟨sid2cids', hins, hst'⟩ := hst.insert_ok (e := (sid, cid)) hsid hl
    refine ⟨sid2cids', hins, _, hst', fun s => ?_⟩
    rw [lookup_cons, Function.update_apply]
    by_cases hs : s = sid
    · rw [if_pos hs, if_pos hs.symm]
      rfl
    · rw [if_neg hs, if_neg (Ne.symm hs)]
      exact hcids s
  · exact hst.insert_err (e := (sid, cid)) hsid hl

end IndexOk

/-! ## Subscriptions -/

/-- The table has the commands of `s`. -/
def SubsOk (sub : HashTab Cmd) (s : Cmd → Prop) : Prop :=
  ∃ cmds, Stored subKey id Set.univ chatSubSlotLen sub cmds ∧ ∀ cmd, cmd ∈ cmds ↔ s cmd

namespace SubsOk

variable {sub : HashTab Cmd} {s : Cmd → Prop} {cmd : Cmd}

theorem subKey_set : KeySet subKey chatSubSlotLen Set.univ := ⟨fun _ _ => .inl (Int.natCast_nonneg _), cmpOn_groupKey⟩

theorem init : SubsOk (HashTab.hashTabCreat Cmd chatSubSlotLen) fun _ => False :=
  ⟨[], hashTabCreat_stored (by decide) (by decide) subKey_set, by simp⟩

theorem lookup_cmd (cmds : List Cmd) (cmd : Cmd) : (lookup id cmds cmd).isSome ↔ cmd ∈ cmds := by
  constructor
  · intro h
    obtain ⟨c, hc⟩ := Option.isSome_iff_exists.1 h
    obtain ⟨hmem, rfl⟩ := lookup_mem hc
    exact hmem
  · intro h
    by_contra hno
    have hnone : lookup id cmds cmd = none := by simpa using hno
    exact lookup_eq_none.1 hnone cmd h rfl

theorem query (h : SubsOk sub s) (cmd : Cmd) :
    ∃ item, subKey.query id sub cmd = some item ∧ (item.isSome ↔ s cmd) := by
  obtain ⟨cmds, hst, hmem⟩ := h
  exact ⟨_, hst.query (Set.mem_univ cmd), (lookup_cmd cmds cmd).trans (hmem cmd)⟩

/-- A command that is there already is left; a new one goes in if there is memory. -/
theorem insert (h : SubsOk sub s) (cmd : Cmd) (node : Bool) :
    ∃ sub' ret, subKey.insert id sub cmd node = some (sub', ret) ∧
    ((ret = .ok ∧ SubsOk sub' fun c => c = cmd ∨ s c) ∨ (ret = .nodeExist ∧ s cmd) ∨ ret = .err) := by
  obtain ⟨cmds, hst, hmem⟩ := h
  cases hl : lookup id cmds cmd with
  | some c =>
    refine ⟨sub, .nodeExist, hst.insert_exist (e := cmd) hl node, .inr (.inl ⟨rfl, ?_⟩)⟩
    rw [← hmem, ← lookup_cmd, hl]
    rfl
  | none =>
    cases node with
    | true =>
      obtain ⟨sub', hins, hst'⟩ := hst.insert_ok (e := cmd) (Set.mem_univ _) hl
      refine ⟨sub', .ok, hins, .inl ⟨rfl, _, hst', fun c => ?_⟩⟩
      rw [List.mem_cons, hmem]
    | false => exact ⟨sub, .err, hst.insert_err (e := cmd) (Set.mem_univ _) hl, .inr (.inr rfl)⟩

theorem delete (h : SubsOk sub s) (cmd : Cmd) : ∃ sub' item, subKey.delete id sub cmd = some (sub', item) ∧
    SubsOk sub' fun c => s c ∧ c ≠ cmd := by
  obtain ⟨cmds, hst, hmem⟩ := h
  obtain ⟨sub', hdel, hst'⟩ := hst.delete (Set.mem_univ cmd)
  refine ⟨sub', _, hdel, _, hst', fun c => ?_⟩
  rw [mem_without, hmem, id]

end SubsOk

/-! ## One call -/

namespace ChatState

/-- The tables say what the books say. -/
structure Recorded (len : Nat) (R : Set Rid) (S : Set SessionKey) (C : ChatState) (L : Ledger) : Prop where
  ids : Ids len R S
  rooms : RoomsIn len R C.tab.rooms
  sessions : ∃ m, SessionsOk len R S C.tab.sessions m ∧ ∀ k, (m k).isSome ↔ (L.subs k).isSome
  index : IndexOk len S C.tab.sid2cids L.cidOf
  subs : ∀ k s, L.subs k = some s → SubsOk (C.sub k) s

variable {C C' : ChatState} {L : Ledger} {rid : Rid} {gid : BitVec 32} {sid cid : BitVec 64} {ret : Int}

theorem chatTabInit_recorded (h : Ids len R S) : (chatTabInit len).Recorded len R S .empty where
  ids := h
  rooms := ⟨[], hashTabCreat_stored h.pos h.lt h.rooms⟩
  sessions := ⟨_, sessionsOk_empty h, fun _ => Iff.rfl⟩
  index := ⟨[], hashTabCreat_stored h.pos h.lt h.sids, fun _ => rfl⟩
  subs := nofun

namespace Recorded

theorem addSession (h : C.Recorded len R S L) {mem : Mem} (hr : rid ∈ R) (hk : (sid, cid) ∈ S)
    (hcall : C.call (.addSession rid gid sid cid mem) = some (C', ret)) :
    C'.Recorded len R S (L.record (.addSession rid gid sid cid mem) ret) := by
  obtain ⟨⟨C₁, w₁⟩, hadd, heq⟩ := Option.map_eq_some_iff.1 hcall
  cases heq
  obtain ⟨⟨T, w⟩, htab, heq⟩ := Option.map_eq_some_iff.1 hadd
  cases heq
  obtain ⟨m, hm, hdom⟩ := h.sessions
  obtain ⟨hrooms, hindex, m', hm', hdom'⟩ := chatRoomAddSession_dom hm h.rooms h.ids hr hk htab
  have hfound : (sessionKey.query ChatSession.key C.tab.sessions (sid, cid)).join.isSome ↔
      (L.subs (sid, cid)).isSome := by
    rw [← hdom]
    rcases hm.query hk with ⟨session, rooms, hq, -, hsome, -⟩ | ⟨hq, hno⟩
    · rw [hq, hsome]
      simp
    · rw [hq, hno]
      simp
  have hzero : ((w.toNat : Int) = 0) ↔ w = 0 := by
    rw [← BitVec.toNat_inj]
    simp
  have hindex' : IndexOk len S T.sid2cids L.cidOf := hindex ▸ h.index
  unfold Ledger.record
  simp only [hzero, hfound]
  by_cases hold : (L.subs (sid, cid)).isSome
  · have hno : ¬(w = 0 ∧ (L.subs (sid, cid)).isNone) := by
      rintro ⟨-, hnone⟩
      rw [Option.isNone_iff_eq_none] at hnone
      rw [hnone] at hold
      cases hold
    rw [if_neg hno, if_pos hold]
    refine ⟨h.ids, hrooms, ⟨m', hm', fun k => ?_⟩, hindex', h.subs⟩
    rw [hdom', hdom]
    constructor
    · rintro (hsome | ⟨-, rfl⟩)
      · exact hsome
      · exact hold
    · exact .inl
  · rw [if_neg hold]
    have hnone : (L.subs (sid, cid)).isNone := by simpa using hold
    split
    · rename_i hnew
      refine ⟨h.ids, hrooms, ⟨m', hm', fun k => ?_⟩, hindex', fun k s hs => ?_⟩
      · dsimp only
        rw [hdom', hdom, Function.update_apply]
        split
        · rename_i hkey
          simp [hnew.1, hkey]
        · rename_i hkey
          simp [hkey]
      · dsimp only at hs ⊢
        rw [Function.update_apply] at hs ⊢
        by_cases hkey : k = (sid, cid)
        · rw [if_pos hkey] at hs ⊢
          cases hs
          exact SubsOk.init
        · rw [if_neg hkey] at hs ⊢
          exact h.subs k s hs
    · rename_i hold'
      have hw : w ≠ 0 := fun hw => hold' ⟨hw, hnone⟩
      refine ⟨h.ids, hrooms, ⟨m', hm', fun k => ?_⟩, hindex', fun k s hs => ?_⟩
      · rw [hdom', hdom]
        exact or_iff_left fun hnew => hw hnew.1
      · have hkey : k ≠ (sid, cid) := by
          rintro rfl
          rw [hs] at hold
          exact hold rfl
        dsimp only
        rw [Function.update_of_ne hkey]
        exact h.subs k s hs

theorem roomDelSession (h : C.Recorded len R S L) (hr : rid ∈ R) (hk : (sid, cid) ∈ S)
    (hcall : C.call (.roomDelSession rid sid cid) = some (C', ret)) : C'.Recorded len R S L := by
  obtain ⟨C₁, hdel, heq⟩ := Option.map_eq_some_iff.1 hcall
  cases heq
  obtain ⟨T, htab, heq⟩ := Option.map_eq_some_iff.1 hdel
  cases heq
  obtain ⟨m, hm, hdom⟩ := h.sessions
  obtain ⟨hrooms, hindex, m', hm', hdom'⟩ := chatRoomDelSession_dom hm h.rooms hr hk htab
  exact ⟨h.ids, hrooms, ⟨m', hm', fun k => (hdom' k).trans (hdom k)⟩, hindex ▸ h.index, h.subs⟩

/-- An entry of the index goes if it is for this connection. -/
theorem indexDel {T T' : ChatTab} (h : IndexOk len S T.sid2cids L.cidOf) (hsid : sid ∈ Prod.fst '' S)
    (hdel : T.chatDelSidToCid sid cid = some T') :
    IndexOk len S T'.sid2cids (L.forget sid cid).cidOf ∧ (L.forget sid cid).subs = L.subs ∧
      T'.rooms = T.rooms ∧ T'.sessions = T.sessions := by
  unfold ChatTab.chatDelSidToCid at hdel
  obtain ⟨item, hq, hcid⟩ := h.query hsid
  unfold Ledger.forget
  simp only [hq] at hdel
  cases item with
  | none =>
    cases hdel
    have hno : L.cidOf sid ≠ some cid := by
      rw [← hcid]
      nofun
    rw [if_neg hno]
    exact ⟨h, rfl, rfl, rfl⟩
  | some item =>
    have hiff : L.cidOf sid = some cid ↔ item.2 = cid := by rw [← hcid, Option.map_some, Option.some.injEq]
    simp only at hdel
    split at hdel
    · rename_i heq
      obtain ⟨sid2cids, item', hdel', h'⟩ := h.delete hsid
      rw [hdel'] at hdel
      cases hdel
      rw [if_pos (hiff.2 heq)]
      exact ⟨h', rfl, rfl, rfl⟩
    · rename_i hne
      cases hdel
      rw [if_neg (mt hiff.1 hne)]
      exact ⟨h, rfl, rfl, rfl⟩

theorem delSession (h : C.Recorded len R S L) (hk : (sid, cid) ∈ S)
    (hcall : C.call (.delSession sid cid) = some (C', ret)) :
    C'.Recorded len R S (L.record (.delSession sid cid) ret) := by
  obtain ⟨C₁, hdel, heq⟩ := Option.map_eq_some_iff.1 hcall
  cases heq
  unfold ChatState.chatDelSession at hdel
  split at hdel
  · cases hdel
  obtain ⟨T, htab, heq⟩ := Option.map_eq_some_iff.1 hdel
  cases heq
  obtain ⟨m, hm, hdom⟩ := h.sessions
  obtain ⟨hrooms, hm', T₁, hindex, hsame⟩ := chatDelSession_dom hm h.rooms hk htab
  obtain ⟨hindex', hsubs, -⟩ := indexDel h.index (Set.mem_image_of_mem Prod.fst hk) hindex
  have hdel (k : SessionKey) : Function.update (L.forget sid cid).subs (sid, cid) none k =
      if k = (sid, cid) then none else L.subs k := by
    rw [Function.update_apply, hsubs]
  refine ⟨h.ids, hrooms, ⟨_, hm', fun k => ?_⟩, ?_, fun k s hs => ?_⟩
  · show (Function.update m (sid, cid) none k).isSome ↔
      (Function.update (L.forget sid cid).subs (sid, cid) none k).isSome
    rw [hdel, Function.update_apply]
    split
    · rfl
    · exact hdom k
  · show IndexOk len S T.sid2cids (L.forget sid cid).cidOf
    rw [hsame]
    exact hindex'
  · have hs : Function.update (L.forget sid cid).subs (sid, cid) none k = some s := hs
    rw [hdel] at hs
    split at hs
    · cases hs
    · exact h.subs k s hs

theorem delSidToCid (h : C.Recorded len R S L) (hsid : sid ∈ Prod.fst '' S)
    (hcall : C.call (.delSidToCid sid cid) = some (C', ret)) :
    C'.Recorded len R S (L.record (.delSidToCid sid cid) ret) := by
  obtain ⟨C₁, hdel, heq⟩ := Option.map_eq_some_iff.1 hcall
  cases heq
  unfold ChatState.chatDelSidToCid at hdel
  split at hdel
  · cases hdel
  obtain ⟨T, htab, heq⟩ := Option.map_eq_some_iff.1 hdel
  cases heq
  obtain ⟨hindex, hsubs, hrooms, hsessions⟩ := indexDel h.index hsid htab
  refine ⟨h.ids, hrooms ▸ h.rooms, ?_, hindex, fun k s hs => ?_⟩
  · show ∃ m, SessionsOk len R S T.sessions m ∧ ∀ k, (m k).isSome ↔ ((L.forget sid cid).subs k).isSome
    rw [hsessions, hsubs]
    exact h.sessions
  · have hs : (L.forget sid cid).subs k = some s := hs
    rw [hsubs] at hs
    exact h.subs k s hs

theorem setSidToCid (h : C.Recorded len R S L) {item node : Bool} (hsid : sid ∈ Prod.fst '' S)
    (hcall : C.call (.setSidToCid sid cid item node) = some (C', ret)) :
    C'.Recorded len R S (L.record (.setSidToCid sid cid item node) ret) := by
  have hcall : C.chatSetSidToCid sid cid item node = some (C', ret) := hcall
  unfold chatSetSidToCid at hcall
  split at hcall
  · cases hcall
  obtain ⟨old, hq, hcid⟩ := h.index.query hsid
  simp only [hq] at hcall
  unfold Ledger.record
  cases old with
  | some old =>
    simp only at hcall
    split at hcall
    · rename_i hsame
      cases hcall
      have hno : Function.update L.cidOf sid (some cid) = L.cidOf := by
        rw [Function.update_eq_self_iff, ← hcid, Option.map_some, hsame]
      simp only [if_true, hno]
      exact h
    obtain ⟨sid2cids, item', hdel, hindex⟩ := h.index.delete hsid
    simp only [hdel] at hcall
    split at hcall
    · obtain ⟨⟨sid2cids', hins, hindex'⟩, herr⟩ := hindex.insert hsid (by rw [Function.update_self]) cid
      cases node with
      | true =>
        rw [hins] at hcall
        cases hcall
        rw [Function.update_idem] at hindex'
        exact ⟨h.ids, h.rooms, h.sessions, hindex', h.subs⟩
      | false =>
        rw [herr] at hcall
        cases hcall
        exact ⟨h.ids, h.rooms, h.sessions, hindex, h.subs⟩
    · cases hcall
      exact ⟨h.ids, h.rooms, h.sessions, hindex, h.subs⟩
  | none =>
    have hno : L.cidOf sid = none := by rw [← hcid, Option.map_none]
    simp only at hcall
    split at hcall
    · obtain ⟨⟨sid2cids', hins, hindex'⟩, -⟩ := h.index.insert hsid hno cid
      rw [hins] at hcall
      cases hcall
      exact ⟨h.ids, h.rooms, h.sessions, hindex', h.subs⟩
    · cases hcall
      have hsame : Function.update L.cidOf sid none = L.cidOf := by rw [Function.update_eq_self_iff, hno]
      exact ⟨h.ids, h.rooms, h.sessions, by simpa [hsame] using h.index, h.subs⟩

/-- `chat_get_cid_by_sid` answers 0 for none. -/
theorem getCid (h : C.Recorded len R S L) (hsid : sid ∈ Prod.fst '' S) (hget : C.chatGetCidBySid sid = some cid)
    (hcid : cid ≠ 0) : L.cidOf sid = some cid := by
  unfold chatGetCidBySid at hget
  split at hget
  · cases hget
  obtain ⟨item, hq, hitem⟩ := h.index.query hsid
  rw [hq, Option.map_some, Option.some.injEq] at hget
  cases item with
  | none => exact absurd hget.symm hcid
  | some item => rw [← hitem, Option.map_some, ← hget, Option.elim_some]

/-- A session found is that of the key, and is in the books. -/
theorem session (h : C.Recorded len R S L) {key : SessionKey} {session : ChatSession}
    (hq : sessionKey.query ChatSession.key C.tab.sessions key = some (some session)) :
    session.key = key ∧ ∃ s, L.subs key = some s ∧ SubsOk (C.sub key) s := by
  obtain ⟨m, ⟨ss, hst, hok, -⟩, hdom⟩ := h.sessions
  obtain ⟨hmem, rfl⟩ := lookup_mem (hst.query_eq_some.1 hq)
  obtain ⟨rooms, hm, -⟩ := hok session hmem
  have hsome : (L.subs session.key).isSome := by
    rw [← hdom, hm]
    rfl
  obtain ⟨s, hs⟩ := Option.isSome_iff_exists.1 hsome
  exact ⟨rfl, s, hs, h.subs _ s hs⟩

/-- The commands of one session are changed, in the tables and in the books. -/
theorem alter (h : C.Recorded len R S L) (hcid : L.cidOf sid = some cid) {s : Cmd → Prop}
    (hs : L.subs (sid, cid) = some s)
    {sub : HashTab Cmd} {f : (Cmd → Prop) → Cmd → Prop} (hsub : SubsOk sub (f s)) :
    { C with sub := Function.update C.sub (sid, cid) sub }.Recorded len R S (L.alter sid f) := by
  unfold Ledger.alter
  rw [hcid]
  dsimp only
  rw [hs]
  obtain ⟨m, hm, hdom⟩ := h.sessions
  refine ⟨h.ids, h.rooms, ⟨m, hm, fun k => ?_⟩, h.index, fun k s' hs' => ?_⟩
  · dsimp only
    rw [hdom, Function.update_apply]
    split
    · rename_i hkey
      rw [hkey, hs]
      rfl
    · rfl
  · dsimp only at hs' ⊢
    rw [Function.update_apply] at hs' ⊢
    by_cases hkey : k = (sid, cid)
    · rw [if_pos hkey] at hs' ⊢
      cases hs'
      exact hsub
    · rw [if_neg hkey] at hs' ⊢
      exact h.subs k s' hs'

theorem addSub (h : C.Recorded len R S L) {cmd : Cmd} {item node : Bool} (hsid : sid ∈ Prod.fst '' S)
    (hcall : C.call (.addSub sid cmd item node) = some (C', ret)) :
    C'.Recorded len R S (L.record (.addSub sid cmd item node) ret) := by
  have hcall : C.chatAddSub sid cmd item node = some (C', ret) := hcall
  unfold chatAddSub at hcall
  unfold Ledger.record
  split at hcall
  · cases hcall
    exact h
  split at hcall
  · cases hcall
  rename_i cid hget
  split at hcall
  · cases hcall
    exact h
  rename_i hcid
  have hcid := h.getCid hsid hget hcid
  split at hcall
  · cases hcall
  · cases hcall
    exact h
  rename_i session hq
  obtain ⟨hkey, s, hs, hsub⟩ := h.session hq
  rw [hkey] at hcall
  obtain ⟨sub, ret', hins, hcases⟩ := hsub.insert cmd node
  rw [hins] at hcall
  rcases hcases with ⟨rfl, hsub'⟩ | ⟨rfl, hold⟩ | rfl
  · cases hcall
    exact h.alter hcid hs hsub'
  · cases hcall
    -- the books have the command already
    have hsame : (fun c => c = cmd ∨ s c) = s := by
      funext c
      refine propext ⟨?_, .inr⟩
      rintro (rfl | hc)
      · exact hold
      · exact hc
    have h' := h.alter (f := fun s c => c = cmd ∨ s c) hcid hs (by rw [hsame]; exact hsub)
    rw [Function.update_eq_self] at h'
    exact h'
  · cases hcall
    exact h

theorem delSub (h : C.Recorded len R S L) {cmd : Cmd} (hsid : sid ∈ Prod.fst '' S)
    (hcall : C.call (.delSub sid cmd) = some (C', ret)) : C'.Recorded len R S (L.record (.delSub sid cmd) ret) := by
  have hcall : C.chatDelSub sid cmd = some (C', ret) := hcall
  unfold chatDelSub at hcall
  unfold Ledger.record
  split at hcall
  · cases hcall
  rename_i cid hget
  split at hcall
  · cases hcall
    exact h
  rename_i hcid
  have hcid := h.getCid hsid hget hcid
  split at hcall
  · cases hcall
  · cases hcall
    exact h
  rename_i session hq
  obtain ⟨hkey, s, hs, hsub⟩ := h.session hq
  rw [hkey] at hcall
  obtain ⟨sub, item, hdel, hsub'⟩ := hsub.delete cmd
  rw [hdel] at hcall
  cases hcall
  exact h.alter hcid hs hsub'

theorem delRoom (h : C.Recorded len R S L) (hr : rid ∈ R) (hcall : C.call (.delRoom rid) = some (C', ret)) :
    C'.Recorded len R S L := by
  obtain ⟨C₁, hdel, heq⟩ := Option.map_eq_some_iff.1 hcall
  cases heq
  obtain ⟨rooms, hrooms, heq⟩ := Option.map_eq_some_iff.1 hdel
  cases heq
  obtain ⟨rs, hst⟩ := h.rooms
  obtain ⟨rooms', rs', hdel', hst', -⟩ := RoomsIn.chatDelRoom hst hr
  obtain rfl : rooms' = rooms := Option.some.inj (hdel'.symm.trans hrooms)
  exact ⟨h.ids, ⟨rs', hst'⟩, h.sessions, h.index, h.subs⟩

theorem clean (h : C.Recorded len R S L) {pushed : Rid → Bool} (hcall : C.call (.clean pushed) = some (C', ret)) :
    C'.Recorded len R S L := by
  obtain ⟨C₁, hclean, heq⟩ := Option.map_eq_some_iff.1 hcall
  cases heq
  obtain ⟨T, htab, heq⟩ := Option.map_eq_some_iff.1 hclean
  cases heq
  obtain ⟨rs, hst⟩ := h.rooms
  obtain ⟨rs₁, htrav, hperm⟩ := hst.trav
  unfold ChatTab.chatRoomCleanHdl at htab
  rw [htrav] at htab
  obtain ⟨rooms, hloop, heq⟩ := Option.map_eq_some_iff.1 htab
  cases heq
  have hR : ∀ rid ∈ ChatTab.cleanList rs₁ pushed, rid ∈ R := by
    intro rid hrid
    obtain ⟨room, hroom, rfl⟩ := List.mem_map.1 hrid
    exact hst.keys room (hperm.mem_iff.1 (List.mem_of_mem_filter hroom))
  obtain ⟨rs', hst', -⟩ := RoomsIn.cleanLoop hst hR hloop
  exact ⟨h.ids, ⟨rs', hst'⟩, h.sessions, h.index, h.subs⟩

end Recorded

/-! ## Runs -/

/-- The ids of a call are among those that the tables can handle. -/
def Call.WithIds (R : Set Rid) (S : Set SessionKey) : Call → Prop
  | .addSession rid _ sid cid _ | .roomDelSession rid sid cid => rid ∈ R ∧ (sid, cid) ∈ S
  | .delSession sid cid => (sid, cid) ∈ S
  | .setSidToCid sid .. | .delSidToCid sid _ | .addSub sid .. | .delSub sid _ => sid ∈ Prod.fst '' S
  | .delRoom rid => rid ∈ R
  | .clean _ => True

theorem Recorded.call (h : C.Recorded len R S L) (c : Call) (hc : c.WithIds R S) (hcall : C.call c = some (C', ret)) :
    C'.Recorded len R S (L.record c ret) := by
  cases c with
  | addSession rid gid sid cid mem => exact h.addSession hc.1 hc.2 hcall
  | roomDelSession rid sid cid => exact h.roomDelSession hc.1 hc.2 hcall
  | delSession sid cid => exact h.delSession hc hcall
  | setSidToCid sid cid item node => exact h.setSidToCid hc hcall
  | delSidToCid sid cid => exact h.delSidToCid hc hcall
  | addSub sid cmd item node => exact h.addSub hc hcall
  | delSub sid cmd => exact h.delSub hc hcall
  | delRoom rid => exact h.delRoom hc hcall
  | clean pushed => exact h.clean hcall

/-- A call, and its entry in the books. -/
def bookedStep (p : ChatState × Ledger) (c : Call) : Option (ChatState × Ledger) :=
  (p.1.call c).map fun q => (q.1, p.2.record c q.2)

/-- The state and the books after the calls. -/
def run (len : Nat) (calls : List Call) : Option (ChatState × Ledger) :=
  calls.foldlM bookedStep (chatTabInit len, .empty)

theorem bookedRun_recorded : ∀ (calls : List Call) {p q : ChatState × Ledger}, p.1.Recorded len R S p.2 →
    (∀ c ∈ calls, c.WithIds R S) → calls.foldlM bookedStep p = some q → q.1.Recorded len R S q.2
  | [], p, q, h, _, hrun => by
    cases hrun
    exact h
  | c :: calls, p, q, h, hcalls, hrun => by
    obtain ⟨hc, hcalls⟩ := List.forall_mem_cons.1 hcalls
    rw [List.foldlM_cons, Option.bind_eq_bind, Option.bind_eq_some_iff] at hrun
    obtain ⟨p₁, hstep, hrun⟩ := hrun
    obtain ⟨⟨C₁, ret⟩, hcall, rfl⟩ := Option.map_eq_some_iff.1 hstep
    exact bookedRun_recorded calls (h.call c hc hcall) hcalls hrun

theorem run_recorded {calls : List Call} (hids : Ids len R S) (hcalls : ∀ c ∈ calls, c.WithIds R S)
    (hrun : run len calls = some (C, L)) : C.Recorded len R S L :=
  bookedRun_recorded calls (chatTabInit_recorded hids) hcalls hrun

end ChatState

end BeehiveIm.Chat
