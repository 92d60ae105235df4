/-
`conn_list` against the connections it stores. The entries are where their keys say as long as no
ONLINE request changes the `sid` of a connection that is in the list.
-/
import BeehiveIm.Core.HashTab.Slots
import BeehiveIm.Listend.Conn
import BeehiveIm.Lib.Run

namespace BeehiveIm.Listend.LsndCntx

open BeehiveIm.Lib BeehiveIm.Core

/-! ## The invariant -/

/-- Every entry is under the key its connection carries, and is an open connection; the `cid`s of
the open connections differ. -/
structure Inv (L : LsndCntx) (es : List Ptr) : Prop where
  holds : Holds sessionKey L.connKey L.connList es
  len : L.connList.len = lsndConnHashTabLen
  live : ∀ p ∈ es, p ∈ L.opened
  cids : (L.opened.map fun p => (L.extra p).cid).Nodup
  sids : ∀ p ∈ L.opened, HashOk lsndConnHashTabLen (L.extra p).sid.toInt
  lt : ∀ p ∈ L.opened, p < L.next

variable {L : LsndCntx} {es : List Ptr} {p q : Ptr}

theorem Inv.nodup (h : Inv L es) : es.Nodup := h.holds.nodup.of_map

/-- Open connections are told apart by their keys. -/
theorem Inv.key_inj (h : Inv L es) (hp : p ∈ L.opened) (hq : q ∈ L.opened) : L.connKey p = L.connKey q ↔ p = q :=
  ⟨fun hk => List.inj_on_of_nodup_map h.cids hp hq (congrArg Prod.snd hk), fun hk => hk ▸ rfl⟩

@[simp] theorem setExtra_self (g : LsndConnExtra → LsndConnExtra) : (L.setExtra p g).extra p = g (L.extra p) :=
  Function.update_self ..
theorem setExtra_of_ne (g : LsndConnExtra → LsndConnExtra) (hq : q ≠ p) : (L.setExtra p g).extra q = L.extra q :=
  Function.update_of_ne hq ..

theorem connKey_setExtra {g : LsndConnExtra → LsndConnExtra}
    (hg : (g (L.extra p)).sid = (L.extra p).sid ∧ (g (L.extra p)).cid = (L.extra p).cid) :
    (L.setExtra p g).connKey = L.connKey := by
  funext q
  by_cases hq : q = p
  · subst hq; simp [connKey, hg]
  · simp [connKey, setExtra_of_ne _ hq]

/-- A write that does not touch the key. -/
theorem Inv.setExtra (h : Inv L es) {g : LsndConnExtra → LsndConnExtra}
    (hg : (g (L.extra p)).sid = (L.extra p).sid ∧ (g (L.extra p)).cid = (L.extra p).cid) :
    Inv (L.setExtra p g) es := by
  have hk := connKey_setExtra hg
  have hsid : ∀ q, ((L.setExtra p g).extra q).sid = (L.extra q).sid := fun q => congrArg Prod.fst (congrFun hk q)
  have hcid : ∀ q, ((L.setExtra p g).extra q).cid = (L.extra q).cid := fun q => congrArg Prod.snd (congrFun hk q)
  refine ⟨by rw [hk]; exact h.holds, h.len, h.live, ?_, fun q hq => ?_, h.lt⟩
  · simp only [hcid]; exact h.cids
  · rw [hsid]; exact h.sids q hq

theorem Inv.lsndKickAdd (h : Inv L es) (mem : Bool) : Inv (L.lsndKickAdd p mem) es := by
  unfold LsndCntx.lsndKickAdd
  split
  · exact h.setExtra ⟨rfl, rfl⟩
  · exact h

/-- `lsnd_kick_add` changes no key. -/
theorem lsndKickAdd_frame {mem : Bool} (q : Ptr) : ((L.lsndKickAdd p mem).extra q).cid = (L.extra q).cid ∧
    ((L.lsndKickAdd p mem).extra q).sid = (L.extra q).sid ∧
    (((L.lsndKickAdd p mem).extra q).stat = (L.extra q).stat ∨ ((L.lsndKickAdd p mem).extra q).stat = .kick) := by
  unfold LsndCntx.lsndKickAdd
  split
  · by_cases hq : q = p
    · subst hq
      rw [setExtra_self]
      exact ⟨rfl, rfl, .inr rfl⟩
    · rw [setExtra_of_ne _ hq]
      exact ⟨rfl, rfl, .inl rfl⟩
  · exact ⟨rfl, rfl, .inl rfl⟩

theorem lsndKickAdd_other {mem : Bool} (hq : q ≠ p) : (L.lsndKickAdd p mem).extra q = L.extra q := by
  unfold LsndCntx.lsndKickAdd
  split
  · exact setExtra_of_ne _ hq
  · rfl

theorem lsndKickAdd_opened {mem : Bool} :
    (L.lsndKickAdd p mem).opened = L.opened ∧ (L.lsndKickAdd p mem).next = L.next := by
  unfold LsndCntx.lsndKickAdd
  split <;> exact ⟨rfl, rfl⟩

/-! ## The events -/

theorem Inv.connect (h : Inv L es) (cid : BitVec 64) : Inv (L.lsndCallbackCreatHandler cid) es := by
  unfold LsndCntx.lsndCallbackCreatHandler
  split
  · exact h
  rename_i hcid
  simp only [not_exists, not_and] at hcid
  have hold : ∀ q ∈ L.opened, Function.update L.extra L.next ⟨0, 0, cid, .establish⟩ q = L.extra q := fun q hq =>
    Function.update_of_ne (fun h0 => Nat.lt_irrefl _ (h0 ▸ h.lt q hq)) ..
  have hnew : Function.update L.extra L.next ⟨0, 0, cid, .establish⟩ L.next = ⟨0, 0, cid, .establish⟩ :=
    Function.update_self ..
  refine ⟨h.holds.congr fun q hq => ?_, h.len, fun q hq => .tail _ (h.live q hq), ?_, ?_, ?_⟩
  · simp only [connKey, hold q (h.live q hq)]
  · have hmap : (L.opened.map fun p => (Function.update L.extra L.next ⟨0, 0, cid, .establish⟩ p).cid) =
        L.opened.map fun p => (L.extra p).cid := List.map_congr_left fun q hq => by rw [hold q hq]
    simp only [List.map_cons, List.nodup_cons, hnew, hmap]
    refine ⟨fun hm => ?_, h.cids⟩
    obtain ⟨q, hq, he⟩ := List.mem_map.1 hm
    exact hcid q hq he
  · rintro q (_ | ⟨_, hq⟩)
    · simp only [hnew]; exact .inl (by decide)
    · simp only [hold q hq]; exact h.sids q hq
  · rintro q (_ | ⟨_, hq⟩)
    exacts [Nat.lt_succ_self _, Nat.lt_succ_of_lt (h.lt q hq)]

/-- An entry is taken out. -/
theorem Inv.delete (h : Inv L es) {k : BitVec 64 × BitVec 64} (hk : HashOk lsndConnHashTabLen k.1.toInt) :
    ∃ H', sessionKey.delete L.connKey L.connList k = some (H', lookup L.connKey es k) ∧
      Inv { L with connList := H' } (without L.connKey es k) := by
  obtain ⟨H', hdel, hH', hlen⟩ := h.holds.delete (by rw [h.len]; exact hk)
  exact ⟨H', hdel, hH', hlen.trans h.len, fun q hq => h.live q (mem_without.1 hq).1, h.cids, h.sids, h.lt⟩

/-- A connection is closed and its entry, if there is one, is gone. -/
theorem Inv.destroy (h : Inv L es) (hp : p ∈ L.opened) :
    ∃ L', L.lsndCallbackDestroyHandler p = some L' ∧ Inv L' (without L.connKey es (L.connKey p)) := by
  obtain ⟨H', hdel, hI⟩ := h.delete (k := L.connKey p) (h.sids p hp)
  have hI := hI.setExtra (p := p) (g := fun e => { e with stat := .closed }) ⟨rfl, rfl⟩
  unfold LsndCntx.lsndCallbackDestroyHandler
  rw [hdel]
  have hsub : L.opened.erase p ⊆ L.opened := List.erase_subset
  refine ⟨_, rfl, hI.holds, hI.len, fun q hq => ?_, ?_, fun q hq => hI.sids q (hsub hq), fun q hq => hI.lt q (hsub hq)⟩
  · obtain ⟨hq, hk⟩ := mem_without.1 hq
    exact (List.mem_erase_of_ne fun h0 => hk (congrArg L.connKey h0)).2 (h.live q hq)
  · exact hI.cids.sublist (List.erase_sublist.map _)

/-- What the end of a connection leaves as it is. -/
theorem destroy_frame {L' : LsndCntx} (h : L.lsndCallbackDestroyHandler p = some L') :
    L'.opened = L.opened.erase p ∧ L'.next = L.next ∧ ∀ q, q ≠ p → L'.extra q = L.extra q := by
  unfold LsndCntx.lsndCallbackDestroyHandler at h
  split at h
  · cases h
  · cases h
    exact ⟨rfl, rfl, fun q hq => setExtra_of_ne (L := L) (fun e => { e with stat := .closed }) hq⟩

/-- The keys an ONLINE request may bring. -/
structure OnlineOk (L : LsndCntx) (es : List Ptr) (p : Ptr) (sid : BitVec 64) : Prop where
  same : p ∈ es → sid = (L.extra p).sid
  hash : HashOk lsndConnHashTabLen sid.toInt
  order : CmpOn sessionKey.cmp (slotKeys sessionKey L.connKey lsndConnHashTabLen es (sid, (L.extra p).cid))

/-- Ids from 0 on are in order. -/
theorem onlineOk_of_nonneg {sid : BitVec 64} (hsame : p ∈ es → sid = (L.extra p).sid)
    (hp : 0 ≤ sid.toInt ∧ 0 ≤ (L.extra p).cid.toInt)
    (hes : ∀ q ∈ es, 0 ≤ (L.extra q).sid.toInt ∧ 0 ≤ (L.extra q).cid.toInt) : OnlineOk L es p sid := by
  refine ⟨hsame, .inl hp.1, cmpOn_sessionKey.mono ?_⟩
  rintro _ (rfl | ⟨q, hq, -, rfl⟩)
  · exact hp
  · exact hes q hq

/-- `conn->sid = head->sid`, on a connection that is not in the list. -/
theorem Inv.setSid (h : Inv L es) (hp : p ∉ es) {sid : BitVec 64} (hsid : HashOk lsndConnHashTabLen sid.toInt) :
    Inv (L.setExtra p fun e => { e with sid := sid }) es ∧
      ∀ q ∈ es, (L.setExtra p fun e => { e with sid := sid }).connKey q = L.connKey q := by
  have hother : ∀ q ∈ es, (L.setExtra p fun e => { e with sid := sid }).connKey q = L.connKey q := by
    intro q hq
    have : q ≠ p := fun h0 => hp (h0 ▸ hq)
    simp [connKey, setExtra_of_ne _ this]
  have hcid : ∀ q, ((L.setExtra p fun e => { e with sid := sid }).extra q).cid = (L.extra q).cid := by
    intro q
    by_cases hq : q = p
    · subst hq; simp
    · simp [setExtra_of_ne _ hq]
  refine ⟨⟨h.holds.congr fun q hq => (hother q hq).symm, h.len, h.live, ?_, fun q hq => ?_, h.lt⟩, hother⟩
  · simp only [hcid]; exact h.cids
  · by_cases hqp : q = p
    · subst hqp; simpa using hsid
    · simpa [setExtra_of_ne _ hqp] using h.sids q hq

theorem Inv.online (h : Inv L es) (hp : p ∈ L.opened) {sid : BitVec 64} (hok : OnlineOk L es p sid)
    (mem sent : Bool) : ∃ L' b, L.lsndMesgOnlineHandler p sid mem sent = some (L', b) ∧ p ∈ L'.opened ∧
      ∃ es', Inv L' es' ∧ es ⊆ es' := by
  obtain ⟨L₁, hL₁⟩ : ∃ L₁, L₁ = L.setExtra p fun e => { e with sid := sid } := ⟨_, rfl⟩
  have hkey : L₁.connKey p = (sid, (L.extra p).cid) := by simp [hL₁, connKey]
  have hp₁ : p ∈ L₁.opened := by rw [hL₁]; exact hp
  unfold lsndMesgOnlineHandler
  rw [← hL₁]
  simp only
  by_cases hpe : p ∈ es
  · -- the entry is there: the insertion is refused
    have hI : Inv L₁ es := hL₁ ▸ h.setExtra ⟨hok.same hpe, rfl⟩
    rw [hI.holds.insert_exist (by rw [hI.len, hkey]; exact hok.hash) (lookup_eq_some hI.holds.nodup hpe)]
    exact ⟨_, _, rfl, hp₁, es, hI, List.Subset.refl es⟩
  · obtain ⟨hI, hother⟩ := h.setSid hpe hok.hash
    rw [← hL₁] at hI hother
    have hnone : lookup L₁.connKey es (L₁.connKey p) = none := by
      refine lookup_eq_none.2 fun q hq h0 => hpe ?_
      rw [← (hI.key_inj (hI.live q hq) hp₁).1 h0]
      exact hq
    have hslots : slotKeys sessionKey L₁.connKey lsndConnHashTabLen es (sid, (L.extra p).cid) =
        slotKeys sessionKey L.connKey lsndConnHashTabLen es (sid, (L.extra p).cid) := by
      unfold slotKeys
      congr 1
      ext k
      exact exists_congr fun q => and_congr_right fun hq => by rw [hother q hq]
    have hash : HashOk L₁.connList.len (sessionKey.hash (L₁.connKey p)) := by rw [hI.len, hkey]; exact hok.hash
    have hord : CmpOn sessionKey.cmp (slotKeys sessionKey L₁.connKey L₁.connList.len es (L₁.connKey p)) := by
      rw [hI.len, hkey, hslots]; exact hok.order
    cases mem with
    | false =>
      rw [hI.holds.insert_err hash hnone hord]
      exact ⟨_, _, rfl, hp₁, es, hI, List.Subset.refl es⟩
    | true =>
      obtain ⟨H', hins, hH', hlen⟩ := hI.holds.insert_ok hash hnone hord
      rw [hins]
      refine ⟨_, _, rfl, hp₁, p :: es, ⟨hH', hlen.trans hI.len, ?_, hI.cids, hI.sids, hI.lt⟩,
        List.subset_cons_self p es⟩
      rintro q (_ | ⟨_, hq⟩)
      exacts [hp₁, hI.live q hq]

theorem Inv.ack (h : Inv L es) {sid : BitVec 64} (hsid : HashOk lsndConnHashTabLen sid.toInt)
    (seq cid oldCid : BitVec 64) (mem : Bool) :
    ∃ L', L.lsndMesgOnlineAckLogic sid seq cid oldCid mem = some L' ∧ Inv L' es := by
  unfold lsndMesgOnlineAckLogic
  rw [h.holds.query (by rw [h.len]; exact hsid)]
  cases hl : lookup L.connKey es (sid, cid) with
  | none => exact ⟨L, rfl, h⟩
  | some p =>
    simp only
    split
    · exact ⟨_, rfl, h.lsndKickAdd mem⟩
    split
    · exact ⟨_, rfl, h.lsndKickAdd mem⟩
    -- the acknowledged `sid` is the one the connection was found under
    have hp := (lookup_mem hl).2
    have hI := h.setExtra (p := p) (g := fun e => { e with sid := sid, seq := seq, stat := .online })
      ⟨(congrArg Prod.fst hp).symm, rfl⟩
    split
    · rw [hI.holds.query (by rw [hI.len]; exact hsid)]
      cases lookup _ es (sid, oldCid) with
      | none => exact ⟨_, rfl, hI⟩
      | some q => exact ⟨_, rfl, hI.lsndKickAdd mem⟩
    · exact ⟨_, rfl, hI⟩

theorem Inv.kick (h : Inv L es) {sid : BitVec 64} (hsid : HashOk lsndConnHashTabLen sid.toInt)
    (cid : BitVec 64) (mem : Bool) : ∃ L', L.lsndUpmesgKickHandler sid cid mem = some L' ∧ ∃ es', Inv L' es' := by
  obtain ⟨H', hdel, hI⟩ := h.delete (k := (sid, cid)) hsid
  unfold lsndUpmesgKickHandler
  rw [hdel]
  cases lookup L.connKey es (sid, cid) with
  | none => exact ⟨_, rfl, _, hI⟩
  | some p => exact ⟨_, rfl, _, hI.lsndKickAdd mem⟩

/-! ## Runs -/

/-- What `hash_tab_trav` finds in the list. -/
def entries (L : LsndCntx) : List Ptr := L.connList.hashTabTrav.getD []

theorem Inv.entries_perm (h : Inv L es) : L.entries.Perm es := by
  obtain ⟨F, htrav, hp, -⟩ := h.holds.trav
  rw [entries, htrav]
  exact hp

theorem Inv.entries (h : Inv L es) : Inv L L.entries :=
  have hp := h.entries_perm
  ⟨h.holds.perm hp.symm, h.len, fun p hp' => h.live p (hp.mem_iff.1 hp'), h.cids, h.sids, h.lt⟩

/-- The events a run may have: an ONLINE request that is not dropped brings the `sid` its
connection has already, if the connection is in the list; the `sid`s hash into the table and those
of a slot are in order. -/
def Admits (L : LsndCntx) : Event → Prop
  | .connect _ => True
  | .online p sid seq _ _ => p ∈ L.opened → (L.extra p).stat ≠ .kick → (L.extra p).seq < seq →
      OnlineOk L L.entries p sid
  | .onlineAck sid _ _ _ _ => HashOk lsndConnHashTabLen sid.toInt
  | .kick sid _ _ => HashOk lsndConnHashTabLen sid.toInt
  | .disconnect _ => True

theorem Inv.recv (h : Inv L L.entries) (hp : p ∈ L.opened) {sid seq : BitVec 64} {mem sent : Bool}
    (hok : L.Admits (.online p sid seq mem sent)) :
    ∃ L' b, L.lsndCallbackRecvHandler p sid seq mem sent = some (L', b) ∧ p ∈ L'.opened ∧ ∃ es', Inv L' es' ∧
    L.entries ⊆ es' := by
  unfold lsndCallbackRecvHandler
  split
  · exact ⟨_, _, rfl, hp, _, h, List.Subset.refl _⟩
  split
  · exact ⟨_, _, rfl, hp, _, h, List.Subset.refl _⟩
  rename_i hstat hseq
  have hok := hok hp hstat (BitVec.not_le.1 hseq)
  have hk := connKey_setExtra (L := L) (p := p) (g := fun e => { e with seq := seq }) ⟨rfl, rfl⟩
  refine (h.setExtra (p := p) (g := fun e => { e with seq := seq }) ⟨rfl, rfl⟩).online hp ⟨?_, hok.hash, ?_⟩ mem sent
  · simpa using hok.same
  · rw [hk]; simpa using hok.order

/-- What an ONLINE request leaves as it is. -/
theorem recv_frame {L' : LsndCntx} {sid seq : BitVec 64} {mem sent b : Bool}
    (h : L.lsndCallbackRecvHandler p sid seq mem sent = some (L', b)) :
    L'.opened = L.opened ∧ L'.next = L.next ∧ (∀ q, q ≠ p → L'.extra q = L.extra q) ∧
      (L'.extra p).stat = (L.extra p).stat ∧ (L'.extra p).cid = (L.extra p).cid ∧
      ((L'.extra p).sid = (L.extra p).sid ∨ (L.extra p).stat ≠ .kick ∧ (L.extra p).seq < seq ∧
      (L'.extra p).sid = sid) := by
  unfold lsndCallbackRecvHandler at h
  split at h
  · cases h
    exact ⟨rfl, rfl, fun _ _ => rfl, rfl, rfl, .inl rfl⟩
  split at h
  · cases h
    exact ⟨rfl, rfl, fun _ _ => rfl, rfl, rfl, .inl rfl⟩
  rename_i hstat hseq
  have hframe : L'.opened = L.opened ∧ L'.next = L.next ∧
      L'.extra = ((L.setExtra p fun e => { e with seq := seq }).setExtra p fun e => { e with sid := sid }).extra := by
    unfold lsndMesgOnlineHandler at h
    dsimp only at h
    split at h
    · cases h
    · split at h
      · cases h
        exact ⟨rfl, rfl, rfl⟩
      · cases h
        exact ⟨rfl, rfl, rfl⟩
  obtain ⟨hopened, hnext, hextra⟩ := hframe
  refine ⟨hopened, hnext, fun q hq => ?_, ?_, ?_, .inr ⟨hstat, BitVec.not_le.1 hseq, ?_⟩⟩
  · rw [hextra, setExtra_of_ne _ hq, setExtra_of_ne _ hq]
  all_goals rw [hextra, setExtra_self]
  all_goals simp

theorem Inv.step (h : ∃ es, Inv L es) (e : Event) (he : L.Admits e) :
    ∃ L', L.step e = some L' ∧ ∃ es', Inv L' es' := by
  obtain ⟨es, h⟩ := h
  have h := h.entries
  cases e with
  | connect cid => exact ⟨_, rfl, _, h.connect cid⟩
  | online p sid seq mem sent =>
    unfold LsndCntx.step
    simp only
    split
    · rename_i hp
      obtain ⟨L₁, b, hrecv, hp₁, es₁, h₁, -⟩ := h.recv hp he
      rw [hrecv]
      cases b with
      | true => exact ⟨_, rfl, es₁, h₁⟩
      | false =>
        obtain ⟨L₂, hdestroy, h₂⟩ := h₁.destroy hp₁
        exact ⟨L₂, hdestroy, _, h₂⟩
    · exact ⟨L, rfl, _, h⟩
  | onlineAck sid seq cid oldCid mem =>
    obtain ⟨L', hL', h'⟩ := h.ack he seq cid oldCid mem
    exact ⟨L', hL', _, h'⟩
  | kick sid cid mem => exact h.kick he cid mem
  | disconnect p =>
    unfold LsndCntx.step
    simp only
    split
    · rename_i hp
      obtain ⟨L₁, hdestroy, h₁⟩ := h.destroy hp
      exact ⟨L₁, hdestroy, _, h₁⟩
    · exact ⟨L, rfl, _, h⟩

theorem init_inv : Inv init [] where
  holds := hashTabCreat_holds (by decide) (by decide)
  len := rfl
  live := by simp
  cids := List.nodup_nil
  sids := by simp [init]
  lt := by simp [init]

/-- In a run without such events every entry of the list is under the key its connection carries,
and is an open connection, with no second entry. -/
theorem connList_run_correct (events : List Event)
    (he : Guarded (fun L e => (L.step e).getD L) Admits init events) :
    ∃ L, run events = some L ∧ Holds sessionKey L.connKey L.connList L.entries ∧
      (∀ p ∈ L.entries, p ∈ L.opened) ∧ L.entries.Nodup := by
  obtain ⟨L, hrun, es, h⟩ := run_invariant LsndCntx.step Admits (fun L => ∃ es, Inv L es)
    (fun L e h he => Inv.step h e he) events init ⟨[], init_inv⟩ he
  have h := h.entries
  exact ⟨L, hrun, h.holds, h.live, h.nodup⟩

/-- A connection that goes online and is closed. -/
theorem connList_run_correct_online : ∃ L,
    run [.connect 1, .online 0 7 1 true true, .onlineAck 7 2 1 0 true, .disconnect 0] = some L ∧
      Holds sessionKey L.connKey L.connList L.entries ∧ (∀ p ∈ L.entries, p ∈ L.opened) ∧ L.entries.Nodup := by
  refine connList_run_correct [.connect 1, .online 0 7 1 true true, .onlineAck 7 2 1 0 true, .disconnect 0]
    ⟨trivial, fun _ _ _ => ⟨?_, .inl (by decide), ?_⟩, .inl (by decide), trivial, trivial⟩
  all_goals
    have hes : LsndCntx.entries (init.lsndCallbackCreatHandler 1) = [] := (init_inv.connect 1).entries_perm.eq_nil
  · intro h0
    have h0 : 0 ∈ LsndCntx.entries (init.lsndCallbackCreatHandler 1) := h0
    rw [hes] at h0; cases h0
  · show CmpOn _ (slotKeys _ _ _ (LsndCntx.entries (init.lsndCallbackCreatHandler 1)) _)
    rw [hes]
    refine cmpOn_sessionKey.mono ?_
    rintro k (rfl | ⟨p, hp, -⟩)
    · exact ⟨by decide, by decide⟩
    · cases hp

set_option maxRecDepth 20000 in
/-- A second ONLINE request with another `sid` is entered again; the disconnect takes out one entry,
and the other is a pointer to the freed connection. -/
theorem connList_second_online_dangles : ¬∀ events, ∃ L, run events = some L ∧
    Holds sessionKey L.connKey L.connList L.entries ∧ (∀ p ∈ L.entries, p ∈ L.opened) ∧ L.entries.Nodup := by
  intro h
  obtain ⟨L, hrun, -, hlive, -⟩ := h [.connect 1, .online 0 1 1 true true, .online 0 2 2 true true, .disconnect 0]
  have hend : (run [.connect 1, .online 0 1 1 true true, .online 0 2 2 true true, .disconnect 0]).map
      (fun L => (L.entries, L.opened)) = some ([0], []) := by decide
  rw [hrun] at hend
  simp only [Option.map_some, Option.some.injEq, Prod.mk.injEq] at hend
  have hp := hlive 0 (by rw [hend.1]; simp)
  rw [hend.2] at hp
  cases hp

end BeehiveIm.Listend.LsndCntx
