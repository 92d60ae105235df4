/-
The index of the sessions of each user against their attributes. It holds exactly as long as no
clean-up finds attributes to delete and no session changes its user: nothing ever leaves the index.
-/
import BeehiveIm.Session
import BeehiveIm.Lib.Run

namespace BeehiveIm.Session

open BeehiveIm.Lib

namespace Store

variable {s s' : Store} {sid cid uid : BitVec 64} {nid : BitVec 32} {head : MesgHeader} {req : MesgOnline} {now : Int}

/-- A session is among those of a user when its attributes name the user. -/
def Consistent (s : Store) : Prop := ∀ uid sid, sid ∈ s.uidToSid uid ↔ ∃ attr, s.attr sid = some attr ∧ attr.uid = uid

theorem empty_consistent : empty.Consistent := by simp [Consistent, empty]

/-! ## Clean-ups -/

/-- A clean-up for this connection finds attributes to delete. -/
def Deletes (s : Store) (sid cid : BitVec 64) (nid : BitVec 32) : Prop :=
  (s.attr sid).isSome ∧ (s.getSidAttr sid).cid = cid ∧ (s.getSidAttr sid).nid = nid

/-- The attributes of the sessions of `D` are deleted, the index stays. -/
structure Erased (D : BitVec 64 → Prop) (s s' : Store) : Prop where
  uidToSid : s'.uidToSid = s.uidToSid
  gone : ∀ sid, D sid → s'.attr sid = none
  stays : ∀ sid, ¬D sid → s'.attr sid = s.attr sid

theorem Erased.consistent_iff {D : BitVec 64 → Prop} (h : Erased D s s') (hs : s.Consistent) :
    s'.Consistent ↔ ∀ sid, D sid → s.attr sid = none := by
  constructor
  · intro hs' sid hsid
    by_contra hne
    obtain ⟨attr, hattr⟩ := Option.ne_none_iff_exists'.1 hne
    have hmem : sid ∈ s'.uidToSid attr.uid := by
      rw [h.uidToSid]
      exact (hs _ _).2 ⟨attr, hattr, rfl⟩
    obtain ⟨attr', hattr', -⟩ := (hs' _ _).1 hmem
    rw [h.gone sid hsid] at hattr'
    cases hattr'
  · intro hnone uid sid
    have hsame : s'.attr sid = s.attr sid := by
      by_cases hsid : D sid
      · rw [h.gone sid hsid, hnone sid hsid]
      · exact h.stays sid hsid
    rw [h.uidToSid, hsame]
    exact hs uid sid

theorem cleanSessionDataBySid_erased (s : Store) (sid : BitVec 64) :
    Erased (· = sid) s (s.cleanSessionDataBySid sid) where
  uidToSid := rfl
  gone := by
    rintro _ rfl
    exact Function.update_self ..
  stays _ hne := Function.update_of_ne hne ..

theorem clean_of_match (hcid : (s.getSidAttr sid).cid = cid) (hnid : (s.getSidAttr sid).nid = nid) :
    s.clean sid cid nid = s.cleanSessionDataBySid sid := by
  simp [clean, cleanSessionData, hcid, hnid]

theorem clean_of_mismatch (h : ¬((s.getSidAttr sid).cid = cid ∧ (s.getSidAttr sid).nid = nid)) :
    s.clean sid cid nid = s := by
  rw [not_and_or] at h
  simp [clean, cleanSessionData, h]

theorem clean_consistent_iff (hs : s.Consistent) : (s.clean sid cid nid).Consistent ↔ ¬s.Deletes sid cid nid := by
  by_cases hmatch : (s.getSidAttr sid).cid = cid ∧ (s.getSidAttr sid).nid = nid
  · rw [clean_of_match hmatch.1 hmatch.2, (cleanSessionDataBySid_erased s sid).consistent_iff hs]
    simp [Deletes, hmatch]
  · rw [clean_of_mismatch hmatch]
    simp [Deletes, hmatch, hs]

/-- A clean-up that finds nothing to delete leaves attributes and index as they are. -/
theorem clean_frame (h : ¬s.Deletes sid cid nid) :
    (s.clean sid cid nid).attr = s.attr ∧ (s.clean sid cid nid).uidToSid = s.uidToSid := by
  by_cases hmatch : (s.getSidAttr sid).cid = cid ∧ (s.getSidAttr sid).nid = nid
  · have hnone : s.attr sid = none := by simpa [Deletes, hmatch] using h
    rw [clean_of_match hmatch.1 hmatch.2]
    exact ⟨by rw [cleanSessionDataBySid, ← hnone, Function.update_eq_self], rfl⟩
  · rw [clean_of_mismatch hmatch]
    exact ⟨rfl, rfl⟩

/-! ## The sweep -/

theorem Erased.clean {ids : List (BitVec 64)} (h : Erased (· ∈ ids) s s') (sid : BitVec 64) :
    Erased (· ∈ sid :: ids) s (s'.cleanSessionDataBySid sid) where
  uidToSid := h.uidToSid
  gone x hx := by
    rcases eq_or_ne x sid with rfl | hne
    · exact Function.update_self ..
    · exact (Function.update_of_ne hne ..).trans (h.gone x ((List.mem_cons.1 hx).resolve_left hne))
  stays x hx := by
    rw [List.mem_cons, not_or] at hx
    exact (Function.update_of_ne hx.1 ..).trans (h.stays x hx.2)

/-- The ids that a sweep cleans. -/
def swept (z : ZSet (BitVec 64)) (ctm : Int) : List (BitVec 64) :=
  ((paged chatBatNum (fun t off => expiredPage t.1 ctm off)
    (fun t page => page.foldl (fun t e => (t.1.rem (parseInt e.1), parseInt e.1 :: t.2)) t)
    (z.card + 1) 0 (z, ([] : List (BitVec 64)))).map Prod.snd).getD []

theorem cleanSidZset_erased (s : Store) (ctm : Int) :
    ∃ s', s.cleanSidZset ctm = some s' ∧ Erased (· ∈ swept s.sidZset ctm) s s' := by
  have hshrink : ∀ (page : List (BitVec 64 × Int)) (s : Store),
      ((page.foldl (fun s e => s.cleanSessionDataBySid (parseInt e.1)) s).sidZset.rangeByScore none (some ctm)).length ≤
        (s.sidZset.rangeByScore none (some ctm)).length := by
    intro page
    induction page with
    | nil => exact fun s => le_rfl
    | cons e page ih => exact fun s => (ih _).trans (s.sidZset.length_range_rem_le _ _ _)
  obtain ⟨s', hs'⟩ := paged_total chatBatNum (by decide)
    (fun s : Store => s.sidZset.rangeByScore none (some ctm)) (fun _ _ => rfl) (fun s page => hshrink page s)
    s.sidZset.card 0 s (s.sidZset.length_range_le _ _)
  refine ⟨s', hs', ?_⟩
  -- the loop on the set of ids alone, which `swept` runs, reads the same pages
  let R (s' : Store) (t : ZSet (BitVec 64) × List (BitVec 64)) : Prop :=
    s'.sidZset = t.1 ∧ Erased (· ∈ t.2) s s'
  have hbody : ∀ (page : List (BitVec 64 × Int)) (s' : Store) (t : ZSet (BitVec 64) × List (BitVec 64)), R s' t →
      R (page.foldl (fun s e => s.cleanSessionDataBySid (parseInt e.1)) s')
        (page.foldl (fun t e => (t.1.rem (parseInt e.1), parseInt e.1 :: t.2)) t) := by
    intro page
    induction page with
    | nil => exact fun _ _ h => h
    | cons e page ih =>
      rintro s' ⟨z, ids⟩ ⟨rfl, herased⟩
      exact ih _ _ ⟨rfl, herased.clean (parseInt e.1)⟩
  obtain ⟨⟨z, ids⟩, ht, -, herased⟩ := paged_rel R (fun s' t off h => by rw [h.1])
    (fun s' t page h => hbody page s' t h)
    (s.sidZset.card + 1) 0 s (s.sidZset, []) s' ⟨rfl, rfl, by simp, by simp⟩ hs'
  have hids : swept s.sidZset ctm = ids := congrArg (fun o => (o.map Prod.snd).getD []) ht
  rw [hids]
  exact herased

/-! ## Requests -/

/-- Only what the new holder has is left of the session: its own data or nothing. -/
def Replaced (s : Store) (head : MesgHeader) (req : MesgOnline) (s' : Store) : Prop :=
  conflict (s.getSidAttr req.sid) head req →
    s'.attr req.sid = some ⟨head.cid, req.uid, head.nid⟩ ∧ (∀ uid, req.sid ∈ s'.uidToSid uid ↔ uid = req.uid) ∨
    s'.attr req.sid = none ∧ (∀ uid, req.sid ∉ s'.uidToSid uid) ∧ req.sid ∉ s'.sidZset

/-- An ONLINE that keeps the index. One that is carried out is for a user the session belongs to, if
it is online, and its clean-up deletes nothing but what it writes itself. One that is not is no
conflict with other data, and deletes nothing. -/
def KeepsOnline (s : Store) (head : MesgHeader) (req : MesgOnline) (seq : Bool) : Prop :=
  let attr := s.getSidAttr req.sid
  if seq then (conflict attr head req → head.sid = req.sid ∨ ¬s.Deletes head.sid attr.cid attr.nid) ∧
    ∀ attr ∈ s.attr req.sid, attr.uid = req.uid
  else conflict attr head req → ¬s.Deletes head.sid attr.cid attr.nid ∧
    s.attr req.sid = some ⟨head.cid, req.uid, head.nid⟩

theorem consistent_congr (hattr : s'.attr = s.attr) (huid : s'.uidToSid = s.uidToSid) :
    s'.Consistent ↔ s.Consistent := by
  unfold Consistent
  rw [hattr, huid]

theorem updateOnlineData_consistent_iff (nid : BitVec 32) (cid : BitVec 64) (now : Int) (hs : s.Consistent) :
    (s.updateOnlineData uid sid nid cid now).Consistent ↔ ∀ attr ∈ s.attr sid, attr.uid = uid := by
  constructor
  · intro hs' attr hattr
    by_contra hne
    have hmem : sid ∈ (s.updateOnlineData uid sid nid cid now).uidToSid attr.uid := by
      simp only [updateOnlineData, Function.update_of_ne hne]
      exact (hs _ _).2 ⟨attr, hattr, rfl⟩
    obtain ⟨attr', hattr', huid⟩ := (hs' _ _).1 hmem
    obtain rfl : ⟨cid, uid, nid⟩ = attr' := by simpa [updateOnlineData] using hattr'
    exact hne huid.symm
  · intro hsame uid' sid'
    simp only [updateOnlineData]
    rcases eq_or_ne sid' sid with rfl | hsid
    · rw [Function.update_self]
      rcases eq_or_ne uid' uid with rfl | huid
      · simp
      · rw [Function.update_of_ne huid, hs]
        constructor
        · rintro ⟨attr, hattr, rfl⟩
          exact absurd (hsame attr hattr) huid
        · rintro ⟨attr, hattr, huid'⟩
          obtain rfl : ⟨cid, uid, nid⟩ = attr := Option.some.inj hattr
          exact absurd huid'.symm huid
    · rw [Function.update_of_ne hsid, ← hs]
      rcases eq_or_ne uid' uid with rfl | huid
      · simp [hsid]
      · rw [Function.update_of_ne huid]

theorem conflict_isSome (h : conflict (s.getSidAttr sid) head req) : ∃ attr, s.attr sid = some attr := by
  cases hattr : s.attr sid with
  | some attr => exact ⟨attr, rfl⟩
  | none => simp [getSidAttr, hattr, conflict] at h

/-- What the clean-up of a conflict deletes, if it deletes anything. -/
theorem cleanConflict_erased (s : Store) (head : MesgHeader) (req : MesgOnline) :
    Erased (fun sid => sid = head.sid ∧ conflict (s.getSidAttr req.sid) head req ∧
      s.Deletes head.sid (s.getSidAttr req.sid).cid (s.getSidAttr req.sid).nid) s (s.cleanConflict head req) := by
  unfold cleanConflict
  by_cases hc : conflict (s.getSidAttr req.sid) head req
  · rw [if_pos hc]
    by_cases hdel : s.Deletes head.sid (s.getSidAttr req.sid).cid (s.getSidAttr req.sid).nid
    · rw [clean_of_match hdel.2.1 hdel.2.2]
      have h := cleanSessionDataBySid_erased s head.sid
      exact ⟨h.uidToSid, fun sid hsid => h.gone sid hsid.1, fun sid hsid => h.stays sid fun heq => hsid ⟨heq, hc, hdel⟩⟩
    · obtain ⟨hattr, huid⟩ := clean_frame hdel
      exact ⟨huid, fun sid hsid => absurd hsid.2.2 hdel, fun sid _ => congrFun hattr sid⟩
  · rw [if_neg hc]
    exact ⟨rfl, fun sid hsid => absurd hsid.2.1 hc, fun _ _ => rfl⟩

theorem imOnlineHandler_keeps_iff (hs : s.Consistent) (seq : Bool) :
    (s.imOnlineHandler head req now seq).Consistent ∧ s.Replaced head req (s.imOnlineHandler head req now seq) ↔
      s.KeepsOnline head req seq := by
  have herased := cleanConflict_erased s head req
  unfold imOnlineHandler KeepsOnline
  generalize s.cleanConflict head req = s₁ at herased ⊢
  cases seq with
  | true =>
    simp only [if_true]
    -- the data written replace those of the session whatever they were
    have hreplaced (h : (s₁.updateOnlineData req.uid req.sid head.nid head.cid now).Consistent) :
        s.Replaced head req (s₁.updateOnlineData req.uid req.sid head.nid head.cid now) := by
      refine fun _ => .inl ⟨Function.update_self .., fun uid => ?_⟩
      rw [h]
      simp [updateOnlineData, eq_comm]
    rw [and_iff_left_of_imp hreplaced]
    by_cases hdel : conflict (s.getSidAttr req.sid) head req → head.sid = req.sid ∨
        ¬s.Deletes head.sid (s.getSidAttr req.sid).cid (s.getSidAttr req.sid).nid
    · -- nothing is deleted but what is written again
      rw [and_iff_right hdel, ← updateOnlineData_consistent_iff head.nid head.cid now hs]
      refine consistent_congr ?_ (by simp only [updateOnlineData, herased.uidToSid])
      simp only [updateOnlineData]
      refine funext fun sid => ?_
      rcases eq_or_ne sid req.sid with rfl | hne
      · rw [Function.update_self, Function.update_self]
      · rw [Function.update_of_ne hne, Function.update_of_ne hne]
        refine herased.stays sid fun ⟨heq, hc, hd⟩ => ?_
        exact (hdel hc).elim (fun h => hne (heq.trans h)) fun h => h hd
    · simp only [hdel, false_and, iff_false]
      rw [Classical.not_imp, not_or, not_not] at hdel
      obtain ⟨hc, hne, hd⟩ := hdel
      obtain ⟨attr, hattr⟩ := Option.isSome_iff_exists.1 hd.1
      intro hcons
      have hmem : head.sid ∈ (s₁.updateOnlineData req.uid req.sid head.nid head.cid now).uidToSid attr.uid := by
        have hold : head.sid ∈ s.uidToSid attr.uid := (hs _ _).2 ⟨attr, hattr, rfl⟩
        simp only [updateOnlineData, herased.uidToSid, Function.update_apply]
        split
        · rename_i huid
          exact Finset.mem_insert_of_mem (huid ▸ hold)
        · exact hold
      obtain ⟨attr', hattr', -⟩ := (hcons _ _).1 hmem
      simp only [updateOnlineData, Function.update_of_ne hne, herased.gone head.sid ⟨rfl, hc, hd⟩] at hattr'
      cases hattr'
  | false =>
    simp only [Bool.false_eq_true, if_false]
    rw [herased.consistent_iff hs]
    constructor
    · rintro ⟨hnone, hreplaced⟩ hc
      have hdel : ¬s.Deletes head.sid (s.getSidAttr req.sid).cid (s.getSidAttr req.sid).nid := by
        intro hd
        have := hnone head.sid ⟨rfl, hc, hd⟩
        rw [Deletes, this] at hd
        cases hd.1
      have hstays := herased.stays req.sid fun h => hdel h.2.2
      refine ⟨hdel, ?_⟩
      obtain ⟨attr, hattr⟩ := conflict_isSome hc
      rcases hreplaced hc with ⟨hnew, -⟩ | ⟨hnew, -⟩
      · rw [← hnew, hstays]
      · rw [hstays, hattr] at hnew
        cases hnew
    · intro hkeep
      refine ⟨fun sid ⟨_, hc, hd⟩ => absurd hd (hkeep hc).1, fun hc => .inl ?_⟩
      obtain ⟨hdel, hattr⟩ := hkeep hc
      refine ⟨(herased.stays req.sid fun h => hdel h.2.2).trans hattr, fun uid => ?_⟩
      rw [herased.uidToSid, hs, hattr]
      simp [eq_comm]

theorem roomOnlineHandler_keeps_iff (hs : s.Consistent) :
    (s.roomOnlineHandler head req now).Consistent ∧ s.Replaced head req (s.roomOnlineHandler head req now) ↔
      s.KeepsOnline head req true :=
  imOnlineHandler_keeps_iff hs true

theorem pingHandler_consistent_iff (hs : s.Consistent) :
    (s.pingHandler head now).Consistent ↔
      ¬(s.Deletes head.sid head.cid head.nid ∧ (s.getSidAttr head.sid).uid = 0) := by
  unfold pingHandler updateSessionData
  by_cases huid : (s.getSidAttr head.sid).uid = 0
  · simp only [huid, if_true, and_true]
    exact clean_consistent_iff hs
  · simp only [huid, if_false, and_false, not_false_eq_true, iff_true]
    by_cases hnid : head.nid = (s.getSidAttr head.sid).nid
    · by_cases hcid : head.cid = (s.getSidAttr head.sid).cid
      · rw [if_neg (not_not.2 hnid), if_neg (not_not.2 hcid)]
        exact (consistent_congr rfl rfl).2 hs
      · rw [if_neg (not_not.2 hnid), if_pos hcid]
        exact (clean_consistent_iff hs).2 fun hd => hcid hd.2.1.symm
    · rw [if_pos hnid]
      exact (clean_consistent_iff hs).2 fun hd => hnid hd.2.2.symm

end Store

/-! ## Runs -/

namespace Stores

variable {s : Stores}

/-- What is to hold after an event: both indexes agree with the attributes, and a conflict has left
nothing of the previous holder. -/
structure Kept (s : Stores) (event : Event) (s' : Stores) : Prop where
  im : s'.im.Consistent
  room : s'.room.Consistent
  replaced : ∀ head req now seq, event = .online head req now seq →
    s.im.Replaced head req s'.im ∧ s.room.Replaced head req s'.room

/-- The events after which it does. -/
def Keeps (s : Stores) : Event → Prop
  | .online head req _ seq => s.im.KeepsOnline head req seq ∧ s.room.KeepsOnline head req true
  | .ping head _ => ¬(s.im.Deletes head.sid head.cid head.nid ∧ (s.im.getSidAttr head.sid).uid = 0) ∧
      ¬(s.room.Deletes head.sid head.cid head.nid ∧ (s.room.getSidAttr head.sid).uid = 0)
  | .offline head => ¬s.im.Deletes head.sid head.cid head.nid ∧ ¬s.room.Deletes head.sid head.cid head.nid
  | .sweep ctm => ∀ sid ∈ Store.swept s.im.sidZset ctm, s.im.attr sid = none

instance (s : Store) (sid cid : BitVec 64) (nid : BitVec 32) : Decidable (s.Deletes sid cid nid) :=
  inferInstanceAs (Decidable (_ ∧ _))

instance (s : Store) (head : MesgHeader) (req : MesgOnline) (seq : Bool) : Decidable (s.KeepsOnline head req seq) :=
  inferInstanceAs (Decidable (ite ..))

instance (s : Stores) : ∀ event, Decidable (s.Keeps event)
  | .online .. => inferInstanceAs (Decidable (_ ∧ _))
  | .ping .. => inferInstanceAs (Decidable (_ ∧ _))
  | .offline .. => inferInstanceAs (Decidable (_ ∧ _))
  | .sweep _ => inferInstanceAs (Decidable (∀ sid ∈ _, _))

theorem kept_iff_of_ne {event : Event} {s' : Stores} (hne : ∀ head req now seq, event ≠ .online head req now seq) :
    s.Kept event s' ↔ s'.im.Consistent ∧ s'.room.Consistent := by
  constructor
  · intro h
    exact ⟨h.im, h.room⟩
  · rintro ⟨him, hroom⟩
    exact ⟨him, hroom, fun head req now seq heq => absurd heq (hne head req now seq)⟩

theorem step_kept_iff (him : s.im.Consistent) (hroom : s.room.Consistent) (event : Event) :
    ∃ s', s.step event = some s' ∧ (s.Kept event s' ↔ s.Keeps event) := by
  cases event with
  | online head req now seq =>
    refine ⟨_, rfl, ?_⟩
    rw [Keeps, ← Store.imOnlineHandler_keeps_iff him seq, ← Store.roomOnlineHandler_keeps_iff hroom]
    constructor
    · intro h
      obtain ⟨hrim, hrroom⟩ := h.replaced head req now seq rfl
      exact ⟨⟨h.im, hrim⟩, h.room, hrroom⟩
    · rintro ⟨⟨hcim, hrim⟩, hcroom, hrroom⟩
      refine ⟨hcim, hcroom, fun head' req' now' seq' heq => ?_⟩
      cases heq
      exact ⟨hrim, hrroom⟩
  | ping head now =>
    refine ⟨_, rfl, ?_⟩
    rw [kept_iff_of_ne (by simp), Keeps, ← Store.pingHandler_consistent_iff him,
      ← Store.pingHandler_consistent_iff hroom]
  | offline head =>
    refine ⟨_, rfl, ?_⟩
    rw [kept_iff_of_ne (by simp), Keeps, ← Store.clean_consistent_iff him, ← Store.clean_consistent_iff hroom]
    rfl
  | sweep ctm =>
    obtain ⟨im', hsweep, herased⟩ := s.im.cleanSidZset_erased ctm
    refine ⟨{ s with im := im' }, by rw [step, hsweep]; rfl, ?_⟩
    rw [kept_iff_of_ne (by simp), Keeps, ← herased.consistent_iff him]
    exact and_iff_left hroom

/-- Every event of a run does what it is to do. -/
def AllKept : Stores → List Event → Prop
  | _, [] => True
  | s, event :: events => ∃ s', s.step event = some s' ∧ s.Kept event s' ∧ s'.AllKept events

/-- The state after an event -/
def next (s : Stores) (event : Event) : Stores := (s.step event).getD s

theorem allKept_iff (events : List Event) : ∀ {s : Stores}, s.im.Consistent → s.room.Consistent →
    (s.AllKept events ↔ Guarded next Keeps s events) := by
  induction events with
  | nil => exact fun _ _ => Iff.rfl
  | cons event events ih =>
    intro s him hroom
    obtain ⟨s', hstep, hkept⟩ := step_kept_iff him hroom event
    have hnext : s.next event = s' := by rw [next, hstep, Option.getD_some]
    simp only [AllKept, Guarded, hnext, hstep, Option.some.injEq, exists_eq_left']
    rw [← hkept]
    exact and_congr_right fun h => ih h.im h.room

/-- The index is kept over a run exactly when no event of it finds a login to delete, or
to give to another user. -/
theorem session_index_iff (events : List Event) : init.AllKept events ↔ Guarded next Keeps init events :=
  allKept_iff events Store.empty_consistent Store.empty_consistent

/-- A user who comes back on another connection -/
example : init.AllKept [.online ⟨5, 5, 1⟩ ⟨7, 5⟩ 0 true, .online ⟨6, 6, 2⟩ ⟨7, 5⟩ 200 true] :=
  (allKept_iff _ Store.empty_consistent Store.empty_consistent).2 (by decide)

/-- A session that has gone offline stays among those of its user. -/
theorem offline_keeps_sid : ¬∀ events, init.AllKept events := by
  intro h
  obtain ⟨s₁, h₁, -, s₂, h₂, hkept, -⟩ := h [.online ⟨5, 5, 1⟩ ⟨7, 5⟩ 0 true, .offline ⟨5, 5, 1⟩]
  cases h₁
  cases h₂
  obtain ⟨attr, hattr, -⟩ := (hkept.im 7 5).1 (by decide)
  cases hattr

end Stores

end BeehiveIm.Session
