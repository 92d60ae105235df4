/-
The rooms of the chat table, their groups and the sessions in them, against the relation that says
which session is in which group of which room. The counters count it.
-/
import BeehiveIm.Chat
import BeehiveIm.Core.HashTab.Slots
import Mathlib.Algebra.Order.BigOperators.Group.List

namespace BeehiveIm.Chat

open BeehiveIm.Lib BeehiveIm.Core

/-! ## Keys -/

theorem cmpOn_groupKey : CmpOn groupKey.cmp Set.univ where
  symm _ _ _ _ := by simp only [groupKey]; omega
  trans _ _ _ _ _ _ := by simp only [groupKey]; omega

theorem groupKey_set : KeySet groupKey chatGroupSlotLen Set.univ :=
  ⟨fun _ _ => .inl (Int.natCast_nonneg _), cmpOn_groupKey⟩

variable {len : Nat} {R : Set Rid} {S : Set SessionKey}

/-- Room ids and sessions that the tables of `len` slots, and the `sid_set` of a group, can
handle. -/
structure Ids (len : Nat) (R : Set Rid) (S : Set SessionKey) : Prop where
  pos : 0 < len
  lt : len < 2 ^ 31
  rooms : KeySet idKey len R
  sessions : KeySet sessionKey len S
  sidSets : KeySet sessionKey chatSidSlotLen S

/-- Ids below half of the range are such. -/
theorem ids_of_nonneg (pos : 0 < len) (lt : len < 2 ^ 31) :
    Ids len {r | 0 ≤ r.toInt} {k | 0 ≤ k.1.toInt ∧ 0 ≤ k.2.toInt} where
  pos := pos
  lt := lt
  rooms := ⟨fun _ h => .inl h, cmpOn_idKey⟩
  sessions := ⟨fun _ h => .inl h.1, cmpOn_sessionKey⟩
  sidSets := ⟨fun _ h => .inl h.1, cmpOn_sessionKey⟩

/-- An order on the sessions orders their ids. -/
theorem CmpOn.sids (h : CmpOn sessionKey.cmp S) : CmpOn idKey.cmp (Prod.fst '' S) := by
  have hne {a b : SessionKey} (hab : a.1 ≠ b.1) : sessionKey.cmp a b = idKey.cmp a.1 b.1 :=
    if_neg (mt (toInt_sub_eq_zero ..).1 hab)
  have hself (a : BitVec 64) : idKey.cmp a a = 0 := (idKey.cmp_eq_zero a a).2 rfl
  constructor
  · rintro _ ⟨a, ha, rfl⟩ _ ⟨b, hb, rfl⟩
    rcases eq_or_ne a.1 b.1 with hab | hab
    · simp [hab, hself]
    · rw [← hne hab, ← hne hab.symm]
      exact h.symm a ha b hb
  · rintro _ ⟨a, ha, rfl⟩ _ ⟨b, hb, rfl⟩ _ ⟨c, hc, rfl⟩ hle₁ hle₂
    rcases eq_or_ne a.1 b.1 with hab | hab
    · rwa [hab]
    rcases eq_or_ne b.1 c.1 with hbc | hbc
    · rwa [← hbc]
    rcases eq_or_ne a.1 c.1 with hac | hac
    · rw [hac, hself]
    · rw [← hne hab] at hle₁
      rw [← hne hbc] at hle₂
      rw [← hne hac]
      exact h.trans a ha b hb c hc hle₁ hle₂

theorem Ids.sids (h : Ids len R S) : KeySet idKey len (Prod.fst '' S) := by
  refine ⟨?_, CmpOn.sids h.sessions.cmpOn⟩
  rintro _ ⟨k, hk, rfl⟩
  exact h.sessions.hashOk k hk

/-! ## A group -/

variable {key : SessionKey}

/-- The group has the sessions of which `P` holds. -/
def GroupOk (S : Set SessionKey) (grp : ChatGroup) (P : SessionKey → Prop) : Prop :=
  ∃ keys, Stored sessionKey id S chatSidSlotLen grp.sidSet keys ∧ grp.sidNum = keys.length ∧ ∀ k, k ∈ keys ↔ P k

section Group

variable {grp : ChatGroup} {P Q : SessionKey → Prop}

theorem GroupOk.congr (h : GroupOk S grp P) (hPQ : ∀ k, P k ↔ Q k) : GroupOk S grp Q := by
  obtain ⟨keys, hst, hnum, hmem⟩ := h
  exact ⟨keys, hst, hnum, fun k => (hmem k).trans (hPQ k)⟩

theorem lookup_id (keys : List SessionKey) : lookup id keys key = if key ∈ keys then some key else none := by
  by_cases hmem : key ∈ keys
  · rw [if_pos hmem]
    cases hl : lookup id keys key with
    | none => exact absurd rfl (lookup_eq_none.1 hl key hmem)
    | some k => rw [show k = key from (lookup_mem hl).2]
  · rw [if_neg hmem, lookup_eq_none]
    rintro k hk rfl
    exact hmem hk

theorem GroupOk.has (h : GroupOk S grp P) : (sessionKey.query id grp.sidSet key).join.isSome ↔ P key := by
  obtain ⟨keys, hst, -, hmem⟩ := h
  have hq : (sessionKey.query id grp.sidSet key).join.isSome ↔ (lookup id keys key).isSome := by
    rw [Option.isSome_iff_exists, Option.isSome_iff_exists]
    exact exists_congr fun k => by rw [Option.join_eq_some_iff, hst.query_eq_some]
  rw [hq, lookup_id, ← hmem]
  by_cases hkey : key ∈ keys <;> simp [hkey]

theorem groupOk_empty (hS : KeySet sessionKey chatSidSlotLen S) (gid : BitVec 16) :
    GroupOk S ⟨gid, 0, HashTab.hashTabCreat SessionKey chatSidSlotLen⟩ fun _ => False :=
  ⟨[], hashTabCreat_stored (by decide) (by decide) hS, rfl, by simp⟩

/-- A session that is not in the group is put into its set, if there is memory. -/
theorem GroupOk.insert (h : GroupOk S grp P) (hk : key ∈ S) (hno : ¬P key) :
    ∃ sidSet, sessionKey.insert id grp.sidSet key true = some (sidSet, .ok) ∧
      GroupOk S { grp with sidNum := grp.sidNum + 1, sidSet := sidSet } fun k => P k ∨ k = key := by
  obtain ⟨keys, hst, hnum, hmem⟩ := h
  have hl : lookup id keys key = none := by rw [lookup_id, if_neg (mt (hmem key).1 hno)]
  obtain ⟨sidSet, hins, hst'⟩ := hst.insert_ok (e := key) hk hl
  refine ⟨sidSet, hins, key :: keys, hst', by simp [hnum], fun k => ?_⟩
  rw [List.mem_cons, hmem, or_comm]

theorem GroupOk.insert_err (h : GroupOk S grp P) (hk : key ∈ S) (hno : ¬P key) :
    sessionKey.insert id grp.sidSet key false = some (grp.sidSet, .err) := by
  obtain ⟨keys, hst, -, hmem⟩ := h
  exact hst.insert_err (e := key) hk (by rw [id, lookup_id, if_neg (mt (hmem key).1 hno)])

/-- A delete takes the session out of the set, if it is there. -/
theorem GroupOk.delete (h : GroupOk S grp P) (hk : key ∈ S) :
    ∃ sidSet, (P key ∧ sessionKey.delete id grp.sidSet key = some (sidSet, some key) ∧
        GroupOk S { grp with sidNum := grp.sidNum - 1, sidSet := sidSet } fun k => P k ∧ k ≠ key) ∨
      ¬P key ∧ sessionKey.delete id grp.sidSet key = some (sidSet, none) := by
  obtain ⟨keys, hst, hnum, hmem⟩ := h
  obtain ⟨sidSet, hdel, hst'⟩ := hst.delete hk
  rw [lookup_id] at hdel
  refine ⟨sidSet, ?_⟩
  by_cases hkey : key ∈ keys
  · rw [if_pos hkey] at hdel
    refine .inl ⟨(hmem key).1 hkey, hdel, without id keys key, hst', ?_, fun k => ?_⟩
    · have := (perm_without hst.nodup hkey).length_eq
      rw [List.length_cons] at this
      simp only [hnum, this, id]
      omega
    · rw [mem_without, hmem, id]
  · rw [if_neg hkey] at hdel
    exact .inr ⟨mt (hmem key).2 hkey, hdel⟩

theorem GroupOk.trav_once (h : GroupOk S grp P) :
    ∃ keys, grp.sidSet.hashTabTrav = some keys ∧ grp.sidNum = keys.length ∧ keys.Nodup ∧ ∀ k, k ∈ keys ↔ P k := by
  obtain ⟨live, hst, hnum, hmem⟩ := h
  obtain ⟨keys, htrav, hperm⟩ := hst.trav
  have hnodup := hst.nodup
  rw [List.map_id] at hnodup
  exact ⟨keys, htrav, by rw [hnum, hperm.length_eq], hperm.nodup_iff.2 hnodup, fun k => hperm.mem_iff.trans (hmem k)⟩

theorem GroupOk.trav (h : GroupOk S grp P) :
    ∃ keys, grp.sidSet.hashTabTrav = some keys ∧ grp.sidNum = keys.length ∧ ∀ k, k ∈ keys ↔ P k := by
  obtain ⟨keys, htrav, hnum, -, hmem⟩ := h.trav_once
  exact ⟨keys, htrav, hnum, hmem⟩

end Group

/-! ## A room -/

/-- Group `gid` of the room has the sessions of which `M gid` holds. -/
def RoomOk (S : Set SessionKey) (room : ChatRoom) (M : BitVec 16 → SessionKey → Prop) : Prop :=
  ∃ grps, Stored groupKey ChatGroup.gid Set.univ chatGroupSlotLen room.groups grps ∧
    room.sidNum = (grps.map ChatGroup.sidNum).sum ∧ (∀ grp ∈ grps, GroupOk S grp (M grp.gid)) ∧
    ∀ gid k, M gid k → ∃ grp ∈ grps, grp.gid = gid

section Room

variable {room : ChatRoom} {grp : ChatGroup} {gid : BitVec 16} {M M' : BitVec 16 → SessionKey → Prop}

theorem RoomOk.congr (h : RoomOk S room M) (hM : ∀ gid k, M gid k ↔ M' gid k) : RoomOk S room M' := by
  obtain ⟨grps, hst, hsum, hok, hex⟩ := h
  exact ⟨grps, hst, hsum, fun g hg => (hok g hg).congr (hM g.gid), fun gid k hk => hex gid k ((hM gid k).2 hk)⟩

theorem roomOk_empty (rid : Rid) : RoomOk S ⟨rid, 0, HashTab.hashTabCreat ChatGroup chatGroupSlotLen⟩ fun _ _ =>
    False :=
  ⟨[], hashTabCreat_stored (by decide) (by decide) groupKey_set, rfl, by simp, by simp⟩

theorem RoomOk.queried (h : RoomOk S room M) (hq : groupKey.query ChatGroup.gid room.groups gid = some (some grp)) :
    grp.gid = gid ∧ GroupOk S grp (M grp.gid) := by
  obtain ⟨grps, hst, -, hok, -⟩ := h
  obtain ⟨hg, hgid⟩ := lookup_mem (hst.query_eq_some.1 hq)
  exact ⟨hgid, hok grp hg⟩

/-- A query fails only for a group without sessions. -/
theorem RoomOk.query (h : RoomOk S room M) (gid : BitVec 16) :
    (∃ grp, groupKey.query ChatGroup.gid room.groups gid = some (some grp)) ∨
    groupKey.query ChatGroup.gid room.groups gid = some none ∧ ∀ k, ¬M gid k := by
  obtain ⟨grps, hst, -, -, hex⟩ := h
  rw [hst.query (Set.mem_univ _)]
  cases hl : lookup ChatGroup.gid grps gid with
  | some grp => exact .inl ⟨grp, rfl⟩
  | none =>
    refine .inr ⟨rfl, fun k hk => ?_⟩
    obtain ⟨grp, hg, hgid⟩ := hex gid k hk
    exact lookup_eq_none.1 hl grp hg hgid

theorem RoomOk.has (h : RoomOk S room M) : ((groupKey.query ChatGroup.gid room.groups gid).join.bind fun grp =>
    (sessionKey.query id grp.sidSet key).join).isSome ↔ M gid key := by
  rcases h.query gid with ⟨grp, hq⟩ | ⟨hq, hno⟩
  · obtain ⟨rfl, hok⟩ := h.queried hq
    rw [hq]
    exact hok.has
  · rw [hq]
    simpa using hno key

/-- A group without sessions is made. -/
theorem RoomOk.addGroup (h : RoomOk S room M) (hS : KeySet sessionKey chatSidSlotLen S)
    (hq : groupKey.query ChatGroup.gid room.groups gid = some none) (hno : ∀ k, ¬M gid k) :
    ∃ groups grp, chatGroupAddByGid room.groups gid = some groups ∧ RoomOk S { room with groups := groups } M ∧
      groupKey.query ChatGroup.gid groups gid = some (some grp) := by
  obtain ⟨grps, hst, hsum, hok, hex⟩ := h
  rw [hst.query (Set.mem_univ _)] at hq
  obtain ⟨groups, hins, hst'⟩ := hst.insert_ok (e := ⟨gid, 0, HashTab.hashTabCreat SessionKey chatSidSlotLen⟩)
    (Set.mem_univ _) (Option.some.inj hq)
  refine ⟨groups, _, by rw [chatGroupAddByGid, hins]; rfl,
    ⟨_, hst', by simp [hsum], List.forall_mem_cons.2 ⟨?_, hok⟩, ?_⟩,
    hst'.query_eq_some.2 (by rw [lookup_cons, if_pos rfl])⟩
  · exact (groupOk_empty hS gid).congr fun k => by simpa using hno k
  · intro gid' k hk
    obtain ⟨grp, hg, hgid⟩ := hex gid' k hk
    exact ⟨grp, List.mem_cons_of_mem _ hg, hgid⟩

/-- `QUERY_GROUP` ends with the group, and the room has the sessions it had. -/
theorem RoomOk.queryGroup (h : RoomOk S room M) (hS : KeySet sessionKey chatSidSlotLen S) (gid : BitVec 16) :
    ∃ groups grp, queryGroup 2 room.groups gid = some (groups, grp) ∧ RoomOk S { room with groups := groups } M ∧
      groupKey.query ChatGroup.gid groups gid = some (some grp) := by
  rcases h.query gid with ⟨grp, hq⟩ | ⟨hq, hno⟩
  · exact ⟨room.groups, grp, by simp [Chat.queryGroup, hq], h, hq⟩
  · obtain ⟨groups, grp, hadd, h', hgrp⟩ := h.addGroup hS hq hno
    exact ⟨groups, grp, by simp [Chat.queryGroup, hq, hadd, hgrp], h', hgrp⟩

/-- One group and the count of the room are written. -/
theorem RoomOk.put (h : RoomOk S room M) (hq : groupKey.query ChatGroup.gid room.groups gid = some (some grp))
    (grp' : ChatGroup) (sidNum : Int) (M' : BitVec 16 → SessionKey → Prop) (hgid : grp'.gid = gid)
    (hok' : GroupOk S grp' (M' gid)) (hother : ∀ gid', gid' ≠ gid → ∀ k, M gid' k ↔ M' gid' k)
    (hnum : sidNum = room.sidNum + (grp'.sidNum - grp.sidNum)) :
    ∃ room', putGroup room grp' sidNum = some room' ∧ room'.rid = room.rid ∧ RoomOk S room' M' := by
  obtain ⟨grps, hst, hsum, hok, hex⟩ := h
  have hl := hst.query_eq_some.1 hq
  obtain ⟨groups, hw, hst'⟩ := hst.write (Set.mem_univ gid)
    (g := fun g => { g with sidNum := grp'.sidNum, sidSet := grp'.sidSet }) fun _ => rfl
  refine ⟨{ room with sidNum := sidNum, groups := groups }, by rw [putGroup, hgid, hw]; rfl, rfl, _, hst', ?_, ?_, ?_⟩
  · rw [sum_writeAt ChatGroup.sidNum hst.nodup hl, hnum, hsum]
  · refine forall_writeAt (Q := fun gid grp => GroupOk S grp (M' gid)) (fun _ => rfl) (fun g hg hne => ?_) fun g _ _ =>
      hok'
    exact (hok g hg).congr (hother g.gid hne)
  · intro gid' k hk
    have hmem : gid' ∈ grps.map ChatGroup.gid := by
      rcases eq_or_ne gid' gid with rfl | hne
      · obtain ⟨hg, hgid⟩ := lookup_mem hl
        exact hgid ▸ List.mem_map_of_mem hg
      · obtain ⟨g, hg, rfl⟩ := hex gid' k ((hother gid' hne k).2 hk)
        exact List.mem_map_of_mem hg
    rw [← map_key_writeAt (k := gid) (g := fun g : ChatGroup => { g with sidNum := grp'.sidNum, sidSet := grp'.sidSet })
      fun _ => rfl] at hmem
    exact List.mem_map.1 hmem

/-- A room that counts no session has none. -/
theorem RoomOk.empty (h : RoomOk S room M) (hnum : room.sidNum = 0) (gid : BitVec 16) (k : SessionKey) : ¬M gid k := by
  intro hM
  obtain ⟨grps, hst, hsum, hok, hex⟩ := h
  obtain ⟨grp, hgrp, rfl⟩ := hex gid k hM
  have hpos : ∀ g ∈ grps, 0 ≤ g.sidNum := fun g hg => by
    obtain ⟨keys, -, hlen, -⟩ := hok g hg
    omega
  have hzero : grp.sidNum = 0 := by
    have hle := List.single_le_sum (l := grps.map ChatGroup.sidNum)
      (by simpa using hpos) grp.sidNum
      (List.mem_map_of_mem hgrp)
    have := hpos grp hgrp
    omega
  obtain ⟨keys, -, hlen, hmem⟩ := hok grp hgrp
  have hnil : keys = [] := List.length_eq_zero_iff.1 (by omega)
  have hkey := (hmem k).2 hM
  rw [hnil] at hkey
  cases hkey

theorem RoomOk.trav (h : RoomOk S room M) : ∃ grps, room.groups.hashTabTrav = some grps ∧
    room.sidNum = (grps.map ChatGroup.sidNum).sum ∧ ∀ grp ∈ grps, GroupOk S grp (M grp.gid) := by
  obtain ⟨live, hst, hsum, hok, -⟩ := h
  obtain ⟨grps, htrav, hperm⟩ := hst.trav
  exact ⟨grps, htrav, by rw [hsum, List.Perm.sum_eq (hperm.map _)], fun grp hgrp => hok grp (hperm.mem_iff.1 hgrp)⟩

theorem RoomOk.mem_trav (h : RoomOk S room M) {grps : List ChatGroup} (htrav : room.groups.hashTabTrav = some grps)
    {k : SessionKey} (hM : M gid k) : ∃ grp ∈ grps, grp.gid = gid := by
  obtain ⟨live, hst, -, -, hex⟩ := h
  obtain ⟨grps', htrav', hperm⟩ := hst.trav
  obtain rfl : grps' = grps := Option.some.inj (htrav'.symm.trans htrav)
  obtain ⟨grp, hgrp, hgid⟩ := hex gid k hM
  exact ⟨grp, hperm.mem_iff.2 hgrp, hgid⟩

theorem RoomOk.nodup_trav (h : RoomOk S room M) {grps : List ChatGroup} (htrav : room.groups.hashTabTrav = some grps) :
    (grps.map ChatGroup.gid).Nodup := by
  obtain ⟨live, hst, -, -, -⟩ := h
  obtain ⟨grps', htrav', hperm⟩ := hst.trav
  obtain rfl : grps' = grps := Option.some.inj (htrav'.symm.trans htrav)
  exact (hperm.map ChatGroup.gid).nodup_iff.2 hst.nodup

/-- Group 0 stands for all groups. A session that is in one group only is visited once. -/
theorem RoomOk.chatGroupTrav_once (h : RoomOk S room M) (gid : BitVec 16) : ∃ keys, chatGroupTrav room gid = some keys ∧
    (∀ k, k ∈ keys ↔ ∃ g, (gid = 0 ∨ g = gid) ∧ M g k) ∧ ((∀ g g' k, M g k → M g' k → g = g') → keys.Nodup) := by
  unfold Chat.chatGroupTrav
  by_cases hgid : gid = 0
  · obtain ⟨grps, htrav, -, hgrps⟩ := h.trav
    let keysOf (grp : ChatGroup) : List SessionKey := grp.sidSet.hashTabTrav.getD []
    have hkeys : ∀ grp ∈ grps, grp.sidSet.hashTabTrav = some (keysOf grp) ∧ (keysOf grp).Nodup ∧
        ∀ k, k ∈ keysOf grp ↔ M grp.gid k := by
      intro grp hgrp
      obtain ⟨keys, htrav, -, hnodup, hmem⟩ := (hgrps grp hgrp).trav_once
      simp [keysOf, htrav, hnodup, hmem]
    refine ⟨grps.flatMap keysOf, ?_, fun k => ?_, fun hone => ?_⟩
    · rw [if_pos hgid, chatRoomTravAllGroup, htrav]
      exact foldlM_append grps [] fun grp hgrp => (hkeys grp hgrp).1
    · rw [List.mem_flatMap]
      constructor
      · rintro ⟨grp, hgrp, hk⟩
        exact ⟨grp.gid, .inl hgid, ((hkeys grp hgrp).2.2 k).1 hk⟩
      · rintro ⟨g, -, hM⟩
        obtain ⟨grp, hgrp, rfl⟩ := h.mem_trav htrav hM
        exact ⟨grp, hgrp, ((hkeys grp hgrp).2.2 k).2 hM⟩
    · refine List.nodup_flatMap.2 ⟨fun grp hgrp => (hkeys grp hgrp).2.1, ?_⟩
      have hne : grps.Pairwise fun g g' => g.gid ≠ g'.gid := List.pairwise_map.1 (h.nodup_trav htrav)
      refine hne.imp_of_mem fun {g g'} hg hg' hgids k hk hk' => ?_
      exact hgids (hone _ _ k (((hkeys g hg).2.2 k).1 hk) (((hkeys g' hg').2.2 k).1 hk'))
  · rw [if_neg hgid]
    rcases h.query gid with ⟨grp, hq⟩ | ⟨hq, hno⟩
    · obtain ⟨rfl, hok⟩ := h.queried hq
      obtain ⟨keys, htrav, -, hnodup, hmem⟩ := hok.trav_once
      exact ⟨keys, by rw [hq]; exact htrav, fun k => by simp only [hmem, hgid, false_or, exists_eq_left],
        fun _ => hnodup⟩
    · exact ⟨[], by rw [hq], fun k => by simp only [List.not_mem_nil, hgid, false_or, exists_eq_left, hno k],
        fun _ => .nil⟩

theorem RoomOk.chatGroupTrav (h : RoomOk S room M) (gid : BitVec 16) : ∃ keys, chatGroupTrav room gid = some keys ∧
    ∀ k, k ∈ keys ↔ ∃ g, (gid = 0 ∨ g = gid) ∧ M g k := by
  obtain ⟨keys, htrav, hmem, -⟩ := h.chatGroupTrav_once gid
  exact ⟨keys, htrav, hmem⟩

theorem RoomOk.chatGroupAddSession (h : RoomOk S room M) (hS : KeySet sessionKey chatSidSlotLen S) (gid : BitVec 32)
    (mem : Mem) (hk : key ∈ S) (hno : ¬M (gid.setWidth 16) key) :
    ∃ room', chatGroupAddSession room gid key mem = some (room', mem.sid && mem.sidNode) ∧ room'.rid = room.rid ∧
      RoomOk S room' fun g k => M g k ∨ (mem.sid && mem.sidNode) ∧ g = gid.setWidth 16 ∧ k = key := by
  obtain ⟨groups, grp, hgroups, h', hq⟩ := h.queryGroup hS (gid.setWidth 16)
  obtain ⟨hgid, hgok⟩ := h'.queried hq
  rw [Chat.chatGroupAddSession, hgroups]
  simp only [groupAddSession]
  cases hsid : mem.sid with
  | false => exact ⟨{ room with groups := groups }, by simp, rfl, h'.congr fun _ _ => by simp⟩
  | true =>
    rw [hgid] at hgok
    cases hnode : mem.sidNode with
    | false =>
      rw [hgok.insert_err hk hno]
      exact ⟨{ room with groups := groups }, by simp, rfl, h'.congr fun _ _ => by simp⟩
    | true =>
      obtain ⟨sidSet, hins, hgok'⟩ := hgok.insert hk hno
      obtain ⟨room', hput, hrid, hok'⟩ := h'.put hq { grp with sidNum := grp.sidNum + 1, sidSet := sidSet }
        (room.sidNum + 1) (fun g k => M g k ∨ g = gid.setWidth 16 ∧ k = key) hgid
        (hgok'.congr fun k => by simp) (fun g hne k => by simp [hne]) (by simp)
      rw [hins]
      exact ⟨room', by simp [hput], hrid, hok'.congr fun _ _ => by simp⟩

theorem RoomOk.chatGroupDelSession (h : RoomOk S room M) (gid : BitVec 32) (hk : key ∈ S) :
    ∃ room', chatGroupDelSession room gid key = some room' ∧ room'.rid = room.rid ∧
      RoomOk S room' fun g k => M g k ∧ ¬(g = gid.setWidth 16 ∧ k = key) := by
  rw [Chat.chatGroupDelSession]
  -- where nothing is deleted, there is nothing to take out of the relation
  have hsame (hno : ¬M (gid.setWidth 16) key) : RoomOk S room fun g k => M g k ∧ ¬(g = gid.setWidth 16 ∧ k = key) := by
    refine h.congr fun g k => ⟨fun hM => ⟨hM, ?_⟩, And.left⟩
    rintro ⟨rfl, rfl⟩
    exact hno hM
  rcases h.query (gid.setWidth 16) with ⟨grp, hq⟩ | ⟨hq, hno⟩
  · obtain ⟨hgid, hgok⟩ := h.queried hq
    rw [hgid] at hgok
    simp only [hq, groupDelSession]
    obtain ⟨sidSet, ⟨-, hdel, hgok'⟩ | ⟨hno, hdel⟩⟩ := hgok.delete hk
    · obtain ⟨room', hput, hrid, hok'⟩ := h.put hq { grp with sidNum := grp.sidNum - 1, sidSet := sidSet }
        (room.sidNum - 1) (fun g k => M g k ∧ ¬(g = gid.setWidth 16 ∧ k = key)) hgid
        (hgok'.congr fun k => by simp) (fun g hne k => by simp [hne]) (by simp only; omega)
      rw [hdel]
      exact ⟨room', hput, hrid, hok'⟩
    · rw [hdel]
      exact ⟨room, rfl, rfl, hsame hno⟩
  · rw [hq]
    exact ⟨room, rfl, rfl, hsame (hno key)⟩

end Room

/-! ## The rooms -/

abbrev Members := Rid → BitVec 16 → SessionKey → Prop

/-- Group `gid` of room `rid` has the sessions of which `M rid gid` holds. -/
def RoomsOk (len : Nat) (R : Set Rid) (S : Set SessionKey) (rooms : HashTab ChatRoom) (M : Members) : Prop :=
  ∃ rs, Stored idKey ChatRoom.rid R len rooms rs ∧ (∀ room ∈ rs, RoomOk S room (M room.rid)) ∧
    ∀ rid gid k, M rid gid k → ∃ room ∈ rs, room.rid = rid

section Rooms

variable {rooms : HashTab ChatRoom} {room : ChatRoom} {rid : Rid} {gid : BitVec 32} {M M' : Members}

theorem RoomsOk.congr (h : RoomsOk len R S rooms M) (hM : ∀ rid gid k, M rid gid k ↔ M' rid gid k) :
    RoomsOk len R S rooms M' := by
  obtain ⟨rs, hst, hok, hex⟩ := h
  exact ⟨rs, hst, fun r hr => (hok r hr).congr (hM r.rid), fun rid gid k hk => hex rid gid k ((hM rid gid k).2 hk)⟩

theorem roomsOk_empty (h : Ids len R S) : RoomsOk len R S (HashTab.hashTabCreat ChatRoom len) fun _ _ _ => False :=
  ⟨[], hashTabCreat_stored h.pos h.lt h.rooms, by simp, by simp⟩

theorem RoomsOk.queried (h : RoomsOk len R S rooms M) (hq : idKey.query ChatRoom.rid rooms rid = some (some room)) :
    room.rid = rid ∧ RoomOk S room (M room.rid) := by
  obtain ⟨rs, hst, hok, -⟩ := h
  obtain ⟨hr, hrid⟩ := lookup_mem (hst.query_eq_some.1 hq)
  exact ⟨hrid, hok room hr⟩

/-- A query fails only for a room without sessions. -/
theorem RoomsOk.query (h : RoomsOk len R S rooms M) (hr : rid ∈ R) :
    (∃ room, idKey.query ChatRoom.rid rooms rid = some (some room)) ∨
    idKey.query ChatRoom.rid rooms rid = some none ∧ ∀ gid k, ¬M rid gid k := by
  obtain ⟨rs, hst, -, hex⟩ := h
  rw [hst.query hr]
  cases hl : lookup ChatRoom.rid rs rid with
  | some room => exact .inl ⟨room, rfl⟩
  | none =>
    refine .inr ⟨rfl, fun gid k hk => ?_⟩
    obtain ⟨room, hroom, hrid⟩ := hex rid gid k hk
    exact lookup_eq_none.1 hl room hroom hrid

theorem RoomsOk.has {gid : BitVec 16} (h : RoomsOk len R S rooms M) :
    ((idKey.query ChatRoom.rid rooms rid).join.bind fun room =>
      (groupKey.query ChatGroup.gid room.groups gid).join.bind fun grp =>
        (sessionKey.query id grp.sidSet key).join).isSome ↔ M rid gid key := by
  cases hq : (idKey.query ChatRoom.rid rooms rid).join with
  | some room =>
    obtain ⟨rfl, hok⟩ := h.queried (Option.join_eq_some_iff.1 hq)
    exact hok.has
  | none =>
    obtain ⟨rs, hst, -, hex⟩ := h
    simp only [Option.bind_none, Option.isSome_none, Bool.false_eq_true, false_iff]
    intro hM
    obtain ⟨room, hroom, rfl⟩ := hex rid gid key hM
    rw [hst.query (hst.keys room hroom), lookup_eq_some hst.nodup hroom] at hq
    cases hq

theorem RoomsOk.trav (h : RoomsOk len R S rooms M) : ∃ rs, rooms.hashTabTrav = some rs ∧
    ∀ room ∈ rs, room.rid ∈ R ∧ RoomOk S room (M room.rid) := by
  obtain ⟨live, hst, hok, -⟩ := h
  obtain ⟨rs, htrav, hperm⟩ := hst.trav
  refine ⟨rs, htrav, fun room hroom => ?_⟩
  rw [hperm.mem_iff] at hroom
  exact ⟨hst.keys room hroom, hok room hroom⟩

/-- A room without sessions is made. -/
theorem RoomsOk.addRoom (h : RoomsOk len R S rooms M) (hr : rid ∈ R)
    (hq : idKey.query ChatRoom.rid rooms rid = some none) (hno : ∀ gid k, ¬M rid gid k) :
    ∃ rooms' room, chatAddRoom rooms rid = some rooms' ∧ RoomsOk len R S rooms' M ∧
      idKey.query ChatRoom.rid rooms' rid = some (some room) := by
  obtain ⟨rs, hst, hok, hex⟩ := h
  rw [hst.query hr] at hq
  obtain ⟨rooms', hins, hst'⟩ := hst.insert_ok (e := ⟨rid, 0, HashTab.hashTabCreat ChatGroup chatGroupSlotLen⟩)
    hr (Option.some.inj hq)
  refine ⟨rooms', _, by rw [chatAddRoom, hins]; rfl, ⟨_, hst', List.forall_mem_cons.2 ⟨?_, hok⟩, ?_⟩,
    hst'.query_eq_some.2 (by rw [lookup_cons, if_pos rfl])⟩
  · exact (roomOk_empty rid).congr fun gid k => by simpa using hno gid k
  · intro rid' gid k hk
    obtain ⟨room, hroom, hrid⟩ := hex rid' gid k hk
    exact ⟨room, List.mem_cons_of_mem _ hroom, hrid⟩

/-- `QUERY_ROOM` ends with the room, and the rooms have the sessions they had. -/
theorem RoomsOk.queryRoom (h : RoomsOk len R S rooms M) (hr : rid ∈ R) :
    ∃ rooms' room, queryRoom 2 rooms rid = some (rooms', room) ∧ RoomsOk len R S rooms' M ∧
      idKey.query ChatRoom.rid rooms' rid = some (some room) := by
  rcases h.query hr with ⟨room, hq⟩ | ⟨hq, hno⟩
  · exact ⟨rooms, room, by simp [Chat.queryRoom, hq], h, hq⟩
  · obtain ⟨rooms', room, hadd, h', hroom⟩ := h.addRoom hr hq hno
    exact ⟨rooms', room, by simp [Chat.queryRoom, hq, hadd, hroom], h', hroom⟩

/-- One room is written. -/
theorem RoomsOk.put (h : RoomsOk len R S rooms M) (hq : idKey.query ChatRoom.rid rooms rid = some (some room))
    (room' : ChatRoom) (M' : Members) (hrid : room'.rid = rid) (hok' : RoomOk S room' (M' rid))
    (hother : ∀ rid', rid' ≠ rid → ∀ gid k, M rid' gid k ↔ M' rid' gid k) :
    ∃ rooms', putRoom rooms room' = some rooms' ∧ RoomsOk len R S rooms' M' := by
  obtain ⟨rs, hst, hok, hex⟩ := h
  obtain ⟨hroom, hroomRid⟩ := lookup_mem (hst.query_eq_some.1 hq)
  obtain ⟨rooms', hw, hst'⟩ := hst.write (hroomRid ▸ hst.keys room hroom)
    (g := fun r => { r with sidNum := room'.sidNum, groups := room'.groups }) fun _ => rfl
  refine ⟨rooms', by rw [putRoom, hrid, hw], _, hst', ?_, ?_⟩
  · refine forall_writeAt (Q := fun rid room => RoomOk S room (M' rid)) (fun _ => rfl) (fun r hr hne => ?_) fun r _ _ =>
      hok'
    exact (hok r hr).congr (hother r.rid hne)
  · intro rid' gid k hk
    have hmem : rid' ∈ rs.map ChatRoom.rid := by
      rcases eq_or_ne rid' rid with rfl | hne
      · exact hroomRid ▸ List.mem_map_of_mem hroom
      · obtain ⟨r, hr, rfl⟩ := hex rid' gid k ((hother rid' hne gid k).2 hk)
        exact List.mem_map_of_mem hr
    rw [← map_key_writeAt (k := rid)
      (g := fun r : ChatRoom => { r with sidNum := room'.sidNum, groups := room'.groups })
      fun _ => rfl] at hmem
    exact List.mem_map.1 hmem

theorem RoomsOk.roomAddSession (h : RoomsOk len R S rooms M) (hS : KeySet sessionKey chatSidSlotLen S) (gid : BitVec 32)
    (mem : Mem) (hr : rid ∈ R) (hk : key ∈ S) (hno : ¬M rid (gid.setWidth 16) key) :
    ∃ rooms', roomAddSession rooms rid gid key mem = some (rooms', mem.sid && mem.sidNode) ∧
      RoomsOk len R S rooms' fun r g k => M r g k ∨ (mem.sid && mem.sidNode) ∧ r = rid ∧ g = gid.setWidth 16 ∧
      k = key := by
  obtain ⟨rooms₁, room, hquery, h₁, hq⟩ := h.queryRoom hr
  obtain ⟨rfl, hok⟩ := h₁.queried hq
  obtain ⟨room', hadd, hrid, hok'⟩ := hok.chatGroupAddSession hS gid mem hk hno
  obtain ⟨rooms', hput, h'⟩ := h₁.put hq room'
    (fun r g k => M r g k ∨ (mem.sid && mem.sidNode) ∧ r = room.rid ∧ g = gid.setWidth 16 ∧ k = key) hrid
    (hok'.congr fun g k => by simp) fun r hne g k => by simp [hne]
  exact ⟨rooms', by simp [Chat.roomAddSession, hquery, hadd, hput], h'⟩

theorem RoomsOk.roomDelSession (h : RoomsOk len R S rooms M) (gid : BitVec 32) (hr : rid ∈ R) (hk : key ∈ S) :
    ∃ rooms', roomDelSession rooms rid gid key = some rooms' ∧
      RoomsOk len R S rooms' fun r g k => M r g k ∧ ¬(r = rid ∧ g = gid.setWidth 16 ∧ k = key) := by
  rw [Chat.roomDelSession]
  rcases h.query hr with ⟨room, hq⟩ | ⟨hq, hno⟩
  · obtain ⟨rfl, hok⟩ := h.queried hq
    obtain ⟨room', hdel, hrid, hok'⟩ := hok.chatGroupDelSession gid hk
    obtain ⟨rooms', hput, h'⟩ := h.put hq room'
      (fun r g k => M r g k ∧ ¬(r = room.rid ∧ g = gid.setWidth 16 ∧ k = key)) hrid
      (hok'.congr fun g k => by simp) fun r hne g k => by simp [hne]
    exact ⟨rooms', by simp [hq, hdel, hput], h'⟩
  · refine ⟨rooms, by simp [hq], h.congr fun r g k => ⟨fun hM => ⟨hM, ?_⟩, And.left⟩⟩
    rintro ⟨rfl, rfl, rfl⟩
    exact hno _ _ hM

/-- A room whose count is 0 has no session, so it can go. -/
theorem RoomsOk.chatDelRoom (h : RoomsOk len R S rooms M) (hr : rid ∈ R) :
    ∃ rooms', chatDelRoom rooms rid = some rooms' ∧ RoomsOk len R S rooms' M := by
  rw [Chat.chatDelRoom]
  rcases h.query hr with ⟨room, hq⟩ | ⟨hq, -⟩
  · simp only [hq]
    by_cases hnum : room.sidNum = 0
    · rw [if_neg (not_not.2 hnum)]
      obtain ⟨rfl, hok⟩ := h.queried hq
      have hno : ∀ gid k, ¬M room.rid gid k := hok.empty hnum
      obtain ⟨rs, hst, hoks, hex⟩ := h
      obtain ⟨rooms', hdel, hst'⟩ := hst.delete hr
      refine ⟨rooms', by rw [hdel]; rfl, _, hst', fun r hr => hoks r (mem_without.1 hr).1, fun rid gid k hM => ?_⟩
      obtain ⟨r, hrmem, rfl⟩ := hex rid gid k hM
      refine ⟨r, mem_without.2 ⟨hrmem, fun heq => ?_⟩, rfl⟩
      exact hno gid k (heq ▸ hM)
    · exact ⟨rooms, if_pos hnum, h⟩
  · exact ⟨rooms, by simp [hq], h⟩

end Rooms

end BeehiveIm.Chat
