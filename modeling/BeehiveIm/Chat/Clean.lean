/-
`chat_room_clean_hdl` after any calls: the rooms that count no session go and nothing else
changes, unless one of them is room 0, which the loop takes for the end of its list, or there
was no memory to list it.
-/
import BeehiveIm.Chat.Calls.Ledger
import Mathlib.Data.List.TakeWhile

namespace BeehiveIm.Chat

open BeehiveIm.Lib BeehiveIm.Core

variable {len : Nat} {R : Set Rid} {S : Set SessionKey}

/-! ## The list -/

section List

variable {rs : List ChatRoom} {pushed : Rid → Bool} {rid : Rid}

theorem mem_cleanList : rid ∈ ChatTab.cleanList rs pushed ↔ ∃ room ∈ rs, room.rid = rid ∧ room.sidNum = 0 ∧
    pushed rid := by
  unfold ChatTab.cleanList
  constructor
  · intro hmem
    obtain ⟨room, hroom, rfl⟩ := List.mem_map.1 hmem
    obtain ⟨hroom, hcond⟩ := List.mem_filter.1 hroom
    obtain ⟨hnum, hpushed⟩ := of_decide_eq_true hcond
    exact ⟨room, hroom, rfl, hnum, hpushed⟩
  · rintro ⟨room, hroom, rfl, hnum, hpushed⟩
    exact List.mem_map_of_mem (List.mem_filter.2 ⟨hroom, decide_eq_true ⟨hnum, hpushed⟩⟩)

variable {rids : List Rid}

theorem takeWhile_of_zero (hzero : 0 ∉ rids) : rids.takeWhile (· ≠ 0) = rids := by
  refine List.takeWhile_eq_self_iff.2 fun rid hrid => ?_
  have hne : rid ≠ 0 := ne_of_mem_of_not_mem hrid hzero
  exact decide_eq_true hne

/-- What the loop comes to is on the list, and not 0. -/
theorem mem_takeWhile (hrid : rid ∈ rids.takeWhile (· ≠ 0)) : rid ∈ rids ∧ rid ≠ 0 := by
  constructor
  · exact (List.takeWhile_prefix _).mem hrid
  · have hall : (rids.takeWhile (· ≠ 0)).all (· ≠ 0) := List.all_takeWhile
    exact of_decide_eq_true (List.all_eq_true.1 hall rid hrid)

end List

/-! ## The call -/

namespace ChatState

variable {C : ChatState} {L : Ledger} {pushed : Rid → Bool}

/-- The room that a query finds. -/
def room (C : ChatState) (rid : Rid) : Option ChatRoom := (idKey.query ChatRoom.rid C.tab.rooms rid).join

/-- The clean-up ends, the rooms that count no session are gone and everything else is as it was. -/
def CleansExactly (C : ChatState) (pushed : Rid → Bool) : Prop :=
  ∃ C', C.chatRoomCleanHdl pushed = some C' ∧ (∀ rid, C'.room rid = (C.room rid).filter (·.sidNum ≠ 0)) ∧
    C'.tab.sessions = C.tab.sessions ∧ C'.tab.sid2cids = C.tab.sid2cids ∧ C'.tab.rdlocked = C.tab.rdlocked ∧
    C'.sub = C.sub ∧ C'.wrlocked = C.wrlocked

theorem room_eq {rs : List ChatRoom} (hst : Stored idKey ChatRoom.rid R len C.tab.rooms rs) (rid : Rid) :
    C.room rid = lookup ChatRoom.rid rs rid := by
  unfold room
  ext room
  rw [Option.join_eq_some_iff, hst.query_eq_some]

/-- The rooms of the list up to room 0 are looked at. -/
theorem chatRoomCleanHdl_spec {rs : List ChatRoom} (pushed : Rid → Bool)
    (hst : Stored idKey ChatRoom.rid R len C.tab.rooms rs) :
    ∃ rids : List Rid, (∀ rid, rid ∈ rids ↔ ∃ room, C.room rid = some room ∧ room.sidNum = 0 ∧ pushed rid) ∧
      (0 ∉ rids → (C.chatRoomCleanHdl pushed).isSome) ∧
      ∀ C', C.chatRoomCleanHdl pushed = some C' →
        (∀ rid, C'.room rid = if rid ∈ rids.takeWhile (· ≠ 0) then (C.room rid).filter (·.sidNum ≠ 0) else C.room rid) ∧
        C' = { C with tab := { C.tab with rooms := C'.tab.rooms } } := by
  obtain ⟨rs₁, htrav, hperm⟩ := hst.trav
  have hmem (rid : Rid) : rid ∈ ChatTab.cleanList rs₁ pushed ↔
      ∃ room, C.room rid = some room ∧ room.sidNum = 0 ∧ pushed rid := by
    rw [mem_cleanList]
    constructor
    · rintro ⟨room, hroom, rfl, hnum, hpushed⟩
      refine ⟨room, ?_, hnum, hpushed⟩
      rw [room_eq hst]
      exact lookup_eq_some hst.nodup (hperm.mem_iff.1 hroom)
    · rintro ⟨room, hroom, hnum, hpushed⟩
      rw [room_eq hst] at hroom
      obtain ⟨hmem, hrid⟩ := lookup_mem hroom
      exact ⟨room, hperm.mem_iff.2 hmem, hrid, hnum, hpushed⟩
  have hR : ∀ rid ∈ ChatTab.cleanList rs₁ pushed, rid ∈ R := by
    intro rid hrid
    obtain ⟨room, hroom, -, -⟩ := (hmem rid).1 hrid
    rw [room_eq hst] at hroom
    obtain ⟨hmem, rfl⟩ := lookup_mem hroom
    exact hst.keys room hmem
  refine ⟨ChatTab.cleanList rs₁ pushed, hmem, fun hzero => ?_, fun C' hclean => ?_⟩
  · unfold ChatState.chatRoomCleanHdl ChatTab.chatRoomCleanHdl
    rw [htrav]
    simpa using RoomsIn.cleanLoop_isSome hst hR hzero
  · unfold ChatState.chatRoomCleanHdl ChatTab.chatRoomCleanHdl at hclean
    rw [htrav] at hclean
    obtain ⟨T, htab, rfl⟩ := Option.map_eq_some_iff.1 hclean
    obtain ⟨rooms, hloop, rfl⟩ := Option.map_eq_some_iff.1 htab
    obtain ⟨rs', hst', hl⟩ := RoomsIn.cleanLoop hst hR hloop
    refine ⟨fun rid => ?_, rfl⟩
    rw [room_eq (C := { C with tab := { C.tab with rooms := rooms } }) hst', hl, room_eq hst]

/-- A room that counts no session is taken away only if it is not room 0 and on the list. -/
theorem Recorded.cleansExactly_iff (h : C.Recorded len R S L) : C.CleansExactly pushed ↔
    ∀ rid room, C.room rid = some room → room.sidNum = 0 → rid ≠ 0 ∧ pushed rid := by
  obtain ⟨rs, hst⟩ := h.rooms
  obtain ⟨rids, hmem, hsome, hcleaned⟩ := chatRoomCleanHdl_spec pushed hst
  constructor
  · rintro ⟨C', hclean, hexact, -⟩ rid room hroom hnum
    obtain ⟨hloop, -⟩ := hcleaned C' hclean
    have hgone : C'.room rid = none := by
      rw [hexact, hroom]
      simp [Option.filter, hnum]
    rw [hloop] at hgone
    split at hgone
    · rename_i htaken
      obtain ⟨hlisted, hne⟩ := mem_takeWhile htaken
      obtain ⟨-, -, -, hpushed⟩ := (hmem rid).1 hlisted
      exact ⟨hne, hpushed⟩
    · rw [hroom] at hgone
      cases hgone
  · intro hall
    have hzero : 0 ∉ rids := by
      intro hzero
      obtain ⟨room, hroom, hnum, -⟩ := (hmem 0).1 hzero
      exact (hall 0 room hroom hnum).1 rfl
    obtain ⟨C', hclean⟩ := Option.isSome_iff_exists.1 (hsome hzero)
    obtain ⟨hloop, hC'⟩ := hcleaned C' hclean
    refine ⟨C', hclean, fun rid => ?_, ?_, ?_, ?_, ?_, ?_⟩
    · rw [hloop]
      split
      · rfl
      · rename_i hkept
        -- a room that was not looked at counts sessions
        cases hroom : C.room rid with
        | none => rfl
        | some room =>
          have hnum : room.sidNum ≠ 0 := by
            intro hnum
            obtain ⟨hne, hpushed⟩ := hall rid room hroom hnum
            rw [takeWhile_of_zero hzero] at hkept
            exact hkept ((hmem rid).2 ⟨room, hroom, hnum, hpushed⟩)
          simp [Option.filter, hnum]
    all_goals rw [hC']

/-- After any calls, the clean-up is exact if no room without sessions is room 0, and
each was put on the list. -/
theorem clean_exact_iff {calls : List Call} (hids : Ids len R S) (hcalls : ∀ c ∈ calls, c.WithIds R S)
    (hrun : run len calls = some (C, L)) : C.CleansExactly pushed ↔
      ∀ rid room, C.room rid = some room → room.sidNum = 0 → rid ≠ 0 ∧ pushed rid :=
  (run_recorded hids hcalls hrun).cleansExactly_iff

theorem clean_exact_two : ∃ C L, run 5 [.addSession 1 1 1 1 .enough, .addSession 2 1 4 5 .enough, .delSession 4 5] =
    some (C, L) ∧ C.CleansExactly fun _ => true := by
  have hrooms : ((run 5 [.addSession 1 1 1 1 .enough, .addSession 2 1 4 5 .enough, .delSession 4 5]).map fun p =>
      (p.1.room 0).isNone) = some true := by decide +kernel
  obtain ⟨⟨C, L⟩, hrun, hnone⟩ := Option.map_eq_some_iff.1 hrooms
  refine ⟨C, L, hrun, (clean_exact_iff (ids_of_nonneg (by decide) (by decide)) ?_ hrun).2 fun rid room hroom _ => ?_⟩
  · refine List.forall_mem_cons.2 ⟨⟨by decide, by decide⟩, List.forall_mem_cons.2 ⟨⟨by decide, by decide⟩, ?_⟩⟩
    exact List.forall_mem_singleton.2 ⟨by decide, by decide⟩
  · refine ⟨?_, rfl⟩
    rintro rfl
    rw [Option.isNone_iff_eq_none.1 hnone] at hroom
    cases hroom

/-- Room 0 stays when its last session has gone. -/
theorem room_zero_stays : ¬∀ (len : Nat) (calls : List Call) (C : ChatState) (L : Ledger), 0 < len → len < 2 ^ 31 →
    run len calls = some (C, L) → C.CleansExactly fun _ => true := by
  intro h
  have hroom : ((run 1 [.addSession 0 1 1 1 .enough, .delSession 1 1]).map fun p => (p.1.room 0).map ChatRoom.sidNum) =
      some (some 0) := by decide +kernel
  obtain ⟨⟨C, L⟩, hrun, hnum⟩ := Option.map_eq_some_iff.1 hroom
  obtain ⟨room, hroom, hnum⟩ := Option.map_eq_some_iff.1 hnum
  have hrec := run_recorded (ids_of_nonneg (by decide) (by decide)) (by
    exact List.forall_mem_cons.2 ⟨⟨by decide, by decide⟩, List.forall_mem_singleton.2 ⟨by decide, by decide⟩⟩) hrun
  have hexact := h 1 _ C L (by decide) (by decide) hrun
  obtain ⟨hne, -⟩ := hrec.cleansExactly_iff.1 hexact 0 room hroom hnum
  exact hne rfl

end ChatState

end BeehiveIm.Chat
