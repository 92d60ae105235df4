/-
Whether a room is open, over the commands that open and close it: its creation, the HTTP requests
(`openRoom`, `closeRoom` of `controllers/config.go`) and its dismissal. `RoomIsOpen` reads the row
of MySQL; `openRoom` writes a field of Redis.
-/
import BeehiveIm.Room.Create
import BeehiveIm.Lib.Strconv

namespace BeehiveIm.Room

open BeehiveIm.Lib
open BeehiveIm.Session (MesgHeader parseInt)

/-- The tables, and the field `STATUS` of the attributes of a room, which nobody reads. -/
structure Rooms where
  store : Store
  stat : BitVec 64 → Option Int

/-- What the servers are asked; the room of an HTTP request is a text. -/
inductive Command where
  | event (event : Event)
  | openRoom (rid : List Byte)
  | closeRoom (rid : List Byte) (now : Int)

/-- `parseParam` of `RoomOpenReq` and `RoomCloseReq`: `ParseInt` without a look at its error. -/
def parseParam (rid : List Byte) : Option (BitVec 64) :=
  let rid := strconvParseInt 10 64 rid
  if rid = 0 then none else some (BitVec.ofInt 64 rid)

namespace Rooms

/-- What a program does to the rooms, and what it has done to which when it reports success. -/
def run {α : Type} (w : Rooms) (p : Redis (Except String α)) (rid : BitVec 64) (opens : Bool) :
    Rooms × Option (BitVec 64 × Bool) :=
  match p.run exec w.store with
  | (.error _, s) => ({ w with store := s }, none)
  | (.ok _, s) => ({ store := s, stat := if opens then w.stat else put w.stat rid fun _ => none }, some (rid, opens))

/-- A command, and the room that it has opened or closed when it reports success. `RoomDismissRedis`
takes the attributes of the room out. -/
def command (w : Rooms) : Command → Rooms × Option (BitVec 64 × Bool)
  | .event (.create rid uid now) => w.run (roomCreateHandler rid uid now) rid true
  | .event (.dismiss head req now) => w.run (chatRoomDismissHandler head req now) req.rid false
  | .event (.closeRoom rid now) => w.run (dismissRoomByRid rid now) rid false
  | .event event => ({ w with store := w.store.next event }, none)
  | .openRoom rid =>
    match parseParam rid with
    | none => (w, none)
    | some rid => ({ w with stat := put w.stat rid fun _ => some roomStatOpen }, some (rid, true))
  | .closeRoom rid now =>
    match parseParam rid with
    | none => (w, none)
    | some rid => w.run (dismissRoomByRid rid now) rid false

/-- The rooms with what the last successful command has done to each. -/
def follow (h : Rooms × (BitVec 64 → Bool)) (c : Command) : Rooms × (BitVec 64 → Bool) :=
  ((h.1.command c).1, match (h.1.command c).2 with
    | none => h.2
    | some (rid, opens) => put h.2 rid fun _ => opens)

/-- Before the first command. -/
def start : Rooms × (BitVec 64 → Bool) := (⟨.empty, fun _ => none⟩, fun _ => false)

end Rooms

/-- The tables, if the room were open. -/
def Store.opened (s : Store) (rid : BitVec 64) : Store :=
  { s with info := put s.info rid fun _ => some ⟨roomStatOpen, 0, 0⟩ }

/-- A room is open if `last` says so; and so joins and chats, as far as the rest of their
checks goes, are let in. -/
structure Follows (s : Store) (last : BitVec 64 → Bool) : Prop where
  isOpen : ∀ rid, s.RoomIsOpen rid ↔ last rid
  joins : ∀ head req now, ((validateRoomJoin head req now).run exec s).1 = .ok () ↔
    last req.rid ∧ ((validateRoomJoin head req now).run exec (s.opened req.rid)).1 = .ok ()
  chats : ∀ head req now, ((validateRoomChat head req now).run exec s).1 = .ok () ↔
    last req.rid ∧ ((validateRoomChat head req now).run exec (s.opened req.rid)).1 = .ok ()

/-- A room that is opened over HTTP is open already. -/
def OpensOpen (h : Rooms × (BitVec 64 → Bool)) (c : Command) : Prop :=
  ∀ rid room, c = .openRoom rid → parseParam rid = some room → h.1.store.RoomIsOpen room

namespace Store

variable {s s' : Store} {last : BitVec 64 → Bool} {rid uid : BitVec 64} {now : Int}

theorem Decides.iff {p : Redis (Except String Unit)} {P : Prop} (h : s.Decides p P) :
    (p.run exec s).1 = .ok () ↔ P := by
  obtain ⟨r, hr, hP⟩ := h
  rw [hr]
  exact hP

theorem roomIsOpen_opened : (s.opened rid).RoomIsOpen rid := ⟨⟨roomStatOpen, 0, 0⟩, by simp [opened], rfl⟩

/-- Who is let in goes by `RoomIsOpen`. -/
theorem follows_iff : Follows s last ↔ ∀ rid, s.RoomIsOpen rid ↔ last rid := by
  refine ⟨Follows.isOpen, fun h => ⟨h, fun head req now => ?_, fun head req now => ?_⟩⟩
  · rw [(validateRoomJoin_decides s head req now).iff, (validateRoomJoin_decides _ head req now).iff, ← h]
    constructor
    · exact fun hj => ⟨hj.info, hj.uid, hj.rid, hj.session, hj.nid, roomIsOpen_opened, hj.score⟩
    · exact fun ⟨hopen, hj⟩ => ⟨hj.uid, hj.rid, hj.session, hj.nid, hopen, hj.score⟩
  · rw [(validateRoomChat_decides s head req now).iff, (validateRoomChat_decides _ head req now).iff, ← h]
    constructor
    · exact fun hc => ⟨hc.info, hc.uid, hc.rid, hc.text, hc.length, hc.session, hc.inRoom, roomIsOpen_opened⟩
    · exact fun ⟨hopen, hc⟩ => ⟨hc.uid, hc.rid, hc.text, hc.length, hc.session, hc.inRoom, hopen⟩

/-! ## What the commands do to the rows -/

/-- Whoever has a role in a room has it in one with a row. -/
def Rowed (s : Store) : Prop := ∀ rid uid, uid ∈ s.role rid → (s.info rid).isSome

/-- The rows and the roles are as they were. -/
def Same (s s' : Store) : Prop := s'.info = s.info ∧ s'.role = s.role

theorem Same.rowed (h : Same s s') (hs : s.Rowed) : s'.Rowed := by
  rw [Rowed, h.1, h.2]
  exact hs

theorem Same.roomIsOpen (h : Same s s') : s'.RoomIsOpen rid ↔ s.RoomIsOpen rid := by
  rw [RoomIsOpen, RoomIsOpen, h.1]

theorem exec_same {c : Cmd} (hc : Cmd.Aside c) (s : Store) : Same s (exec c s).2 := by
  cases c with
  | zaddSid rid ttl sid | hsetnxRole rid uid role | delRole rid | insertInfo rid uid now | closeInfo rid now =>
    exact hc.elim
  | _ => exact ⟨rfl, rfl⟩

theorem run_same {α : Type} {p : Redis α} (hp : p.Only Cmd.Aside) (s : Store) : Same s (p.run exec s).2 :=
  hp.run exec (fun _ => ⟨rfl, rfl⟩) (fun _ _ _ h h' => ⟨h'.1.trans h.1, h'.2.trans h.2⟩) (fun _ hc => exec_same hc) s

theorem cleanByRid_same (s : Store) (rid : BitVec 64) : Same s ((s.cleanByRid rid).getD s) := by
  rw [cleanByRid, cleanSidByRid_eq, zremRids_rest]
  exact ⟨rfl, rfl⟩

theorem cleanRidSet_same (s : Store) (ctm : Int) : Same s ((s.cleanRidSet ctm).getD s) := by
  obtain ⟨s', hs'⟩ := cleanRidSet_total s ctm
  rw [hs']
  refine paged_keeps (Same s) (fun t off ht => ?_) _ _ _ _ ⟨rfl, rfl⟩ hs'
  have hpage : ∀ (page : List (BitVec 64 × Int)) (t : Store), Same s t →
      Same s (page.foldl (fun s e => (s.cleanByRid (parseInt e.1)).getD s) t) := by
    intro page
    induction page with
    | nil => exact fun _ ht => ht
    | cons e page ih =>
      intro t ht
      have hclean := cleanByRid_same t (parseInt e.1)
      exact ih _ ⟨hclean.1.trans ht.1, hclean.2.trans ht.2⟩
  exact hpage _ t ht

/-- The events that neither open nor close a room. -/
def Event.Aside : Event → Prop
  | .create .. | .dismiss .. | .closeRoom .. => False
  | _ => True

theorem next_same {event : Event} (he : Event.Aside event) (s : Store) : Same s (s.next event) := by
  cases event with
  | create rid uid now | dismiss head req now | closeRoom rid now => exact he.elim
  | imOnline head req now seq | imPing head now | imOffline head => exact ⟨rfl, rfl⟩
  | imSweep ctm =>
    obtain ⟨im, him, -⟩ := s.im.cleanSidZset_erased ctm
    rw [next, step, him]
    exact ⟨rfl, rfl⟩
  | online head req now => exact run_same (onlineHandler_aside head req now) s
  | ping head now now' =>
    change Same s ((chatRoomPingHandler head now now').run exec s).2
    by_cases hvalid : isValid head
    · by_cases h : s.Accepts head
      · obtain ⟨s', room, hr, hrun⟩ := ping_of_accepts now now' hvalid h
        rw [hrun]
        exact ⟨by rw [hr.rest], by rw [hr.rest]⟩
      · rw [ping_of_not_accepts now now' hvalid h]
        exact run_same (roomCleanSessionData_aside _ _ _) s
    · rw [ping_of_not_valid s now now' hvalid]
      exact ⟨rfl, rfl⟩
  | offline head => exact run_same (chatRoomOfflineHandler_aside head) s
  | join head req now now' =>
    change Same s ((chatRoomJoinHandler head req now now').run exec s).2
    rcases join_run s head req now now' with h | ⟨-, -, gid, h⟩
    · rw [h]
      exact ⟨rfl, rfl⟩
    · rw [h]
      exact ⟨rfl, rfl⟩
  | quit head req => exact run_same (chatRoomQuitHandler_aside head req) s
  | kick head req => exact run_same (chatRoomKickHandler_aside head req) s
  | setBlacklist rid uid add => exact run_same (setBlacklist_aside rid uid add) s
  | cleanRidSet ctm => exact cleanRidSet_same s ctm

/-- A creation reports success and opens the room, or changes nothing. -/
theorem create_run (hs : s.Rowed) (rid uid : BitVec 64) (now : Int) :
    (∃ err, (roomCreateHandler rid uid now).run exec s = (.error err, s)) ∨
      (roomCreateHandler rid uid now).run exec s = (.ok rid, (s.withRow rid uid now).withOwner rid uid) := by
  by_cases hins : insertable s rid uid
  · right
    have hmem : uid ∉ (s.withRow rid uid now).role rid := by
      intro hmem
      have hsome := hs rid uid hmem
      rw [(of_decide_eq_true hins).2.2] at hsome
      cases hsome
    simp only [roomCreateHandler, redo, Prog.issue_bind, Prog.ret_bind, Prog.run_issue, Prog.run_ite, Prog.run_pure]
    rw [insertInfo_eq, if_pos hins, hsetnxRole_eq, if_neg hmem]
    rfl
  · exact .inl (create_refused now hins)

/-- The tables without the room. -/
def withoutRoom (s : Store) (rid : BitVec 64) (info : RoomInfo) (now : Int) : Store :=
  ((roomDismissRedis rid).run exec { s with info := put s.info rid fun _ => some (info.close now) }).2

/-- A close reports success and closes the room, or changes nothing. -/
theorem close_run (s : Store) (rid : BitVec 64) (now : Int) :
    (∃ err, (dismissRoomByRid rid now).run exec s = (.error err, s)) ∨
      ∃ info, s.info rid = some info ∧
      (dismissRoomByRid rid now).run exec s = (.ok (), s.withoutRoom rid info now) := by
  by_cases h : s.Closes rid now
  · obtain ⟨info, hinfo, hne⟩ := h
    exact .inr ⟨info, hinfo, dismissRoomByRid_run hinfo hne⟩
  · exact .inl (dismissRoomByRid_of_not_closes h)

/-- A dismissal is refused, or is a close. -/
theorem dismiss_run (s : Store) (head : MesgHeader) (req : MesgRoom) (now : Int) :
    (∃ err, (chatRoomDismissHandler head req now).run exec s = (.error err, s)) ∨
      (chatRoomDismissHandler head req now).run exec s = (dismissRoomByRid req.rid now).run exec s := by
  simp only [chatRoomDismissHandler, roomDismissHandler, redo, Prog.issue_bind, Prog.ret_bind, Prog.run_issue,
    Prog.run_ite, Prog.run_pure]
  split
  · exact .inl ⟨_, rfl⟩
  split
  · exact .inl ⟨_, rfl⟩
  split
  · exact .inl ⟨_, rfl⟩
  split
  · exact .inl ⟨_, rfl⟩
  split
  · exact .inl ⟨_, rfl⟩
  rw [Prog.run_ite]
  split
  · rw [Prog.run_issue]
    split
    · exact .inl ⟨_, rfl⟩
    · rw [Prog.run_ite]
      split
      · exact .inl ⟨_, rfl⟩
      · exact .inr rfl
  · exact .inr rfl

theorem roomIsOpen_created {r : BitVec 64} :
    ((s.withRow rid uid now).withOwner rid uid).RoomIsOpen r ↔ r = rid ∨ s.RoomIsOpen r := by
  unfold RoomIsOpen withOwner withRow
  dsimp only
  rw [put_apply]
  split
  · rename_i hr
    exact ⟨fun _ => .inl hr, fun _ => ⟨_, rfl, rfl⟩⟩
  · rename_i hr
    simp [hr]

theorem rowed_created (hs : s.Rowed) : ((s.withRow rid uid now).withOwner rid uid).Rowed := by
  intro r u hmem
  change ((put s.info rid fun _ => some ⟨roomStatOpen, uid, now⟩) r).isSome
  have hmem : u ∈ put s.role rid (AList.insert uid roomRoleOwner) r := hmem
  rw [put_apply] at hmem ⊢
  split
  · rfl
  · rename_i hr
    rw [if_neg hr] at hmem
    exact hs r u hmem

theorem roomIsOpen_withoutRoom {info : RoomInfo} {r : BitVec 64} :
    (s.withoutRoom rid info now).RoomIsOpen r ↔ r ≠ rid ∧ s.RoomIsOpen r := by
  change (∃ i, (put s.info rid fun _ => some (info.close now)) r = some i ∧ i.status = roomStatOpen) ↔ _
  rw [put_apply]
  split
  · rename_i hr
    constructor
    · rintro ⟨i, hi, hstatus⟩
      cases hi
      have hclose : roomStatClose = roomStatOpen := hstatus
      exact absurd hclose (by decide)
    · exact fun h => absurd hr h.1
  · rename_i hr
    exact ⟨fun h => ⟨hr, h⟩, And.right⟩

theorem rowed_withoutRoom {info : RoomInfo} (hs : s.Rowed) : (s.withoutRoom rid info now).Rowed := by
  intro r u hmem
  change ((put s.info rid fun _ => some (info.close now)) r).isSome
  have hmem : u ∈ put s.role rid (fun _ => ∅) r := hmem
  rw [put_apply] at hmem ⊢
  split
  · rfl
  · rename_i hr
    rw [if_neg hr] at hmem
    exact hs r u hmem

end Store

/-! ## Runs -/

namespace Rooms

variable {h : Rooms × (BitVec 64 → Bool)}

/-- Everybody with a role is in a room with a row, and a room is open where the last
command has opened it. -/
structure Agrees (h : Rooms × (BitVec 64 → Bool)) : Prop where
  rowed : h.1.store.Rowed
  isOpen : ∀ rid, h.1.store.RoomIsOpen rid ↔ h.2 rid

theorem Agrees.same (ha : Agrees h) {w : Rooms} (hw : Store.Same h.1.store w.store) : Agrees (w, h.2) :=
  ⟨hw.rowed ha.rowed, fun rid => hw.roomIsOpen.trans (ha.isOpen rid)⟩

/-- A close that is refused changes nothing, and one that succeeds closes the room. -/
theorem Agrees.close (ha : Agrees h) (rid : BitVec 64) (now : Int) {p : Redis (Except String Unit)}
    (hp : (∃ err, p.run exec h.1.store = (.error err, h.1.store)) ∨
      p.run exec h.1.store = (dismissRoomByRid rid now).run exec h.1.store) :
    Agrees ((h.1.run p rid false).1, match (h.1.run p rid false).2 with
      | none => h.2
      | some (rid, opens) => put h.2 rid fun _ => opens) := by
  have hrefused : ∀ err, p.run exec h.1.store = (.error err, h.1.store) → Agrees ((h.1.run p rid false).1,
      match (h.1.run p rid false).2 with
      | none => h.2
      | some (rid, opens) => put h.2 rid fun _ => opens) := by
    intro err herr
    rw [run, herr]
    exact ha
  rcases hp with ⟨err, herr⟩ | hp
  · exact hrefused err herr
  rcases h.1.store.close_run rid now with ⟨err, herr⟩ | ⟨info, -, hclose⟩
  · exact hrefused err (hp.trans herr)
  · rw [run, hp, hclose]
    refine ⟨Store.rowed_withoutRoom ha.rowed, fun r => ?_⟩
    dsimp only
    rw [Store.roomIsOpen_withoutRoom, put_apply, ha.isOpen]
    split
    · rename_i hr
      simp [hr]
    · rename_i hr
      simp [hr]

theorem Agrees.create (ha : Agrees h) (rid uid : BitVec 64) (now : Int) :
    Agrees (follow h (.event (.create rid uid now))) := by
  unfold follow command run
  dsimp only
  rcases h.1.store.create_run ha.rowed rid uid now with ⟨err, herr⟩ | hcreate
  · rw [herr]
    exact ha
  · rw [hcreate]
    refine ⟨Store.rowed_created ha.rowed, fun r => ?_⟩
    dsimp only
    rw [Store.roomIsOpen_created, put_apply, ha.isOpen]
    split
    · rename_i hr
      simp [hr]
    · rename_i hr
      simp [hr]

theorem follow_openRoom {text : List Byte} {rid : BitVec 64} (htext : parseParam text = some rid) :
    follow h (.openRoom text) =
      ({ h.1 with stat := put h.1.stat rid fun _ => some roomStatOpen }, put h.2 rid fun _ => true) := by
  unfold follow command
  dsimp only
  rw [htext]

/-- An opening leaves the rows as they are, so it must not be the room's first. -/
theorem Agrees.openRoom (ha : Agrees h) {text : List Byte} (hopens : OpensOpen h (.openRoom text)) :
    Agrees (follow h (.openRoom text)) := by
  cases htext : parseParam text with
  | none =>
    unfold follow command
    dsimp only
    rw [htext]
    exact ha
  | some rid =>
    have hroom : h.1.store.RoomIsOpen rid := hopens text rid rfl htext
    rw [follow_openRoom htext]
    refine ⟨ha.rowed, fun r => ?_⟩
    dsimp only
    rw [put_apply]
    split
    · rename_i hr
      subst hr
      exact ⟨fun _ => rfl, fun _ => hroom⟩
    · exact ha.isOpen r

/-- A command keeps the agreement where it does not open a room that is not open. -/
theorem Agrees.follow (ha : Agrees h) {c : Command} (hopens : OpensOpen h c) : Agrees (follow h c) := by
  cases c with
  | openRoom text => exact ha.openRoom hopens
  | closeRoom text now =>
    unfold Rooms.follow command
    dsimp only
    cases parseParam text with
    | none => exact ha
    | some rid => exact ha.close rid now (.inr rfl)
  | event event =>
    cases event with
    | create rid uid now => exact ha.create rid uid now
    | dismiss head req now => exact ha.close req.rid now (h.1.store.dismiss_run head req now)
    | closeRoom rid now => exact ha.close rid now (.inr rfl)
    | _ =>
      refine ha.same (Store.next_same ?_ h.1.store)
      exact trivial

/-- Where it opens one that is not open, the room is not open after it either. -/
theorem opensOpen_of_follows {c : Command} (hc : Follows (follow h c).1.store (follow h c).2) : OpensOpen h c := by
  rintro text rid rfl htext
  have hopen := hc.isOpen rid
  rw [follow_openRoom htext] at hopen
  dsimp only at hopen
  rw [put_self] at hopen
  exact hopen.mpr rfl

/-- The rooms follow the commands through a run just where each command keeps them in agreement. -/
theorem follows_run (cmds : List Command) (ha : Agrees h) :
    (∀ before, before <+: cmds → Follows (before.foldl follow h).1.store (before.foldl follow h).2) ↔
      Guarded follow OpensOpen h cmds :=
  always_iff_guarded (P := fun h => Follows h.1.store h.2) (fun _ ha => Store.follows_iff.mpr ha.isOpen)
    (fun _ _ _ hc => opensOpen_of_follows hc) (fun _ _ ha hopens => ha.follow hopens) cmds ha

theorem agrees_start : Agrees start := by
  refine ⟨fun rid uid hmem => absurd hmem (AList.notMem_empty _), fun rid => ?_⟩
  simp [start, Store.RoomIsOpen, Store.empty]

/-- From empty tables, each room is open and lets users in after every command as the last command
on it says, just where every opening over HTTP is of a room that is open. -/
theorem open_state_iff (cmds : List Command) :
    (∀ before, before <+: cmds → Follows (before.foldl follow start).1.store (before.foldl follow start).2) ↔
      Guarded follow OpensOpen start cmds :=
  follows_run cmds agrees_start

/-- A room is created, closed and opened again, and is not open. -/
theorem reopened_closed : ¬∀ cmds : List Command,
    ∀ before, before <+: cmds → Follows (before.foldl follow start).1.store (before.foldl follow start).2 := by
  intro hall
  have hguarded := (follows_run _ agrees_start).mp
    (hall [.event (.create 5 7 0), .closeRoom [0x35] 1, .openRoom [0x35]])
  obtain ⟨hcreates, hcloses, hopens, -⟩ := hguarded
  have hagrees := (agrees_start.follow hcreates).follow hcloses
  have hopen := (hagrees.isOpen 5).mp (hopens [0x35] 5 rfl (by decide))
  exact absurd hopen (by decide)

end Rooms

end BeehiveIm.Room
