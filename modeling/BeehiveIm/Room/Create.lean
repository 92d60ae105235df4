/-
The creation of a room when what it calls may fail or panic (`roomCreateHandler`,
`ChatRoomCreatHandler`). A panic ends the function, and the deferred `recover` lets it return the
results that have been set by then. A command that fails or panics may have had its effect before.
-/
import BeehiveIm.Room.Authority

namespace BeehiveIm.Room

open BeehiveIm.Lib
open BeehiveIm.Session (MesgHeader)

def errSysSystem : Nat := 10001
def errSvrHeadInvalid : Nat := 20010

/-- How a call fails; `done` is whether it has had its effect. -/
inductive Fault where
  | error (done : Bool) (errmsg : String)
  | panic (done : Bool)

/-- What the sequence server answers to `alloc_rid`. -/
inductive Alloc where
  | ok (rid : BitVec 64)
  | error (errmsg : String)
  | panic

/-- What goes wrong in one request: the insert of MySQL, the `HSETNX` of Redis, and whether the
pipeline panics, whose errors nobody reads. -/
structure Faults where
  insert : Option Fault
  hsetnx : Option Fault
  pipeline : Bool

/-- `MesgRoomCreatAck` -/
structure CreatAck where
  uid : Option (BitVec 64)
  rid : BitVec 64
  code : Nat
  errmsg : String

namespace Store

variable (s : Store)

/-- A command under a fault: no answer is a panic, and `some none` an error. -/
def issue (fault : Option Fault) (c : Cmd) : Option (Except String c.Reply) × Store :=
  match fault with
  | none => (some (.ok (exec c s).1), (exec c s).2)
  | some (.error done errmsg) => (some (.error errmsg), if done then (exec c s).2 else s)
  | some (.panic done) => (none, if done then (exec c s).2 else s)

/-- `RoomAdd` of MySQL: its error, if it returns. -/
def userdbRoomAdd (fault : Option Fault) (rid uid : BitVec 64) (now : Int) : Option (Option String) × Store :=
  match s.issue fault (.insertInfo rid uid now) with
  | (none, s) => (none, s)
  | (some (.error err), s) => (some (some err), s)
  | (some (.ok false), s) => (some (some "Duplicate entry"), s)
  | (some (.ok true), s) => (some none, s)

/-- `RoomAdd` of Redis. The deferred `pl.Do("")` comes after every return of it. -/
def cacheRoomAdd (fault : Option Fault) (pipeline : Bool) (rid uid : BitVec 64) : Option (Option String) × Store :=
  let (ret, s) := match s.issue fault (.hsetnxRole rid uid roomRoleOwner) with
    | (none, s) => (none, s)
    | (some (.error err), s) => (some (some err), s)
    | (some (.ok false), s) => (some (some "Set room owner failed!"), s)
    | (some (.ok true), s) => (some none, s)
  (if pipeline then none else ret, s)

/-- `roomCreateHandler`: `rid` and `err`, which is nil when a call has panicked. -/
def createHandler (alloc : Alloc) (faults : Faults) (uid : BitVec 64) (now : Int) :
    (BitVec 64 × Option String) × Store :=
  match alloc with
  | .panic => ((0, none), s)
  | .error err => ((0, some err), s)
  | .ok rid =>
    match s.userdbRoomAdd faults.insert rid uid now with
    | (none, s) => ((rid, none), s)
    | (some (some err), s) => ((0, some err), s)
    | (some none, s) =>
      match s.cacheRoomAdd faults.hsetnx faults.pipeline rid uid with
      | (none, s) => ((rid, none), s)
      | (some (some err), s) => ((0, some err), s)
      | (some none, s) => ((rid, none), s)

/-- `ChatRoomCreatHandler`, with the ack that it sends. -/
def creatHandler (head : MesgHeader) (body : Except String MesgRoomCreat) (alloc : Alloc) (faults : Faults)
    (now : Int) : Option CreatAck × Store :=
  if !isValid head then (none, s)
  else
    match body with
    | .error err => (some ⟨none, 0, errSvrHeadInvalid, err⟩, s)
    | .ok req =>
      match s.createHandler alloc faults req.uid now with
      | ((_, some err), s) => (some ⟨some req.uid, 0, errSysSystem, err⟩, s)
      | ((rid, none), s) => (some ⟨some req.uid, rid, 0, "Ok"⟩, s)

/-- `RoomIsOpen` -/
def RoomIsOpen (rid : BitVec 64) : Prop := ∃ info, s.info rid = some info ∧ info.status = roomStatOpen

/-- Redis has the user as owner of the room. -/
def Records (rid uid : BitVec 64) : Prop := (s.role rid).lookup uid = some roomRoleOwner

/-- The requester is told of success just where the room that was allocated is there, open and
theirs; and if they are not, nothing is left behind. -/
def AllOrNothing (head : MesgHeader) (body : Except String MesgRoomCreat) (alloc : Alloc) (ack : Option CreatAck)
    (s' : Store) : Prop :=
  ((∃ a, ack = some a ∧ a.code = 0) ↔
    isValid head ∧ ∃ req rid, body = .ok req ∧ alloc = .ok rid ∧ s'.RoomIsOpen rid ∧ s'.Records rid req.uid) ∧
  ((¬∃ a, ack = some a ∧ a.code = 0) →
    (∀ rid, s'.RoomIsOpen rid → s.RoomIsOpen rid) ∧
    ∀ rid uid, (s'.role rid).lookup uid = some roomRoleOwner → (s.role rid).lookup uid = some roomRoleOwner)

/-- Where the row has been written, the owner is recorded too, or is when a panic
hides what has failed. -/
def RecordsOwner (faults : Faults) (rid uid : BitVec 64) : Prop :=
  match faults.hsetnx with
  | none => uid ∉ s.role rid ∨ faults.pipeline ∧ s.Records rid uid
  | some (.error done _) => faults.pipeline ∧ (done ∧ uid ∉ s.role rid ∨ s.Records rid uid)
  | some (.panic done) => done ∧ uid ∉ s.role rid ∨ s.Records rid uid

/-- The allocation does not panic, and with an id: the row is written and the owner recorded; or the
insert fails without effect, and the room is not the requester's already; or it panics, and an open
room with this owner is there. -/
def Completes (alloc : Alloc) (faults : Faults) (uid : BitVec 64) : Prop :=
  match alloc with
  | .panic => False
  | .error _ => True
  | .ok rid =>
    match faults.insert with
    | none => if insertable s rid uid then s.RecordsOwner faults rid uid else ¬(s.RoomIsOpen rid ∧ s.Records rid uid)
    | some (.error done _) => ¬(done ∧ insertable s rid uid) ∧ ¬(s.RoomIsOpen rid ∧ s.Records rid uid)
    | some (.panic done) => (done ∧ insertable s rid uid ∨ s.RoomIsOpen rid) ∧ s.Records rid uid

variable {s} {rid uid : BitVec 64} {now : Int}

/-! ## The two additions -/

/-- The tables with the row, and with the owner. -/
def withRow (s : Store) (rid uid : BitVec 64) (now : Int) : Store :=
  { s with info := put s.info rid fun _ => some ⟨roomStatOpen, uid, now⟩ }
def withOwner (s : Store) (rid uid : BitVec 64) : Store :=
  { s with role := put s.role rid (AList.insert uid roomRoleOwner) }

theorem insertInfo_eq (s : Store) (rid uid : BitVec 64) (now : Int) : exec (.insertInfo rid uid now) s =
    if insertable s rid uid then (true, s.withRow rid uid now) else (false, s) := rfl

theorem hsetnxRole_eq (s : Store) (rid uid : BitVec 64) : exec (.hsetnxRole rid uid roomRoleOwner) s =
    if uid ∈ s.role rid then (false, s) else (true, s.withOwner rid uid) := rfl

theorem roomIsOpen_withRow : (s.withRow rid uid now).RoomIsOpen rid :=
  ⟨⟨roomStatOpen, uid, now⟩, by simp [withRow], rfl⟩

theorem records_withOwner : (s.withOwner rid uid).Records rid uid := by
  simp [Records, withOwner]

theorem not_roomIsOpen_of_insertable (h : insertable s rid uid) : ¬s.RoomIsOpen rid := by
  rintro ⟨info, hinfo, -⟩
  rw [(of_decide_eq_true h).2.2] at hinfo
  cases hinfo

/-- What is true of the answer of a handler and of the tables that it leaves. -/
def Atomic (s : Store) (alloc : Alloc) (uid : BitVec 64) (err : Option String) (s' : Store) : Prop :=
  (err = none ↔ ∃ rid, alloc = .ok rid ∧ s'.RoomIsOpen rid ∧ s'.Records rid uid) ∧
  (err ≠ none → (∀ rid, s'.RoomIsOpen rid → s.RoomIsOpen rid) ∧
    ∀ rid uid, (s'.role rid).lookup uid = some roomRoleOwner → (s.role rid).lookup uid = some roomRoleOwner)

/-- A failure that has changed nothing is all right, unless the room was there. -/
theorem atomic_unchanged {err : String} :
    Atomic s (.ok rid) uid (some err) s ↔ ¬(s.RoomIsOpen rid ∧ s.Records rid uid) := by
  constructor
  · rintro ⟨h, -⟩ hroom
    cases h.mpr ⟨rid, rfl, hroom⟩
  · intro h
    refine ⟨⟨fun h => (by cases h), ?_⟩, fun _ => ⟨fun _ h => h, fun _ _ h => h⟩⟩
    rintro ⟨rid', halloc, hroom⟩
    cases halloc
    exact absurd hroom h

theorem atomic_success {s' : Store} :
    Atomic s (.ok rid) uid none s' ↔ s'.RoomIsOpen rid ∧ s'.Records rid uid := by
  constructor
  · rintro ⟨h, -⟩
    obtain ⟨rid', halloc, hroom⟩ := h.mp rfl
    cases halloc
    exact hroom
  · exact fun h => ⟨⟨fun _ => ⟨rid, rfl, h⟩, fun _ => rfl⟩, fun h => absurd rfl h⟩

/-- With the row in place, a failure leaves it behind. -/
theorem not_atomic_of_row {err : String} {s' : Store} (hins : insertable s rid uid) (hrow : s'.RoomIsOpen rid) :
    ¬Atomic s (.ok rid) uid (some err) s' := by
  rintro ⟨-, h⟩
  exact not_roomIsOpen_of_insertable hins ((h (by simp)).1 rid hrow)

/-- `HSETNX` as far as it goes. -/
theorem hsetnx_done (t : Store) (done : Bool) : (if done then (exec (.hsetnxRole rid uid roomRoleOwner) t).2 else t) =
    if done ∧ uid ∉ t.role rid then t.withOwner rid uid else t := by
  rw [hsetnxRole_eq]
  by_cases hmem : uid ∈ t.role rid
  · simp [hmem]
  · simp [hmem]

/-- The owner is on record where `HSETNX` has had its effect, or was. -/
theorem records_done {t : Store} {P : Prop} [Decidable P] :
    (if P then t.withOwner rid uid else t).Records rid uid ↔ P ∨ t.Records rid uid := by
  split
  · rename_i hP
    simp [hP, records_withOwner]
  · rename_i hP
    simp [hP]

theorem roomIsOpen_done {t : Store} {P : Prop} [Decidable P] (h : t.RoomIsOpen rid) :
    (if P then t.withOwner rid uid else t).RoomIsOpen rid := by
  split
  · exact h
  · exact h

/-- With the row in place, all is well just where the requester is told of success and on record. -/
theorem atomic_row {s' : Store} {ret : Option (Option String)} (hins : insertable s rid uid)
    (hrow : s'.RoomIsOpen rid) :
    Atomic s (.ok rid) uid (ret.elim none id) s' ↔ ret.elim none id = none ∧ s'.Records rid uid := by
  cases herr : ret.elim none id with
  | none =>
    rw [atomic_success]
    simp [hrow]
  | some err =>
    constructor
    · exact fun h => absurd h (not_atomic_of_row hins hrow)
    · exact fun h => (by cases h.1)

/-- What comes of the handler once the row is in place. -/
theorem cacheRoomAdd_atomic {t : Store} (hins : insertable s rid uid) (hrow : t.RoomIsOpen rid)
    (hrole : t.role = s.role) (faults : Faults) :
    Atomic s (.ok rid) uid ((t.cacheRoomAdd faults.hsetnx faults.pipeline rid uid).1.elim none id)
      (t.cacheRoomAdd faults.hsetnx faults.pipeline rid uid).2 ↔ s.RecordsOwner faults rid uid := by
  have hrec : t.Records rid uid ↔ s.Records rid uid := by rw [Records, Records, hrole]
  unfold cacheRoomAdd RecordsOwner issue
  rw [← hrole]
  rcases faults.hsetnx with _ | ⟨done, errmsg⟩ | done
  · dsimp only
    rw [hsetnxRole_eq]
    by_cases hmem : uid ∈ t.role rid
    · rw [if_pos hmem]
      dsimp only
      rw [atomic_row hins hrow]
      cases faults.pipeline <;> simp [hmem, hrec]
    · rw [if_neg hmem]
      dsimp only
      rw [atomic_row hins (show (t.withOwner rid uid).RoomIsOpen rid from hrow)]
      cases faults.pipeline <;> simp [hmem, records_withOwner]
  · dsimp only
    rw [hsetnx_done, atomic_row hins (roomIsOpen_done hrow), records_done, hrec]
    cases faults.pipeline <;> simp
  · dsimp only
    rw [hsetnx_done, atomic_row hins (roomIsOpen_done hrow), records_done, hrec]
    cases faults.pipeline <;> simp

/-- What an insert that fails leaves. -/
theorem insert_done (s : Store) (done : Bool) : (if done then (exec (.insertInfo rid uid now) s).2 else s) =
    if done ∧ insertable s rid uid then s.withRow rid uid now else s := by
  rw [insertInfo_eq]
  cases done
  · simp
  · cases insertable s rid uid <;> simp

/-- The error of the handler is that of the addition it comes to. -/
theorem createHandler_eq (s : Store) (faults : Faults) (rid uid : BitVec 64) (now : Int) :
    ((s.createHandler (.ok rid) faults uid now).1.2, (s.createHandler (.ok rid) faults uid now).2) =
      match s.userdbRoomAdd faults.insert rid uid now with
      | (some none, t) =>
        ((t.cacheRoomAdd faults.hsetnx faults.pipeline rid uid).1.elim none id,
          (t.cacheRoomAdd faults.hsetnx faults.pipeline rid uid).2)
      | (ret, t) => (ret.elim none id, t) := by
  unfold createHandler
  dsimp only
  rcases s.userdbRoomAdd faults.insert rid uid now with ⟨_ | _ | err, t⟩
  · rfl
  · dsimp only
    rcases t.cacheRoomAdd faults.hsetnx faults.pipeline rid uid with ⟨_ | _ | err, t'⟩ <;> rfl
  · rfl

/-- Where nothing fails, the handler is the one that talks to tables that answer. -/
theorem createHandler_run (s : Store) (rid uid : BitVec 64) (now : Int) :
    (s.createHandler (.ok rid) ⟨none, none, false⟩ uid now).2 = ((roomCreateHandler rid uid now).run exec s).2 ∧
    ((s.createHandler (.ok rid) ⟨none, none, false⟩ uid now).1.2 = none ↔
      ((roomCreateHandler rid uid now).run exec s).1 = .ok rid) := by
  unfold createHandler userdbRoomAdd cacheRoomAdd issue roomCreateHandler
  simp only [redo, Prog.issue_bind, Prog.ret_bind, Prog.run_issue, Prog.run_ite, Prog.run_pure]
  rw [insertInfo_eq]
  by_cases hins : insertable s rid uid
  · rw [if_pos hins]
    dsimp only
    rw [hsetnxRole_eq]
    by_cases hmem : uid ∈ (s.withRow rid uid now).role rid
    · rw [if_pos hmem]
      simp
    · rw [if_neg hmem]
      simp
  · rw [if_neg hins]
    simp

/-- What comes of the handler. -/
theorem createHandler_atomic (s : Store) (alloc : Alloc) (faults : Faults) (uid : BitVec 64) (now : Int) :
    Atomic s alloc uid (s.createHandler alloc faults uid now).1.2 (s.createHandler alloc faults uid now).2 ↔
      s.Completes alloc faults uid := by
  rcases alloc with rid | err | _
  · obtain ⟨herr, hstore⟩ := Prod.mk.inj (createHandler_eq s faults rid uid now)
    rw [herr, hstore]
    unfold userdbRoomAdd issue Completes
    rcases hins : faults.insert with _ | ⟨done, errmsg⟩ | done
    · dsimp only
      rw [insertInfo_eq]
      by_cases h : insertable s rid uid
      · rw [if_pos h, if_pos h]
        exact cacheRoomAdd_atomic h roomIsOpen_withRow rfl faults
      · rw [if_neg h, if_neg h]
        exact atomic_unchanged
    · dsimp only
      rw [insert_done]
      split
      · rename_i h
        exact ⟨fun ha => absurd ha (not_atomic_of_row h.2 roomIsOpen_withRow), fun hc => absurd h hc.1⟩
      · rename_i h
        exact atomic_unchanged.trans ⟨fun hc => ⟨h, hc⟩, And.right⟩
    · dsimp only
      rw [insert_done]
      refine atomic_success.trans ?_
      split
      · rename_i h
        exact and_congr_left fun _ => ⟨fun _ => .inl h, fun _ => roomIsOpen_withRow⟩
      · rename_i h
        exact and_congr_left fun _ => ⟨.inr, fun hopen => hopen.resolve_left h⟩
  · exact ⟨fun _ => trivial, fun _ => ⟨⟨fun h => (by cases h), fun ⟨_, h, _⟩ => (by cases h)⟩,
      fun _ => ⟨fun _ h => h, fun _ _ h => h⟩⟩⟩
  · refine ⟨fun h => ?_, False.elim⟩
    obtain ⟨rid, halloc, -⟩ := h.1.mp rfl
    cases halloc

theorem allOrNothing_iff {head : MesgHeader} (hvalid : isValid head = true) (s : Store) (req : MesgRoomCreat)
    (alloc : Alloc) (faults : Faults) (now : Int) :
    s.AllOrNothing head (.ok req) alloc (s.creatHandler head (.ok req) alloc faults now).1
        (s.creatHandler head (.ok req) alloc faults now).2 ↔ s.Completes alloc faults req.uid := by
  rw [← createHandler_atomic s alloc faults req.uid now]
  unfold AllOrNothing creatHandler Atomic
  simp only [hvalid, Bool.not_true, Bool.false_eq_true, if_false, true_and]
  rcases s.createHandler alloc faults req.uid now with ⟨⟨rid, _ | err⟩, s'⟩
  · simp
  · simp [errSysSystem]

/-- Whatever the tables are, a request creates its room wholly or not at all just where
what it calls completes. -/
theorem creation_atomic_iff (s : Store) (head : MesgHeader) (body : Except String MesgRoomCreat) (alloc : Alloc)
    (faults : Faults) (now : Int) :
    s.AllOrNothing head body alloc (s.creatHandler head body alloc faults now).1
        (s.creatHandler head body alloc faults now).2 ↔
      (isValid head → ∀ req, body = .ok req → s.Completes alloc faults req.uid) := by
  cases hvalid : isValid head with
  | false => simp [AllOrNothing, creatHandler, hvalid]
  | true =>
    rcases body with err | req
    · simp [AllOrNothing, creatHandler, hvalid, errSvrHeadInvalid]
    · rw [allOrNothing_iff hvalid]
      simp

/-- Redis fails, and the row that MySQL has taken stays, open and without an owner on record. -/
theorem hsetnx_error_leaves_row : ¬∀ (s : Store) head body alloc faults now,
    s.AllOrNothing head body alloc (s.creatHandler head body alloc faults now).1
      (s.creatHandler head body alloc faults now).2 := by
  intro h
  have hall := h .empty ⟨1, 1, 1⟩ (.ok ⟨7⟩) (.ok 5) ⟨none, some (.error false "EOF"), false⟩ 0
  have hcompletes := (allOrNothing_iff (by decide) _ _ _ _ _).mp hall
  have hins : insertable Store.empty 5 7 = true := by decide
  simp only [Completes, hins, if_true] at hcompletes
  cases hcompletes.1

end Store

end BeehiveIm.Room
