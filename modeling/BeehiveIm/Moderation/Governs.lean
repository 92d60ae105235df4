/-
What the last decision about a user says is what the groups and rooms do, as long as
nobody is silenced or banned in a group over HTTP, nobody silenced in a room, and
nobody kicked who is silenced.
-/
import BeehiveIm.Groups.Calls
import BeehiveIm.Moderation

namespace BeehiveIm.Moderation

open BeehiveIm.Lib
open BeehiveIm.Session (MesgHeader)
open BeehiveIm.Groups (MesgGroupChat)
open BeehiveIm.Room (MesgRoom isValid)

/-! ## Decisions -/

/-- What an operation decides: that somebody is silenced or banned or no longer so, or that a group
or a room is gone and with it all that was decided there. -/
inductive Decision where
  | none
  | put (k : Key) (uid : BitVec 64) (on : Bool)
  | clear (gag blacklist : Key)

/-- `.ok` where the operation is not refused. -/
def Decision.ofResult (r : Except String Unit) (d : Decision) : Decision :=
  match r with
  | .ok _ => d
  | .error _ => .none

/-- The decision of a request with valid ids. -/
def Decision.http (k : BitVec 64 → Key) (id uid : BitVec 64) (on : Bool) : Decision :=
  if id ≠ 0 ∧ uid ≠ 0 then .put (k id) uid on else .none

def Op.decision (s : Store) : Op → Decision
  | .blacklistAdd gid uid _ => .http .groupBlacklist gid uid true
  | .blacklistDel gid uid => .http .groupBlacklist gid uid false
  | .gagAdd gid uid _ => .http .groupGag gid uid true
  | .gagDel gid uid => .http .groupGag gid uid false
  | .addBlacklist rid uid => .http .roomBlacklist rid uid true
  | .delBlacklist rid uid => .http .roomBlacklist rid uid false
  | .addGag rid uid _ => .http .roomGag rid uid true
  | .delGag rid uid => .http .roomGag rid uid false
  | .call (.setGag gid uid gag) => .put (.groupGag gid) uid gag
  | .call (.setBlacklist gid uid add) => .put (.groupBlacklist gid) uid add
  | .call (.dismiss gid) => .clear (.groupGag gid) (.groupBlacklist gid)
  | .roomKick head req =>
    .ofResult ((chatRoomKickHandler head req).run exec s).1 (.put (.roomBlacklist req.rid) req.uid true)
  | .roomDismiss head req now =>
    .ofResult ((chatRoomDismissHandler head req now).run exec s).1 (.clear (.roomGag req.rid) (.roomBlacklist req.rid))
  | .closeRoom rid now =>
    .ofResult ((dismissRoomByRid rid now).run exec s).1 (.clear (.roomGag rid) (.roomBlacklist rid))
  | _ => .none

/-- By key and user, whether the last decision was to silence or ban him. -/
abbrev Last := Key → BitVec 64 → Option Bool

def Decision.apply : Decision → Last → Last
  | .none, last => last
  | .put k uid on, last => Lib.put last k fun f => Lib.put f uid fun _ => some on
  | .clear gag bl, last => Lib.put (Lib.put last gag fun _ _ => Option.none) bl fun _ _ => Option.none

/-- The store, and the last decisions, which nobody keeps. -/
structure World where
  store : Store
  last : Last

namespace World

def empty : World := ⟨.empty, fun _ _ => none⟩

def step (w : World) (op : Op) : World := ⟨w.store.step op, (op.decision w.store).apply w.last⟩

/-- Refusals are as decided, where nothing else stands in the way, and no command has failed. -/
structure Governs (w : World) : Prop where
  groupJoin : ∀ gid uid sid nid now now', w.store.groups.lives gid now →
    (((groupJoinOnline gid uid sid nid now now').run exec w.store).1 ≠ .ok () ↔
    w.last (.groupBlacklist gid) uid = some true)
  groupAdd : ∀ gid uid now, w.store.groups.lives gid now → uid ∉ w.store.groups.role gid →
    (((groupAddMember gid uid now).run exec w.store).1 ≠ .ok () ↔ w.last (.groupBlacklist gid) uid = some true)
  groupChat : ∀ head req, isValid head → req.uid ∈ w.store.groups.role req.gid → req.text ≠ "" →
    (((msgSvrGroupChatHandler head req).run exec w.store).1 ≠ .ok () ↔ w.last (.groupGag req.gid) req.uid = some true)
  roomJoin : ∀ head req now now', isValid head → w.store.rooms.Joins head req now →
    ((∀ gid, ((chatRoomJoinHandler head req now now').run exec w.store).1 ≠ .ok gid) ↔
    w.last (.roomBlacklist req.rid) req.uid = some true)
  roomChat : ∀ head req now, isValid head → w.store.rooms.Chats head req now →
    (((onRooms (Room.chatRoomChatHandler head req now)).run exec w.store).1 ≠ .ok () ↔
    w.last (.roomGag req.rid) req.uid = some true)
  failures : w.store.failures = 0

/-- A step that neither mixes the types of a key nor goes past what was decided. -/
def Fine (w : World) : Op → Prop
  | .blacklistAdd gid uid _ => gid = 0 ∨ uid = 0
  | .blacklistDel gid uid => gid = 0 ∨ uid = 0 ∨ w.store.value (.groupBlacklist gid) = none
  | .gagAdd gid uid _ => gid = 0 ∨ uid = 0
  | .gagDel gid uid => gid = 0 ∨ uid = 0 ∨ w.store.value (.groupGag gid) = none
  | .addGag rid uid _ => rid = 0 ∨ uid = 0
  | .call (.kick gid uid) => w.last (.groupGag gid) uid ≠ some true
  | .call (.setBlacklist gid uid true) => w.last (.groupGag gid) uid ≠ some true
  | _ => True

end World

/-! ## Keys as sets -/

abbrev Members := Key → Finset (BitVec 64)

/-- Every key holds a set, and no command has failed. -/
structure Store.Shows (s : Store) (m : Members) : Prop where
  value : ∀ k, s.value k = Value.ofSet (m k)
  failures : s.failures = 0

/-- From keys that hold `m` the program leads to keys that hold what its result says. -/
def Leads {α : Type} (m : Members) (p : Redis α) (post : α → Members) : Prop :=
  ∀ s, Store.Shows s m → (p.run exec s).2.Shows (post (p.run exec s).1)

/-- Commands that change none of the keys while these hold sets. -/
def Reads : Cmd → Prop
  | .groups _ | .rooms _ => True
  | .key _ (.sismember _) => True
  | .key .. => False

variable {α β : Type} {m m' : Members} {s : Store} {k : Key} {gid uid : BitVec 64} {add : Bool}

theorem Store.Shows.key (h : s.Shows m) {c : Command (BitVec 64)} {b : Bool} {x : Finset (BitVec 64)}
    (hrun : c.run (Value.ofSet (m k)) = (.ok b, Value.ofSet x)) :
    (exec (.key k c) s).1 = .ok b ∧ (exec (.key k c) s).2.Shows (put m k fun _ => x) := by
  have hexec : exec (.key k c) s = (.ok b, { s with value := put s.value k fun _ => Value.ofSet x }) := by
    unfold exec
    dsimp only
    rw [h.value k, hrun]
    rfl
  rw [hexec]
  refine ⟨rfl, fun k' => ?_, h.failures⟩
  change put s.value k (fun _ => Value.ofSet x) k' = _
  rw [put_apply, put_apply]
  split
  · rfl
  · exact h.value k'

theorem Store.Shows.reads (h : s.Shows m) {c : Cmd} (hc : Reads c) : (exec c s).2.Shows m := by
  cases c with
  | groups c => exact ⟨h.value, h.failures⟩
  | rooms c => exact ⟨h.value, h.failures⟩
  | key k c =>
    cases c with
    | sismember uid =>
      have h' := (h.key (k := k) (Command.run_sismember uid (m k))).2
      rwa [put_eq_self.2 rfl] at h'
    | _ => exact hc.elim

namespace Leads

theorem ret {post : α → Members} (a : α) (h : post a = m) : Leads m (pure a) post := by
  intro s hs
  rwa [← h] at hs

theorem bind {p : Redis α} {f : α → Redis β} {mid : α → Members} {post : β → Members} (hp : Leads m p mid)
    (hf : ∀ a, Leads (mid a) (f a) post) : Leads m (p >>= f) post := by
  intro s hs
  rw [Prog.run_bind]
  exact hf _ _ (hp s hs)

theorem ofReads {p : Redis α} (hp : p.Only Reads) : Leads m p fun _ => m :=
  fun _ => Prog.Only.run exec (R := fun s s' => s.Shows m → s'.Shows m) (fun _ h => h) (fun _ _ _ h h' hs => h' (h hs))
    (fun _ hc _ hs => hs.reads hc) hp _

theorem key {c : Command (BitVec 64)} {b : Bool} {x : Finset (BitVec 64)}
    (hrun : c.run (Value.ofSet (m k)) = (.ok b, Value.ofSet x)) :
    Leads m (redo (.key k c)) fun _ => put m k fun _ => x := fun _ hs => (hs.key hrun).2

theorem sadd (m : Members) (k : Key) (uid : BitVec 64) :
    Leads m (redo (.key k (.sadd uid))) fun _ => put m k (insert uid) :=
  key (Command.run_sadd uid (m k))

theorem srem (m : Members) (k : Key) (uid : BitVec 64) :
    Leads m (redo (.key k (.srem uid))) fun _ => put m k fun x => x.erase uid :=
  key (Command.run_srem uid (m k))

theorem del (m : Members) (k : Key) : Leads m (redo (.key k .del)) fun _ => put m k fun _ => ∅ := by
  refine key (b := (Value.ofSet (m k)).isSome) ?_
  rw [Value.ofSet_empty]
  rfl

end Leads

theorem reads_groups (c : Groups.Cmd) : (redo (.groups c)).Only Reads := ⟨trivial, fun _ => trivial⟩

theorem reads_rooms (c : Room.Cmd) : (redo (.rooms c)).Only Reads := ⟨trivial, fun _ => trivial⟩

theorem reads_sismember (k : Key) (uid : BitVec 64) : (redo (.key k (.sismember uid))).Only Reads :=
  ⟨trivial, fun _ => trivial⟩

theorem reads_onGroups (p : Groups.Redis α) : (onGroups p).Only Reads := Prog.Only.lift _ _ (fun _ => trivial) p

theorem reads_onRooms (p : Room.Redis α) : (onRooms p).Only Reads := Prog.Only.lift _ _ (fun _ => trivial) p

/-! ## What the operations lead to -/

/-- What a decision makes of the keys. -/
def Decision.members : Decision → Members → Members
  | .none, m => m
  | .put k uid on, m => Lib.put m k fun x => if on then insert uid x else x.erase uid
  | .clear gag bl, m => Lib.put (Lib.put m gag fun _ => ∅) bl fun _ => ∅

theorem check_leads {c : Command (BitVec 64)} {m' : Members} (h : Leads m (redo (.key k c)) fun _ => m') :
    Leads m (check k c) fun _ => m' := by
  refine h.bind fun r => ?_
  cases r with
  | error err => exact .ret _ rfl
  | ok b => exact .ret _ rfl

theorem groupKick_leads (m : Members) (gid uid : BitVec 64) :
    Leads m (groupKick gid uid) fun _ => put m (.groupGag gid) fun x => x.erase uid := by
  unfold groupKick
  refine .bind (.ofReads (reads_groups _)) fun _ => ?_
  refine .bind (.ofReads (reads_groups _)) fun _ => ?_
  refine .bind (.ofReads (reads_groups _)) fun _ => ?_
  exact .bind (.srem m _ uid) fun _ => .ret _ rfl

theorem groupDismiss_leads (m : Members) (gid : BitVec 64) :
    Leads m (groupDismiss gid) fun _ => (Decision.clear (.groupGag gid) (.groupBlacklist gid)).members m := by
  unfold groupDismiss
  refine .bind (.ofReads (reads_groups _)) fun _ => ?_
  refine .bind (.ofReads (Prog.Only.forM (fun _ => reads_groups _) _)) fun _ => ?_
  refine .bind (.ofReads (reads_groups _)) fun _ => ?_
  refine .bind (.ofReads (reads_groups _)) fun _ => ?_
  refine .bind (.ofReads (reads_groups _)) fun _ => ?_
  refine .bind (.ofReads (reads_groups _)) fun _ => ?_
  refine .bind (.del m (.groupGag gid)) fun _ => ?_
  refine .bind (.del _ (.groupBlacklist gid)) fun _ => ?_
  exact .bind (.ofReads (reads_groups _)) fun _ => .ret _ rfl

theorem groupSetBlacklist_leads (hgag : uid ∉ m (.groupGag gid) ∨ add = false) :
    Leads m (groupSetBlacklist gid uid add) fun _ => (Decision.put (.groupBlacklist gid) uid add).members m := by
  unfold groupSetBlacklist
  cases add with
  | false => exact check_leads (.srem m _ uid)
  | true =>
    intro s hs
    -- A user who is not silenced is not released when he is kicked.
    have hkick := groupKick_leads m gid uid s hs
    rw [put_eq_self.2 (Finset.erase_eq_of_notMem (hgag.resolve_right (by decide)))] at hkick
    exact check_leads (.sadd m _ uid) _ hkick

theorem chatRoomKickHandler_leads (m : Members) (head : MesgHeader) (req : MesgRoom) :
    Leads m (chatRoomKickHandler head req) fun r =>
    (Decision.ofResult r (.put (.roomBlacklist req.rid) req.uid true)).members m := by
  unfold chatRoomKickHandler
  split
  · exact .ret _ rfl
  refine .bind (.ofReads (reads_rooms _)) fun attr => ?_
  refine .bind (.ofReads (reads_onRooms _)) fun manager => ?_
  split
  · exact .ret _ rfl
  · exact .bind (.sadd m _ req.uid) fun _ => .ret _ rfl

theorem dismissRoomByRid_leads (m : Members) (rid : BitVec 64) (now : Int) :
    Leads m (dismissRoomByRid rid now) fun r =>
    (Decision.ofResult r (.clear (.roomGag rid) (.roomBlacklist rid))).members m := by
  unfold dismissRoomByRid
  refine .bind (.ofReads (reads_rooms _)) fun closed => ?_
  split
  · exact .ret _ rfl
  have hcleared : Leads m (roomDismissRedis rid) fun _ =>
      (Decision.clear (.roomGag rid) (.roomBlacklist rid)).members m := by
    unfold roomDismissRedis
    refine .bind (.ofReads (reads_rooms _)) fun _ => ?_
    refine .bind (.ofReads (reads_rooms _)) fun _ => ?_
    refine .bind (.ofReads (reads_rooms _)) fun _ => ?_
    refine .bind (.ofReads (reads_rooms _)) fun _ => ?_
    refine .bind (.ofReads (reads_rooms _)) fun _ => ?_
    refine .bind (.del m (.roomGag rid)) fun _ => ?_
    exact .bind (.del _ (.roomBlacklist rid)) fun _ => .ofReads (reads_rooms _)
  exact hcleared.bind fun _ => .ret _ rfl

theorem chatRoomDismissHandler_leads (m : Members) (head : MesgHeader) (req : MesgRoom) (now : Int) :
    Leads m (chatRoomDismissHandler head req now) fun r =>
      (Decision.ofResult r (.clear (.roomGag req.rid) (.roomBlacklist req.rid))).members m := by
  unfold chatRoomDismissHandler
  split
  · exact .ret _ rfl
  split
  · exact .ret _ rfl
  refine .bind (.ofReads (reads_onRooms _)) fun r => ?_
  cases r with
  | error err => exact .ret _ rfl
  | ok _ => exact dismissRoomByRid_leads m req.rid now

theorem http_leads {c : Command (BitVec 64)} {on : Bool} (k : BitVec 64 → Key) (id uid : BitVec 64)
    (h : id ≠ 0 → uid ≠ 0 → Leads m (redo (.key (k id) c)) fun _ => (Decision.put (k id) uid on).members m) :
    Leads m (http k id uid c) fun _ => (Decision.http k id uid on).members m := by
  unfold http Decision.http
  split
  · rename_i hid
    exact (h hid.1 hid.2).bind fun _ => .ret _ rfl
  · exact .ret _ rfl

/-- An addition over HTTP with the wrong ids, or a removal from a key that does not exist. -/
theorem zset_leads {c : Command (BitVec 64)} {on : Bool} (k : BitVec 64 → Key) (id uid : BitVec 64)
    (h : id = 0 ∨ uid = 0 ∨ on = false ∧ c = .zrem uid ∧ m (k id) = ∅) :
    Leads m (http k id uid c) fun _ => (Decision.http k id uid on).members m := by
  refine http_leads k id uid fun hid huid => ?_
  obtain ⟨rfl, rfl, hm⟩ := (h.resolve_left hid).resolve_left huid
  refine .key (b := false) ?_
  rw [hm, Value.ofSet_empty]
  exact Command.run_zrem uid

theorem groupJoinOnline_reads (gid uid sid : BitVec 64) (nid : BitVec 32) (now now' : Int) :
    (groupJoinOnline gid uid sid nid now now').Only Reads := by
  unfold groupJoinOnline
  refine .bind (fun lives => ?_) (reads_onGroups _)
  split
  · trivial
  refine .bind (fun r => ?_) (reads_sismember _ _)
  split
  · trivial
  split
  · trivial
  refine .bind (fun role => ?_) (reads_onGroups _)
  have hrest : ∀ ttl, (do
      redo (.groups (.zaddUid gid ttl uid))
      redo (.groups (.zaddSid gid ttl sid))
      redo (.groups (.zaddNid gid ttl nid))
      return .ok () : Redis (Except String Unit)).Only Reads := by
    intro ttl
    refine .bind (fun _ => ?_) (reads_groups _)
    refine .bind (fun _ => ?_) (reads_groups _)
    exact .bind (fun _ => Prog.only_pure _) (reads_groups _)
  split
  · refine .bind (fun _ => ?_) (reads_groups _)
    exact .bind (fun _ => hrest _) (reads_groups _)
  · exact hrest _

theorem groupAddMember_reads (gid uid : BitVec 64) (now : Int) : (groupAddMember gid uid now).Only Reads := by
  unfold groupAddMember
  refine .bind (fun lives => ?_) (reads_onGroups _)
  split
  · trivial
  refine .bind (fun r => ?_) (reads_sismember _ _)
  split
  · trivial
  split
  · trivial
  refine .bind (fun role => ?_) (reads_onGroups _)
  split
  · trivial
  refine .bind (fun _ => ?_) (reads_groups _)
  exact .bind (fun _ => Prog.only_pure _) (reads_groups _)

theorem msgSvrGroupChatHandler_reads (head : MesgHeader) (req : MesgGroupChat) :
    (msgSvrGroupChatHandler head req).Only Reads := by
  unfold msgSvrGroupChatHandler
  split
  · trivial
  refine .bind (fun role => ?_) (reads_onGroups _)
  split
  · trivial
  refine .bind (fun r => ?_) (reads_sismember _ _)
  split
  · trivial
  split
  · trivial
  split
  · trivial
  · trivial

theorem chatRoomJoinHandler_reads (head : MesgHeader) (req : MesgRoom) (now now' : Int) :
    (chatRoomJoinHandler head req now now').Only Reads := by
  unfold chatRoomJoinHandler
  split
  · trivial
  refine .bind (fun r => ?_) (reads_onRooms _)
  split
  · trivial
  unfold roomJoinHandler
  refine .bind (fun r => ?_) (reads_sismember _ _)
  split
  · trivial
  split
  · trivial
  refine .bind (fun gid => ?_) (reads_onRooms _)
  refine .bind (fun _ => ?_) (reads_rooms _)
  refine .bind (fun _ => ?_) (reads_rooms _)
  refine .bind (fun _ => ?_) (reads_rooms _)
  refine .bind (fun _ => ?_) (reads_rooms _)
  refine .bind (fun _ => ?_) (reads_rooms _)
  exact .bind (fun _ => Prog.only_pure _) (reads_rooms _)

/-! ## Steps -/

/-- `Fine`, as far as it is about the keys. -/
def Suits (m : Members) : Op → Prop
  | .blacklistAdd gid uid _ => gid = 0 ∨ uid = 0
  | .blacklistDel gid uid => gid = 0 ∨ uid = 0 ∨ m (.groupBlacklist gid) = ∅
  | .gagAdd gid uid _ => gid = 0 ∨ uid = 0
  | .gagDel gid uid => gid = 0 ∨ uid = 0 ∨ m (.groupGag gid) = ∅
  | .addGag rid uid _ => rid = 0 ∨ uid = 0
  | .delGag rid _ => m (.roomGag rid) = ∅
  | .call (.kick gid uid) => uid ∉ m (.groupGag gid)
  | .call (.setBlacklist gid uid true) => uid ∉ m (.groupGag gid)
  | _ => True

theorem call_leads (c : Groups.Call) (s : Store) (h : Suits m (.call c)) :
    Leads m (call c) fun _ => (Op.decision s (.call c)).members m := by
  cases c with
  | register gid ownerUID now => exact .ofReads (reads_onGroups _)
  | joinOnline gid uid sid nid now now' => exact .ofReads (groupJoinOnline_reads ..)
  | addMember gid uid now => exact .ofReads (groupAddMember_reads ..)
  | quit gid uid sid => exact .ofReads (reads_onGroups _)
  | kick gid uid =>
    have hkick := groupKick_leads m gid uid
    rwa [put_eq_self.2 (Finset.erase_eq_of_notMem h)] at hkick
  | dismiss gid => exact groupDismiss_leads m gid
  | setManager gid uid manager => exact .ofReads (reads_onGroups _)
  | setGag gid uid gag =>
    cases gag with
    | true => exact check_leads (.sadd m _ uid)
    | false => exact check_leads (.srem m _ uid)
  | setBlacklist gid uid add =>
    cases add with
    | true => exact groupSetBlacklist_leads (.inl h)
    | false => exact groupSetBlacklist_leads (.inr rfl)

theorem step_shows (hs : s.Shows m) (op : Op) (h : Suits m op) : (s.step op).Shows ((op.decision s).members m) := by
  cases op with
  | blacklistAdd gid uid now => exact zset_leads .groupBlacklist gid uid (h.imp_right .inl) s hs
  | blacklistDel gid uid =>
    exact zset_leads .groupBlacklist gid uid (h.imp_right fun h => h.imp_right fun h => ⟨rfl, rfl, h⟩) s hs
  | gagAdd gid uid now => exact zset_leads .groupGag gid uid (h.imp_right .inl) s hs
  | gagDel gid uid => exact zset_leads .groupGag gid uid (h.imp_right fun h => h.imp_right fun h => ⟨rfl, rfl, h⟩) s hs
  | addBlacklist rid uid => exact http_leads .roomBlacklist rid uid (fun _ _ => .sadd m _ uid) s hs
  | delBlacklist rid uid => exact http_leads .roomBlacklist rid uid (fun _ _ => .srem m _ uid) s hs
  | addGag rid uid now => exact zset_leads .roomGag rid uid (h.imp_right .inl) s hs
  | delGag rid uid => exact zset_leads .roomGag rid uid (.inr (.inr ⟨rfl, rfl, h⟩)) s hs
  | call c => exact call_leads c s h s hs
  | groupChat head req => exact Leads.ofReads (msgSvrGroupChatHandler_reads ..) s hs
  | roomJoin head req now now' => exact Leads.ofReads (chatRoomJoinHandler_reads ..) s hs
  | roomKick head req => exact chatRoomKickHandler_leads m head req s hs
  | roomDismiss head req now => exact chatRoomDismissHandler_leads m head req now s hs
  | closeRoom rid now => exact dismissRoomByRid_leads m rid now s hs
  | roomChat head req now => exact Leads.ofReads (reads_onRooms _) s hs
  | room e =>
    have hroom : s.step (.room e) = if plain e then { s with rooms := (s.rooms.step e).getD s.rooms } else s := rfl
    rw [hroom]
    split
    · exact ⟨hs.value, hs.failures⟩
    · exact hs

/-- The keys hold those who were last decided to be silenced or banned. -/
def Agrees (m : Members) (last : Last) : Prop := ∀ k uid, uid ∈ m k ↔ last k uid = some true

theorem Agrees.apply {last : Last} (h : Agrees m last) (d : Decision) : Agrees (d.members m) (d.apply last) := by
  intro k' u
  cases d with
  | none => exact h k' u
  | put k uid on =>
    rw [Decision.members, Decision.apply, put_apply, put_apply]
    split
    · rename_i hk
      subst hk
      rw [put_apply]
      by_cases hu : u = uid
      · subst hu
        cases on <;> simp
      · cases on <;> simp [hu, h k' u]
    · exact h k' u
  | clear gag bl =>
    rw [Decision.members, Decision.apply, put_apply, put_apply, put_apply, put_apply]
    split
    · simp
    · split
      · simp
      · exact h k' u

/-- No decision to silence somebody in a room. -/
def Decision.Spares : Decision → Prop
  | .put (.roomGag _) _ true => False
  | _ => True

theorem Decision.Spares.members {d : Decision} (h : d.Spares) {rid : BitVec 64} (hm : m (.roomGag rid) = ∅) :
    d.members m (.roomGag rid) = ∅ := by
  cases d with
  | none => exact hm
  | put k uid on =>
    rw [Decision.members, put_apply]
    split
    · rename_i hk
      subst hk
      cases on with
      | true => exact h.elim
      | false => simp [hm]
    · exact hm
  | clear gag bl =>
    rw [Decision.members, put_apply, put_apply]
    split
    · rfl
    · split
      · rfl
      · exact hm

theorem Decision.ofResult_spares {d : Decision} (h : d.Spares) (r : Except String Unit) : (ofResult r d).Spares := by
  cases r with
  | error err => trivial
  | ok _ => exact h

theorem Decision.http_spares {on : Bool} (k : BitVec 64 → Key) (id uid : BitVec 64)
    (h : id ≠ 0 → uid ≠ 0 → (Decision.put (k id) uid on).Spares) : (http k id uid on).Spares := by
  unfold http
  split
  · rename_i hid
    exact h hid.1 hid.2
  · trivial

theorem decision_spares (s : Store) (op : Op) (h : Suits m op) : (op.decision s).Spares := by
  cases op with
  | addGag rid uid now => exact Decision.http_spares _ _ _ fun hrid huid => (h.elim hrid huid).elim
  | blacklistAdd | blacklistDel | gagAdd | gagDel | addBlacklist | delBlacklist | delGag =>
    exact Decision.http_spares _ _ _ fun _ _ => trivial
  | call c => cases c <;> trivial
  | roomKick | roomDismiss | closeRoom => exact Decision.ofResult_spares (by trivial) _
  | groupChat | roomJoin | roomChat | room => trivial

/-! ## Refusals -/

theorem onGroups_run (p : Groups.Redis α) (s : Store) :
    (onGroups p).run exec s = ((p.run Groups.exec s.groups).1,
    { s with groups := (p.run Groups.exec s.groups).2 }) := by
  have h := Prog.run_lift Groups.exec exec .groups (fun _ r => r) (fun g s' => s' = { s with groups := g })
    (fun c g s' hs' => by subst hs'; exact ⟨rfl, rfl⟩) p s.groups s rfl
  exact Prod.ext h.1 h.2

theorem onRooms_run (p : Room.Redis α) (s : Store) :
    (onRooms p).run exec s = ((p.run Room.exec s.rooms).1, { s with rooms := (p.run Room.exec s.rooms).2 }) := by
  have h := Prog.run_lift Room.exec exec .rooms (fun _ r => r) (fun g s' => s' = { s with rooms := g })
    (fun c g s' hs' => by subst hs'; exact ⟨rfl, rfl⟩) p s.rooms s rfl
  exact Prod.ext h.1 h.2

theorem sismember_run (hs : s.Shows m) (k : Key) (uid : BitVec 64) :
    (redo (.key k (.sismember uid))).run exec s = (.ok (uid ∈ m k), s) := by
  have hexec : exec (.key k (.sismember uid)) s = (.ok (uid ∈ m k), s) := by
    unfold exec
    dsimp only
    rw [hs.value k, Command.run_sismember]
    dsimp only [failed]
    rw [put_eq_self.2 (hs.value k).symm]
    rfl
  rw [redo, Prog.run_issue, hexec]
  rfl

theorem groupExists_run (s : Store) (gid : BitVec 64) (now : Int) :
    (onGroups (Groups.groupExists gid now)).run exec s = (s.groups.lives gid now, s) := by
  rw [onGroups_run, Groups.Store.groupExists_run_lives]

theorem groupGetRole_run (s : Store) (gid uid : BitVec 64) :
    (onGroups (Groups.groupGetRole gid uid)).run exec s = ((s.groups.role gid).lookup uid, s) := by
  rw [onGroups_run]
  rfl

theorem groupJoinOnline_refuses (hs : s.Shows m) (sid : BitVec 64) (nid : BitVec 32) {now : Int} (now' : Int)
    (h : s.groups.lives gid now) :
    ((groupJoinOnline gid uid sid nid now now').run exec s).1 ≠ .ok () ↔ uid ∈ m (.groupBlacklist gid) := by
  rw [groupJoinOnline, Prog.run_bind, groupExists_run, h]
  simp only [Bool.not_true, Bool.false_eq_true, if_false]
  rw [Prog.run_bind, sismember_run hs]
  by_cases hbl : uid ∈ m (.groupBlacklist gid)
  · rw [decide_eq_true hbl]
    exact iff_of_true (by simp) hbl
  · rw [decide_eq_false hbl]
    refine iff_of_false (not_not.2 ?_) hbl
    dsimp only
    rw [if_neg Bool.false_ne_true, Prog.run_bind, groupGetRole_run]
    dsimp only
    split
    · rfl
    · rfl

theorem groupAddMember_refuses (hs : s.Shows m) {now : Int} (h : s.groups.lives gid now)
    (hno : uid ∉ s.groups.role gid) :
    ((groupAddMember gid uid now).run exec s).1 ≠ .ok () ↔ uid ∈ m (.groupBlacklist gid) := by
  rw [groupAddMember, Prog.run_bind, groupExists_run, h]
  simp only [Bool.not_true, Bool.false_eq_true, if_false]
  rw [Prog.run_bind, sismember_run hs]
  by_cases hbl : uid ∈ m (.groupBlacklist gid)
  · rw [decide_eq_true hbl]
    exact iff_of_true (by simp) hbl
  · rw [decide_eq_false hbl]
    refine iff_of_false (not_not.2 ?_) hbl
    dsimp only
    rw [if_neg Bool.false_ne_true, Prog.run_bind, groupGetRole_run, AList.lookup_eq_none.2 hno]
    rfl

theorem msgSvrGroupChatHandler_refuses (hs : s.Shows m) {head : MesgHeader} {req : MesgGroupChat}
    (hvalid : isValid head) (hrole : req.uid ∈ s.groups.role req.gid) (htext : req.text ≠ "") :
    ((msgSvrGroupChatHandler head req).run exec s).1 ≠ .ok () ↔ req.uid ∈ m (.groupGag req.gid) := by
  obtain ⟨role, hlookup⟩ := Option.isSome_iff_exists.1 (AList.lookup_isSome.2 hrole)
  rw [msgSvrGroupChatHandler, hvalid, if_neg (by decide), Prog.run_bind, groupGetRole_run, hlookup]
  dsimp only [Option.isNone]
  rw [if_neg Bool.false_ne_true, Prog.run_bind, groupIsGagged, sismember_run hs]
  by_cases hgag : req.uid ∈ m (.groupGag req.gid)
  · rw [decide_eq_true hgag]
    exact iff_of_true (by simp) hgag
  · rw [decide_eq_false hgag]
    refine iff_of_false (not_not.2 ?_) hgag
    dsimp only
    rw [if_neg Bool.false_ne_true, if_neg htext]
    rfl

theorem chatRoomJoinHandler_refuses (hs : s.Shows m) {head : MesgHeader} {req : MesgRoom} {now : Int} (now' : Int)
    (hvalid : isValid head) (hjoins : s.rooms.Joins head req now) :
    (∀ gid, ((chatRoomJoinHandler head req now now').run exec s).1 ≠ .ok gid) ↔
    req.uid ∈ m (.roomBlacklist req.rid) := by
  obtain ⟨r, hrun, hr⟩ := Room.Store.validateRoomJoin_decides s.rooms head req now
  obtain rfl := hr.2 hjoins
  have hok : (onRooms (Room.validateRoomJoin head req now)).run exec s = (.ok (), s) := by rw [onRooms_run, hrun]
  rw [chatRoomJoinHandler, hvalid, if_neg (by decide), Prog.run_bind, hok]
  dsimp only
  rw [roomJoinHandler, Prog.run_bind, sismember_run hs]
  by_cases hbl : req.uid ∈ m (.roomBlacklist req.rid)
  · rw [decide_eq_true hbl]
    exact iff_of_true (by simp) hbl
  · rw [decide_eq_false hbl]
    refine iff_of_false (fun h => ?_) hbl
    dsimp only at h
    rw [if_neg Bool.false_ne_true, Prog.run_bind] at h
    exact h _ rfl

/-- Nothing in a room asks whether somebody is silenced. -/
theorem chatRoomChatHandler_accepts (s : Store) {head : MesgHeader} {req : Room.MesgRoomChat} {now : Int}
    (hvalid : isValid head)
    (hchats : s.rooms.Chats head req now) :
    ((onRooms (Room.chatRoomChatHandler head req now)).run exec s).1 = .ok () := by
  obtain ⟨r, hrun, hr⟩ := Room.Store.validateRoomChat_decides s.rooms head req now
  obtain rfl := hr.2 hchats
  rw [onRooms_run, Room.chatRoomChatHandler, hvalid, if_neg (by decide), hrun]

/-! ## Runs -/

namespace World

variable {w : World}

/-- The keys are sets of those whom the last decisions name, and nobody is silenced in a room. -/
def Inv (w : World) : Prop := ∃ m, w.store.Shows m ∧ Agrees m w.last ∧ ∀ rid, m (.roomGag rid) = ∅

theorem empty_inv : empty.Inv := by
  refine ⟨fun _ => ∅, ⟨fun _ => Value.ofSet_empty.symm, rfl⟩, ?_, fun _ => rfl⟩
  intro k uid
  simp [empty]

theorem Inv.suits (hs : w.store.Shows m) (hag : Agrees m w.last) (hroom : ∀ rid, m (.roomGag rid) = ∅) {op : Op}
    (h : w.Fine op) : Suits m op := by
  have hempty : ∀ k, w.store.value k = none → m k = ∅ := fun k hk => Value.ofSet_eq_none.1 ((hs.value k).symm.trans hk)
  cases op with
  | blacklistDel gid uid => exact h.imp_right fun h => h.imp_right (hempty _)
  | gagDel gid uid => exact h.imp_right fun h => h.imp_right (hempty _)
  | delGag rid uid => exact hroom rid
  | call c =>
    cases c with
    | kick gid uid => exact mt (hag _ _).1 h
    | setBlacklist gid uid add =>
      cases add with
      | true => exact mt (hag _ _).1 h
      | false => trivial
    | _ => trivial
  | _ => exact h

theorem Inv.step (hw : w.Inv) {op : Op} (h : w.Fine op) : (w.step op).Inv := by
  obtain ⟨m, hs, hag, hroom⟩ := hw
  have hsuits := Inv.suits hs hag hroom h
  exact ⟨_, step_shows hs op hsuits, hag.apply _, fun rid => (decision_spares w.store op hsuits).members (hroom rid)⟩

theorem Inv.governs (hw : w.Inv) : w.Governs := by
  obtain ⟨m, hs, hag, hroom⟩ := hw
  exact
    { groupJoin := fun gid uid sid nid now now' h => (groupJoinOnline_refuses hs sid nid now' h).trans (hag _ _)
      groupAdd := fun gid uid now h hno => (groupAddMember_refuses hs h hno).trans (hag _ _)
      groupChat := fun head req hvalid hrole htext => (msgSvrGroupChatHandler_refuses hs hvalid hrole htext).trans
        (hag _ _)
      roomJoin := fun head req now now' hvalid hjoins => (chatRoomJoinHandler_refuses hs now' hvalid hjoins).trans
        (hag _ _)
      roomChat := fun head req now hvalid hchats => by
        rw [← hag, hroom]
        exact iff_of_false (not_not.2 (chatRoomChatHandler_accepts w.store hvalid hchats)) (Finset.notMem_empty _)
      failures := hs.failures }

theorem run_inv : ∀ (ops : List Op) {w : World}, w.Inv → Guarded step Fine w ops → (ops.foldl step w).Inv
  | [], _, hw, _ => hw
  | _ :: ops, _, hw, h => run_inv ops (hw.step h.1) h.2

/-- In every state of a run whose steps are fine, whoever was last decided to be banned or silenced
is refused, and nobody else; and no command has failed. -/
theorem moderation_governs (ops : List Op) (h : Guarded step Fine empty ops) : (ops.foldl step empty).Governs :=
  (run_inv ops empty_inv h).governs

/-- A group, a user banned from it and one silenced in it, one banned from a room, and one whom a
deletion over HTTP finds in no list. -/
theorem moderation_governs_settled : (List.foldl step empty
    [.call (.register 1 7 0), .call (.setBlacklist 1 5 true), .call (.setGag 1 7 true), .addBlacklist 2 5,
    .gagDel 3 5]).Governs :=
  moderation_governs _ ⟨trivial, (fun h => nomatch h), trivial, trivial, .inr (.inr rfl), trivial⟩

/-- The user 5 is silenced in the group 1 over HTTP: now the user 7 cannot chat there. -/
theorem silenced_for_all : ¬∀ ops, (List.foldl step empty ops).Governs := by
  intro h
  have hchat := (h [.call (.register 1 7 0), .gagAdd 1 5 0]).groupChat ⟨9, 9, 1⟩ ⟨7, 1, 0, 0, "hello", []⟩ rfl (by decide) (by decide)
  exact absurd (hchat.1 fun hok => nomatch hok) (by decide)

end World

end BeehiveIm.Moderation
