/-
The private messages that wait for their receivers (`exec/msgsvr/controllers/pmesg.go`, `mesg.go`):
where they are stored, acknowledged and read again. Redis gets its commands as they are sent, a name
and a list of byte strings, and makes of them what their order and number say. What
`proto.Unmarshal` makes of a body is left open, and so is what a message is to those who are online.

The score that `storage` sends with `ZADD` is the member, which is no number, and its `HSETNX` lacks
the field, so Redis refuses both, the queues stay empty and nothing is ever delivered: a run is
right as long as every SYNC comes from a user for whom nothing waits.
-/
import BeehiveIm.Lib.Keys
import BeehiveIm.Lib.Run
import BeehiveIm.Session
import Mathlib.Algebra.Group.Int.Defs

namespace BeehiveIm.Offline

open BeehiveIm.Lib
open BeehiveIm.Session (MesgHeader)

/-! ## Texts -/

abbrev Str := List (BitVec 8)

instance : Text (List (BitVec 8)) := ⟨fun s => s.map fun b => Char.ofNat b.toNat⟩

def ascii (s : String) : Str := s.toList.map fun c => BitVec.ofNat 8 c.toNat

/-- `%d` -/
def dec : Int → Str
  | .ofNat n => (Nat.toDigits 10 n).map fun c => BitVec.ofNat 8 c.toNat
  | .negSucc n => 45#8 :: (Nat.toDigits 10 (n + 1)).map fun c => BitVec.ofNat 8 c.toNat

/-- A number without a sign. -/
def digits (s : Str) : Option Nat :=
  if s ≠ [] ∧ s.all (fun b => 48#8 ≤ b ∧ b ≤ 57#8) then some (s.foldl (fun n b => 10 * n + (b.toNat - 48)) 0) else none

/-- `strconv.ParseInt(_, 10, 64)` without its error: 0, or the nearest number that is not out of
range. -/
def parseInt (s : Str) : Int :=
  match s with
  | 45#8 :: s => -min ((digits s).getD 0 : Int) (2 ^ 63)
  | 43#8 :: s => min ((digits s).getD 0 : Int) (2 ^ 63 - 1)
  | s => min ((digits s).getD 0 : Int) (2 ^ 63 - 1)

/-- `strings.Split` -/
def split (sep : BitVec 8) : Str → List Str
  | [] => [[]]
  | b :: s =>
    if b = sep then [] :: split sep s
    else
      match split sep s with
      | [] => [[b]]
      | v :: vals => (b :: v) :: vals

/-! ## Redis -/

structure Store where
  zset : Str → ZSet Str
  hash : Str → Str → Option Str

def Store.empty : Store := ⟨fun _ => ∅, fun _ _ => none⟩

inductive Name where
  | zadd
  | zrem
  | zrangebyscore
  | hsetnx
  | hdel
  | hget

/-- A command and its arguments. -/
abbrev Cmd := Name × List Str

inductive Reply where
  | int (n : Int)
  | bulk (s : Option Str)
  | array (l : List Str)
  | error (msg : String)

/-- A bound of a range. -/
def bound (s : Str) : Option (Option Int) := if s = ascii "+inf" then some none else (digits s).map fun n => some (n : Int)

/-- Scores are read as whole numbers, and one member or field at a time: nothing else is sent
here. -/
def exec : Cmd → Store → Reply × Store
  | (.zadd, [key, score, member]), s =>
    match digits score with
    | none => (.error "ERR value is not a valid float", s)
    | some n => (.int (if member ∈ s.zset key then 0 else 1), { s with zset := put s.zset key fun z => z.add n member })
  | (.zrem, [key, member]), s =>
    (.int (if member ∈ s.zset key then 1 else 0), { s with zset := put s.zset key fun z => z.rem member })
  | (.zrangebyscore, [key, min, max]), s =>
    match bound min, bound max with
    | some min, some max => (.array (((s.zset key).rangeByScore min max).map Prod.fst), s)
    | _, _ => (.error "ERR min or max is not a float", s)
  | (.hsetnx, [key, field, value]), s =>
    match s.hash key field with
    | none => (.int 1, { s with hash := put s.hash key fun f => put f field fun _ => some value })
    | some _ => (.int 0, s)
  | (.hdel, [key, field]), s =>
    (.int (if (s.hash key field).isSome then 1 else 0),
    { s with hash := put s.hash key fun f => put f field fun _ => none })
  | (.hget, [key, field]), s => (.bulk (s.hash key field), s)
  | _, s => (.error "ERR wrong number of arguments", s)

/-- A pipeline, whose replies nobody looks at. -/
def Store.pipeline (s : Store) (cmds : List Cmd) : Store := cmds.foldl (fun s c => (exec c s).2) s

/-- `CHAT_KEY_USR_OFFLINE_ZSET` -/
def chatKeyUsrOfflineZset (uid : BitVec 64) : Str := ascii "chat:uid:" ++ dec uid.toNat ++ ascii ":offline:zset"

/-- `CHAT_KEY_USR_SEND_MESG_HTAB` -/
def chatKeyUsrSendMesgHtab (uid : Int) : Str := ascii "chat:uid:" ++ dec uid ++ ascii ":send:mesg:htab"

/-- `CHAT_FMT_UID_MSGID_STR` -/
def chatFmtUidMsgidStr (uid msgid : BitVec 64) : Str := ascii "uid:" ++ dec uid.toNat ++ ascii ":msgid:" ++ dec msgid.toNat

/-! ## Packets -/

def mesgHeadSize : Nat := 52
def cmdChat : BitVec 32 := 0x0201

/-- What is read of a header. -/
structure Head where
  cmd : BitVec 32
  length : BitVec 32
  head : MesgHeader
  seq : BitVec 64
  deriving DecidableEq

/-- `binary.BigEndian` -/
def be (s : Str) : Nat := s.foldl (fun n b => 256 * n + b.toNat) 0

/-- `MesgHeadNtoh`, which panics when there are too few bytes. -/
def mesgHeadNtoh (data : Str) : Option Head :=
  if data.length < mesgHeadSize then none
  else some ⟨be (data.take 4), be ((data.drop 4).take 4),
  ⟨be ((data.drop 8).take 8), be ((data.drop 16).take 8), be ((data.drop 24).take 4)⟩,
    be ((data.drop 28).take 8)⟩

/-- `IsValid(1)` -/
def Head.isValid (h : Head) : Bool := h.head.nid ≠ 0 ∧ h.head.sid ≠ 0

/-- What is read of a `MesgChat`. -/
structure MesgChat where
  suid : BitVec 64
  duid : BitVec 64
  deriving DecidableEq

/-- What is read of a `MesgChatAck`. -/
structure MesgChatAck where
  code : BitVec 32
  suid : BitVec 64
  duid : BitVec 64

/-- `proto.Unmarshal` for a `MesgChat`, a `MesgChatAck` and a `MesgSync`, of which
only the user is read. -/
structure Env where
  chat : Str → Except String MesgChat
  ack : Str → Except String MesgChatAck
  sync : Str → Except String (BitVec 64)

/-- `MesgChatItem` -/
structure MesgChatItem where
  head : Head
  req : MesgChat
  raw : Str
  deriving DecidableEq

/-- What is sent of a stored message: a header, and the body copied into as many
bytes as the length says. -/
structure Packet where
  cmd : BitVec 32
  head : MesgHeader
  seq : BitVec 64
  body : Str
  length : BitVec 32
  deriving DecidableEq

/-- A packet with a good header whose body can be read; `none` when it is refused or too short. -/
def parse {α : Type} (unmarshal : Str → Except String α) (data : Str) : Option (Head × α) :=
  match mesgHeadNtoh data with
  | none => none
  | some head =>
    if !head.isValid then none
    else
      match unmarshal (data.drop mesgHeadSize) with
      | .error _ => none
      | .ok req => some (head, req)

/-- `chat_parse` -/
def chatParse (env : Env) (data : Str) : Option (Head × MesgChat) := do
  let (head, req) ← parse env.chat data
  if 0 = req.suid ∨ 0 = req.duid then none else some (head, req)

/-- `chat_ack_parse` -/
def chatAckParse (env : Env) : Str → Option (Head × MesgChatAck) := parse env.ack

/-- `sync_parse` -/
def syncParse (env : Env) : Str → Option (Head × BitVec 64) := parse env.sync

/-! ## The messages -/

/-- `storage` -/
def storage (item : MesgChatItem) (ctm : Nat) (s : Store) : Store :=
  let member := chatFmtUidMsgidStr item.req.suid item.head.seq
  s.pipeline [(.zadd, [chatKeyUsrOfflineZset item.req.duid, member, dec ctm]),
  (.hsetnx, [chatKeyUsrSendMesgHtab item.req.suid.toNat, item.raw])]

/-- `chat_ack_handler` -/
def chatAckHandler (head : Head) (req : MesgChatAck) (s : Store) : Store :=
  if req.code ≠ 0 then s
  else
    s.pipeline [(.zrem, [chatKeyUsrOfflineZset req.duid, chatFmtUidMsgidStr req.suid head.seq]),
      (.hdel, [chatKeyUsrSendMesgHtab req.suid.toNat, dec head.seq.toNat])]

/-- One entry of the queue: what is sent and what goes into the pipeline, or nothing after a
panic. -/
def syncMesg (env : Env) (head : MesgHeader) (key : Str) (s : Store) (mesg : Str) : Option (Option Packet × List Cmd) :=
  match split 58#8 mesg with
  | v₀ :: v₁ :: v₂ :: _ =>
    let uid := parseInt v₀
    let sid := parseInt v₁
    let msgid := parseInt v₂
    if 0 = msgid ∨ 0 = uid then some (none, [(.zrem, [mesg])])
    else
      let mesgKey := chatKeyUsrSendMesgHtab uid
      let drop : List Cmd := [(.zrem, [key, mesg]), (.hdel, [mesgKey, dec msgid])]
      match (exec (.hget, [mesgKey, dec sid ++ 58#8 :: dec msgid]) s).1 with
      | .bulk (some data) =>
        match mesgHeadNtoh data with
        | none => none
        | some hhead =>
          if !hhead.isValid then some (none, drop)
          else if hhead.cmd ≠ cmdChat then some (none, [])
          else
            match env.chat (data.drop mesgHeadSize) with
            | .error _ => some (none, drop)
            | .ok _ => some (some ⟨cmdChat, head, .ofInt 64 msgid, data.drop mesgHeadSize, hhead.length⟩, [])
      | _ => some (none, drop)
  | _ => none

/-- What a SYNC sends, what its pipeline is at the end, and whether it has panicked. -/
structure Synced where
  sent : List Packet
  cmds : List Cmd
  panic : Bool

/-- The loop of `sync_handler` -/
def syncLoop (env : Env) (head : MesgHeader) (key : Str) (s : Store) : List Str → Synced
  | [] => ⟨[], [], false⟩
  | mesg :: mesgs =>
    match syncMesg env head key s mesg with
    | none => ⟨[], [], true⟩
    | some (sent, cmds) =>
      let rest := syncLoop env head key s mesgs
      ⟨sent.toList ++ rest.sent, cmds ++ rest.cmds, rest.panic⟩

/-- `sync_handler` up to its pipeline, which goes out even after a panic. -/
def syncHandler (env : Env) (head : MesgHeader) (uid : BitVec 64) (s : Store) : Synced :=
  let key := chatKeyUsrOfflineZset uid
  match (exec (.zrangebyscore, [key, ascii "0", ascii "+inf"]) s).1 with
  | .array mesgs => syncLoop env head key s mesgs
  | _ => ⟨[], [], false⟩

/-! ## Runs -/

/-- Packets as they come, and the task that stores what a CHAT has put into the channel. -/
inductive Event where
  | chat (data : Str)
  | store (ctm : Nat)
  | ack (data : Str)
  | sync (im : Session.Store) (data : Str)

/-- The store, the channel, and, which nobody keeps, the messages that have been
stored and not acknowledged. -/
structure World where
  redis : Store
  chan : List MesgChatItem
  pending : List MesgChatItem

namespace World

def empty : World := ⟨.empty, [], []⟩

/-- The message that an acknowledgement names. -/
def Names (head : Head) (req : MesgChatAck) (item : MesgChatItem) : Bool :=
  item.req.suid = req.suid ∧ item.req.duid = req.duid ∧ item.head.seq = head.seq

/-- `MsgSvrChatHandler`, `task_chat_chan_pop`, `MsgSvrChatAckHandler` and `MsgSvrSyncHandler`. -/
def step (env : Env) (w : World) : Event → World
  | .chat data =>
    match chatParse env data with
    | none => w
    | some (head, req) => { w with chan := w.chan ++ [⟨head, req, data⟩] }
  | .store ctm =>
    match w.chan with
    | [] => w
    | item :: items => ⟨storage item ctm w.redis, items, w.pending ++ [item]⟩
  | .ack data =>
    match chatAckParse env data with
    | none => w
    | some (head, req) =>
      { w with
        redis := chatAckHandler head req w.redis
        pending := if req.code ≠ 0 then w.pending else w.pending.filter fun item => !Names head req item }
  | .sync im data =>
    match syncParse env data with
    | none => w
    | some (head, uid) =>
      if uid ≠ (im.getSidAttr head.head.sid).uid then w
      else { w with redis := w.redis.pipeline (syncHandler env head.head uid w.redis).cmds }

end World

variable {env : Env} {w : World} {e : Event} {head : MesgHeader} {uid : BitVec 64} {s : Store}

/-! ## What is asked for -/

/-- What a receiver with this header gets of a stored message. -/
def MesgChatItem.packet (head : MesgHeader) (item : MesgChatItem) : Packet :=
  ⟨cmdChat, head, item.head.seq, item.raw.drop mesgHeadSize, item.head.length⟩

/-- A SYNC does not panic and sends what waits for its user. -/
def Synced.Delivers (r : Synced) (head : MesgHeader) (uid : BitVec 64) (pending : List MesgChatItem) : Prop :=
  r.panic = false ∧ ∀ p, p ∈ r.sent ↔ ∃ item ∈ pending, item.req.duid = uid ∧ p = item.packet head

/-- Of all that is queued, one member of one queue is gone. -/
def Store.Drops (s s' : Store) (key member : Str) : Prop :=
  ∀ k m, m ∈ s'.zset k ↔ m ∈ s.zset k ∧ ¬(k = key ∧ m = member)

namespace World

/-- What a SYNC delivers and what an acknowledgement removes are what they should be. -/
def Exact (env : Env) (w : World) : Event → Prop
  | .sync im data =>
    ∀ head uid, syncParse env data = some (head, uid) → uid = (im.getSidAttr head.head.sid).uid →
      (syncHandler env head.head uid w.redis).Delivers head.head uid w.pending
  | .ack data =>
    ∀ head req, chatAckParse env data = some (head, req) → req.code = 0 →
      w.redis.Drops (w.step env (.ack data)).redis (chatKeyUsrOfflineZset req.duid)
      (chatFmtUidMsgidStr req.suid head.seq)
  | _ => True

/-- Every step of the run from `w` is exact. -/
def AllExact (env : Env) : World → List Event → Prop := Guarded (step env) (Exact env)

/-- A SYNC finds that nothing waits for its user. -/
def Quiet (env : Env) (w : World) : Event → Prop
  | .sync im data =>
    ∀ head uid, syncParse env data = some (head, uid) → uid = (im.getSidAttr head.head.sid).uid →
      ∀ item ∈ w.pending, item.req.duid ≠ uid
  | _ => True

end World

/-! ## Redis refuses what is stored -/

theorem digits_eq_none {t : Str} (h : ∃ b ∈ t, ¬(48#8 ≤ b ∧ b ≤ 57#8)) : digits t = none := by
  obtain ⟨b, hb, hdigit⟩ := h
  refine if_neg fun hall => hdigit ?_
  simpa using List.all_eq_true.1 hall.2 b hb

/-- A member of a queue starts with a letter. -/
theorem digits_chatFmtUidMsgidStr (uid msgid : BitVec 64) : digits (chatFmtUidMsgidStr uid msgid) = none :=
  digits_eq_none ⟨117#8, by simp [chatFmtUidMsgidStr, ascii], by decide⟩

theorem storage_eq (item : MesgChatItem) (ctm : Nat) (s : Store) : storage item ctm s = s := by
  unfold storage Store.pipeline
  simp [exec, digits_chatFmtUidMsgidStr]

theorem chatAckHandler_empty (head : Head) (req : MesgChatAck) : chatAckHandler head req .empty = .empty := by
  unfold chatAckHandler
  split
  · rfl
  · simp only [Store.pipeline, List.foldl_cons, List.foldl_nil, exec]
    have hzset : (put Store.empty.zset (chatKeyUsrOfflineZset req.duid) fun z => z.rem
      (chatFmtUidMsgidStr req.suid head.seq)) =
        Store.empty.zset := put_eq_self.2 rfl
    have hhash : (put Store.empty.hash (chatKeyUsrSendMesgHtab req.suid.toNat) fun f =>
      put f (dec head.seq.toNat) fun _ => none) =
        Store.empty.hash := put_eq_self.2 (put_eq_self.2 rfl)
    rw [hzset]
    exact congrArg (Store.mk _) hhash

theorem syncHandler_empty (env : Env) (head : MesgHeader) (uid : BitVec 64) :
    syncHandler env head uid .empty = ⟨[], [], false⟩ := by
  unfold syncHandler
  have hreply : (exec (.zrangebyscore, [chatKeyUsrOfflineZset uid, ascii "0", ascii "+inf"]) .empty).1 = .array [] := by
    have hmin : bound (ascii "0") = some (some 0) := by decide
    have hmax : bound (ascii "+inf") = some none := by decide
    simp only [exec, hmin, hmax]
    rfl
  simp only [hreply]
  rfl

/-! ## Runs -/

namespace World

theorem step_redis (h : w.redis = .empty) (e : Event) : (w.step env e).redis = .empty := by
  cases e with
  | chat data =>
    simp only [step]
    split
    · exact h
    · exact h
  | store ctm =>
    simp only [step]
    split
    · exact h
    · rename_i item items _
      exact (storage_eq item ctm w.redis).trans h
  | ack data =>
    simp only [step]
    split
    · exact h
    · rename_i head req _
      exact (congrArg (chatAckHandler head req) h).trans (chatAckHandler_empty head req)
  | sync im data =>
    simp only [step]
    split
    · exact h
    · rename_i head uid _
      split
      · exact h
      · simp only [h, syncHandler_empty]
        rfl

/-- With nothing to send, a SYNC is right when nothing waits. -/
theorem exact_iff (h : w.redis = .empty) : w.Exact env e ↔ w.Quiet env e := by
  cases e with
  | chat data => exact Iff.rfl
  | store ctm => exact Iff.rfl
  | ack data =>
    refine iff_of_true (fun head req _ _ k m => ?_) trivial
    rw [step_redis h, h]
    simp [Store.empty]
  | sync im data =>
    unfold Exact Quiet
    refine forall_congr' fun head => forall_congr' fun uid => imp_congr_right fun _ => imp_congr_right fun _ => ?_
    rw [h, syncHandler_empty]
    constructor
    · rintro ⟨-, hsent⟩ item hitem hduid
      exact List.not_mem_nil ((hsent _).2 ⟨item, hitem, hduid, rfl⟩)
    · intro hquiet
      refine ⟨rfl, fun p => iff_of_false List.not_mem_nil ?_⟩
      rintro ⟨item, hitem, hduid, -⟩
      exact hquiet item hitem hduid

theorem allExact_iff (h : w.redis = .empty) (events : List Event) :
    AllExact env w events ↔ Guarded (step env) (Quiet env) w events :=
  guarded_congr (fun w => w.redis = .empty) (fun _ e h => step_redis h e) (fun _ _ h => exact_iff h) events w h

/-- A run is exact exactly as long as every SYNC comes from a user for whom nothing waits. -/
theorem offline_exact_iff (env : Env) (events : List Event) :
    AllExact env empty events ↔ Guarded (step env) (Quiet env) empty events :=
  allExact_iff rfl events

/-- User 1 writes to user 2, who asks for what he has missed and gets nothing. -/
theorem offline_lost : ¬∀ (env : Env) (events : List Event), AllExact env empty events := by
  intro h
  let env : Env := ⟨fun _ => .ok ⟨1, 2⟩, fun _ => .error "", fun _ => .ok 2⟩
  let im : Session.Store := { Session.Store.empty with attr := fun _ => some ⟨1, 2, 1⟩ }
  -- the command, no length, session and connection 1, node 1, number 1
  let data : Str := [0, 0, 2, 1, 0, 0, 0, 0, 0, 0, 0, 0, 0, 0, 0, 1, 0, 0, 0, 0, 0, 0, 0, 1, 0, 0, 0, 1, 0, 0, 0, 0, 0,
    0, 0, 1, 0, 0, 0, 0, 0, 0, 0, 0, 0, 0, 0, 0, 0, 0, 0, 0]
  have hquiet := (allExact_iff rfl [.chat data, .store 0, .sync im data]).1 (h env _)
  let head : Head := ⟨0x0201, 0, ⟨1, 1, 1⟩, 1⟩
  have hsync : syncParse env data = some (head, 2) := by rfl
  exact hquiet.2.2.1 head 2 hsync (by decide) ⟨head, ⟨1, 2⟩, data⟩ (List.mem_singleton.2 rfl) rfl

end World

end BeehiveIm.Offline
