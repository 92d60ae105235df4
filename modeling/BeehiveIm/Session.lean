/-
The sessions that are online, as the user server (`lib/im/comm.go`,
`exec/usrsvr/controllers/mesg.go`) and the chat room server (`exec/chatroom`) each keep them in
Redis: attributes by session, the sessions of each user, and when each expires. A request is
handled as a whole; what happens between the commands of several requests is the subject of
`Session.Race`. Commands do not fail.
-/
import BeehiveIm.Lib.ZSet
import Mathlib.Algebra.Group.Nat.Defs
import Mathlib.Data.Finset.Basic
import Mathlib.Logic.Function.Basic

namespace BeehiveIm.Session

open BeehiveIm.Lib

def chatSidTtl : Int := 300
def chatBatNum : Nat := 1000

/-- `strconv.ParseInt(_, 10, 64)` of a `uint64` in decimal: one that is too large reads as the
largest. -/
def parseInt (id : BitVec 64) : BitVec 64 := if id.toNat < 2 ^ 63 then id else 0x7fffffffffffffff#64

/-- The fields of the hash `sid:%d:attr`. -/
structure SidAttr where
  cid : BitVec 64
  uid : BitVec 64
  nid : BitVec 32
  deriving DecidableEq

/-- What the handlers read of a `MesgHeader`. -/
structure MesgHeader where
  sid : BitVec 64
  cid : BitVec 64
  nid : BitVec 32
  deriving DecidableEq

/-- What the handlers read of a `MesgOnline`. -/
structure MesgOnline where
  uid : BitVec 64
  sid : BitVec 64
  deriving DecidableEq

/-- The keys of one server: `sid:%d:attr`, `sid:zset`, `uid:zset` and `uid:%d:to:sid:set`. -/
structure Store where
  attr : BitVec 64 → Option SidAttr
  sidZset : ZSet (BitVec 64)
  uidZset : ZSet (BitVec 64)
  uidToSid : BitVec 64 → Finset (BitVec 64)

namespace Store

def empty : Store := ⟨fun _ => none, ∅, ∅, fun _ => ∅⟩

/-- `GetSidAttr` and `RoomGetSidAttr`; a hash that does not exist reads as zeros. -/
def getSidAttr (s : Store) (sid : BitVec 64) : SidAttr :=
  match s.attr sid with
  | none => ⟨0, 0, 0⟩
  | some attr => ⟨parseInt attr.cid, parseInt attr.uid, attr.nid⟩

/-- The user whom a session is bound to, as its attributes have him. -/
def boundUID (s : Store) (sid : BitVec 64) : Option (BitVec 64) :=
  match s.attr sid with
  | none => none
  | some attr => if attr.uid = 0 then none else some attr.uid

/-- A session that reads as online is bound to a user: to the one who is read, if the uid is not too
large. -/
theorem boundUID_of_read {s : Store} {sid : BitVec 64} (h : (s.getSidAttr sid).uid ≠ 0) :
    ∃ uid, s.boundUID sid = some uid ∧ (uid.toNat < 2 ^ 63 → (s.getSidAttr sid).uid = uid) := by
  unfold getSidAttr at h ⊢
  unfold boundUID
  cases hattr : s.attr sid with
  | none => simp [hattr] at h
  | some attr =>
    rw [hattr] at h
    refine ⟨attr.uid, if_neg ?_, fun hlt => if_pos hlt⟩
    intro h0
    exact h (by simp [h0, parseInt])

/-- `CleanSessionDataBySid`, whether or not there was anything to delete. -/
def cleanSessionDataBySid (s : Store) (sid : BitVec 64) : Store :=
  { s with attr := Function.update s.attr sid none, sidZset := s.sidZset.rem sid }

/-- `CleanSessionData`, and `RoomCleanSessionData` as far as the session goes. -/
def cleanSessionData (s : Store) (sid cid : BitVec 64) (nid : BitVec 32) : Except String Store :=
  let attr := s.getSidAttr sid
  if attr.cid ≠ cid ∨ attr.nid ≠ nid then .error "Data is collision!"
  else .ok (s.cleanSessionDataBySid sid)

/-- A clean-up whose error nobody looks at. -/
def clean (s : Store) (sid cid : BitVec 64) (nid : BitVec 32) : Store :=
  match s.cleanSessionData sid cid nid with
  | .ok s' => s'
  | .error _ => s

/-- `UpdateSessionData`, and `RoomUpdateSessionData` as far as the session goes. -/
def updateSessionData (s : Store) (sid cid : BitVec 64) (nid : BitVec 32) (now : Int) : Except String Store :=
  let attr := s.getSidAttr sid
  if attr.uid = 0 then .error "Get sid attribute failed!"
  else if nid ≠ attr.nid then .error "Nid is collision!"
  else if cid ≠ attr.cid then .error "Cid is collision!"
  else .ok { s with
    sidZset := s.sidZset.add (now + chatSidTtl) sid
    uidZset := s.uidZset.add (now + chatSidTtl) attr.uid }

/-- The writes of an ONLINE: the end of `online_handler`, and `UpdateOnlineData`. -/
def updateOnlineData (s : Store) (uid sid : BitVec 64) (nid : BitVec 32) (cid : BitVec 64) (now : Int) : Store where
  sidZset := s.sidZset.add (now + chatSidTtl) sid
  uidZset := s.uidZset.add (now + chatSidTtl) uid
  attr := Function.update s.attr sid (some ⟨cid, uid, nid⟩)
  uidToSid := Function.update s.uidToSid uid (insert sid (s.uidToSid uid))

/-- Whether the session is online for another user or on another connection. -/
def conflict (attr : SidAttr) (head : MesgHeader) (req : MesgOnline) : Bool :=
  0 ≠ attr.uid ∧ attr.uid ≠ req.uid ∨ 0 ≠ attr.nid ∧ (attr.nid ≠ head.nid ∨ attr.cid ≠ head.cid)

/-- The clean-up of an ONLINE that conflicts. It names the session of the header. -/
def cleanConflict (s : Store) (head : MesgHeader) (req : MesgOnline) : Store :=
  let attr := s.getSidAttr req.sid
  if conflict attr head req then s.clean head.sid attr.cid attr.nid else s

/-- `online_handler` of the user server; `seq` is whether the sequence server answers. -/
def imOnlineHandler (s : Store) (head : MesgHeader) (req : MesgOnline) (now : Int) (seq : Bool) : Store :=
  let s := s.cleanConflict head req
  if seq then s.updateOnlineData req.uid req.sid head.nid head.cid now else s

/-- `onlineHandler` of the chat room server -/
def roomOnlineHandler (s : Store) (head : MesgHeader) (req : MesgOnline) (now : Int) : Store :=
  (s.cleanConflict head req).updateOnlineData req.uid req.sid head.nid head.cid now

/-- `offline_handler`, and `offlineHandler` as far as the session goes. -/
def offlineHandler (s : Store) (head : MesgHeader) : Store := s.clean head.sid head.cid head.nid

/-- `ping_handler`, and `pingHandler` as far as the session goes. -/
def pingHandler (s : Store) (head : MesgHeader) (now : Int) : Store :=
  match s.updateSessionData head.sid head.cid head.nid now with
  | .ok s => s
  | .error _ => s.clean head.sid head.cid head.nid

/-- The expired ids of a page. -/
def expiredPage (z : ZSet (BitVec 64)) (ctm : Int) (off : Nat) : List (BitVec 64 × Int) :=
  limit off chatBatNum (z.rangeByScore none (some ctm))

/-- `clean_sid_zset` of the tasker -/
def cleanSidZset (s : Store) (ctm : Int) : Option Store :=
  paged chatBatNum (fun s off => expiredPage s.sidZset ctm off)
    (fun s page => page.foldl (fun s e => s.cleanSessionDataBySid (parseInt e.1)) s) (s.sidZset.card + 1) 0 s

/-- `clean_by_uid` -/
def cleanByUid (s : Store) (uid : BitVec 64) : Store := { s with uidZset := s.uidZset.rem uid }

/-- `clean_uid_zset` of the tasker -/
def cleanUidZset (s : Store) (ctm : Int) : Option Store :=
  paged chatBatNum (fun s off => expiredPage s.uidZset ctm off)
    (fun s page => page.foldl (fun s e => s.cleanByUid (parseInt e.1)) s) (s.uidZset.card + 1) 0 s

end Store

/-! ## Both servers -/

/-- The store of the user server and that of the chat room server. -/
structure Stores where
  im : Store
  room : Store

/-- `seq` is whether the sequence server answers the user server. -/
inductive Event where
  | online (head : MesgHeader) (req : MesgOnline) (now : Int) (seq : Bool)
  | ping (head : MesgHeader) (now : Int)
  | offline (head : MesgHeader)
  | sweep (ctm : Int)

namespace Stores

def init : Stores := ⟨.empty, .empty⟩

/-- Both servers get each request; only the tasker sweeps, and only the store of the user server. -/
def step (s : Stores) : Event → Option Stores
  | .online head req now seq => some ⟨s.im.imOnlineHandler head req now seq, s.room.roomOnlineHandler head req now⟩
  | .ping head now => some ⟨s.im.pingHandler head now, s.room.pingHandler head now⟩
  | .offline head => some ⟨s.im.offlineHandler head, s.room.offlineHandler head⟩
  | .sweep ctm => (s.im.cleanSidZset ctm).map fun im => { s with im := im }

end Stores

end BeehiveIm.Session
