/-
The groups of the chat service (`lib/chat/group_ops.go`) and the keys they are kept in. Each
operation is a program of Redis commands, in the order the source sends them; a pipeline is sent as
a whole, but Redis carries it out command by command. Commands do not fail, and keys that no
operation reads (the group's name, its capacity and message queue) are left out.
-/
import BeehiveIm.Lib.Keys
import BeehiveIm.Lib.Prog
import BeehiveIm.Session
import Mathlib.Data.List.AList

namespace BeehiveIm.Groups

open BeehiveIm.Lib
open BeehiveIm.Session (chatSidTtl)

def groupRoleOwner : Int := 1
def groupRoleManager : Int := 2
def groupRoleMember : Int := 3

/-- `chat:gid:zset`, and by group its roles, its online users, sessions and nodes, the silenced and
the banned; by user the groups. -/
structure Store where
  gidZset : ZSet (BitVec 64)
  role : BitVec 64 → AList fun _ : BitVec 64 => Int
  uidToGid : BitVec 64 → Finset (BitVec 64)
  gidToUid : BitVec 64 → ZSet (BitVec 64)
  gidToSid : BitVec 64 → ZSet (BitVec 64)
  gidToNid : BitVec 64 → ZSet (BitVec 32)
  gag : BitVec 64 → Finset (BitVec 64)
  blacklist : BitVec 64 → Finset (BitVec 64)

def Store.empty : Store := ⟨∅, fun _ => ∅, fun _ => ∅, fun _ => ∅, fun _ => ∅, fun _ => ∅, fun _ => ∅, fun _ => ∅⟩

/-! ## Commands -/

inductive Cmd where
  | zscoreGid (gid : BitVec 64)
  | sismemberBlacklist (gid uid : BitVec 64)
  | hgetRole (gid uid : BitVec 64)
  | hkeysRole (gid : BitVec 64)
  | zaddGid (ttl : Int) (gid : BitVec 64)
  | zremGid (gid : BitVec 64)
  | hsetRole (gid uid : BitVec 64) (role : Int)
  | hdelRole (gid uid : BitVec 64)
  | delRole (gid : BitVec 64)
  | hsetUidToGid (uid gid : BitVec 64)
  | hdelUidToGid (uid gid : BitVec 64)
  | zaddUid (gid : BitVec 64) (ttl : Int) (uid : BitVec 64)
  | zremUid (gid uid : BitVec 64)
  | delUid (gid : BitVec 64)
  | zaddSid (gid : BitVec 64) (ttl : Int) (sid : BitVec 64)
  | zremSid (gid sid : BitVec 64)
  | delSid (gid : BitVec 64)
  | zaddNid (gid : BitVec 64) (ttl : Int) (nid : BitVec 32)
  | delNid (gid : BitVec 64)
  | saddGag (gid uid : BitVec 64)
  | sremGag (gid uid : BitVec 64)
  | delGag (gid : BitVec 64)
  | saddBlacklist (gid uid : BitVec 64)
  | sremBlacklist (gid uid : BitVec 64)
  | delBlacklist (gid : BitVec 64)

/-- What an operation makes of the answer to a command. -/
abbrev Cmd.Reply : Cmd → Type
  | .zscoreGid _ => Option Int
  | .sismemberBlacklist .. => Bool
  | .hgetRole .. => Option Int
  | .hkeysRole _ => List (BitVec 64)
  | _ => Unit

def exec : (c : Cmd) → Store → c.Reply × Store
  | .zscoreGid gid, s => (s.gidZset.score gid, s)
  | .sismemberBlacklist gid uid, s => (uid ∈ s.blacklist gid, s)
  | .hgetRole gid uid, s => ((s.role gid).lookup uid, s)
  | .hkeysRole gid, s => ((s.role gid).keys, s)
  | .zaddGid ttl gid, s => ((), { s with gidZset := s.gidZset.add ttl gid })
  | .zremGid gid, s => ((), { s with gidZset := s.gidZset.rem gid })
  | .hsetRole gid uid role, s => ((), { s with role := put s.role gid (AList.insert uid role) })
  | .hdelRole gid uid, s => ((), { s with role := put s.role gid (AList.erase uid) })
  | .delRole gid, s => ((), { s with role := put s.role gid fun _ => ∅ })
  | .hsetUidToGid uid gid, s => ((), { s with uidToGid := put s.uidToGid uid (insert gid) })
  | .hdelUidToGid uid gid, s => ((), { s with uidToGid := put s.uidToGid uid fun gids => gids.erase gid })
  | .zaddUid gid ttl uid, s => ((), { s with gidToUid := put s.gidToUid gid fun z => z.add ttl uid })
  | .zremUid gid uid, s => ((), { s with gidToUid := put s.gidToUid gid fun z => z.rem uid })
  | .delUid gid, s => ((), { s with gidToUid := put s.gidToUid gid fun _ => ∅ })
  | .zaddSid gid ttl sid, s => ((), { s with gidToSid := put s.gidToSid gid fun z => z.add ttl sid })
  | .zremSid gid sid, s => ((), { s with gidToSid := put s.gidToSid gid fun z => z.rem sid })
  | .delSid gid, s => ((), { s with gidToSid := put s.gidToSid gid fun _ => ∅ })
  | .zaddNid gid ttl nid, s => ((), { s with gidToNid := put s.gidToNid gid fun z => z.add ttl nid })
  | .delNid gid, s => ((), { s with gidToNid := put s.gidToNid gid fun _ => ∅ })
  | .saddGag gid uid, s => ((), { s with gag := put s.gag gid (insert uid) })
  | .sremGag gid uid, s => ((), { s with gag := put s.gag gid fun uids => uids.erase uid })
  | .delGag gid, s => ((), { s with gag := put s.gag gid fun _ => ∅ })
  | .saddBlacklist gid uid, s => ((), { s with blacklist := put s.blacklist gid (insert uid) })
  | .sremBlacklist gid uid, s => ((), { s with blacklist := put s.blacklist gid fun uids => uids.erase uid })
  | .delBlacklist gid, s => ((), { s with blacklist := put s.blacklist gid fun _ => ∅ })

abbrev Redis := Prog Cmd.Reply

/-- `Do`, and `Send` in a pipeline. -/
def redo (c : Cmd) : Redis c.Reply := .issue c .ret

/-! ## Operations -/

/-- `GroupExists`; `now` is the clock. -/
def groupExists (gid : BitVec 64) (now : Int) : Redis Bool := do
  match ← redo (.zscoreGid gid) with
  | none => return false
  | some score => return score > now

/-- `GroupGetRole` -/
def groupGetRole (gid uid : BitVec 64) : Redis (Option Int) := redo (.hgetRole gid uid)

/-- `GroupRegister` -/
def groupRegister (gid ownerUID : BitVec 64) (now : Int) : Redis (Except String Unit) := do
  redo (.zaddGid (now + chatSidTtl) gid)
  redo (.hsetRole gid ownerUID groupRoleOwner)
  redo (.hsetUidToGid ownerUID gid)
  return .ok ()

/-- `GroupJoinOnline`, which reads the clock a second time for the ttl. -/
def groupJoinOnline (gid uid sid : BitVec 64) (nid : BitVec 32) (now now' : Int) : Redis (Except String Unit) := do
  if !(← groupExists gid now) then return .error "group not found"
  if ← redo (.sismemberBlacklist gid uid) then return .error "user is blacklisted"
  let role ← groupGetRole gid uid
  if role.isNone then
    redo (.hsetRole gid uid groupRoleMember)
    redo (.hsetUidToGid uid gid)
  let ttl := now' + chatSidTtl
  redo (.zaddUid gid ttl uid)
  redo (.zaddSid gid ttl sid)
  redo (.zaddNid gid ttl nid)
  return .ok ()

/-- `GroupAddMember` -/
def groupAddMember (gid uid : BitVec 64) (now : Int) : Redis (Except String Unit) := do
  if !(← groupExists gid now) then return .error "group not found"
  if ← redo (.sismemberBlacklist gid uid) then return .error "user is blacklisted"
  let role ← groupGetRole gid uid
  if role.isSome then return .error "already in group"
  redo (.hsetRole gid uid groupRoleMember)
  redo (.hsetUidToGid uid gid)
  return .ok ()

/-- `GroupQuit` -/
def groupQuit (gid uid sid : BitVec 64) : Redis (Except String Unit) := do
  redo (.zremSid gid sid)
  redo (.zremUid gid uid)
  redo (.hdelRole gid uid)
  redo (.hdelUidToGid uid gid)
  return .ok ()

/-- `GroupKick` -/
def groupKick (gid uid : BitVec 64) : Redis (Except String Unit) := do
  redo (.hdelRole gid uid)
  redo (.zremUid gid uid)
  redo (.hdelUidToGid uid gid)
  redo (.sremGag gid uid)
  return .ok ()

/-- `groupRedisUIDs` drops the user 0. -/
def groupRedisUIDs (keys : List (BitVec 64)) : List (BitVec 64) := keys.filter fun uid => 0 < uid

/-- `GroupDismiss` -/
def groupDismiss (gid : BitVec 64) : Redis (Except String Unit) := do
  let uids := groupRedisUIDs (← redo (.hkeysRole gid))
  uids.forM fun uid => redo (.hdelUidToGid uid gid)
  redo (.delRole gid)
  redo (.delNid gid)
  redo (.delUid gid)
  redo (.delSid gid)
  redo (.delGag gid)
  redo (.delBlacklist gid)
  redo (.zremGid gid)
  return .ok ()

/-- `GroupSetManager` -/
def groupSetManager (gid uid : BitVec 64) (manager : Bool) : Redis (Except String Unit) := do
  match ← groupGetRole gid uid with
  | none => return .error "not a group member"
  | some role =>
    if role = groupRoleOwner then return .error "permission denied"
    if manager then
      redo (.hsetRole gid uid groupRoleManager)
    else if role = groupRoleManager then
      redo (.hsetRole gid uid groupRoleMember)
    return .ok ()

/-- `GroupSetGag` -/
def groupSetGag (gid uid : BitVec 64) (gag : Bool) : Redis (Except String Unit) := do
  if gag then
    redo (.saddGag gid uid)
    return .ok ()
  redo (.sremGag gid uid)
  return .ok ()

/-- `GroupSetBlacklist` -/
def groupSetBlacklist (gid uid : BitVec 64) (add : Bool) : Redis (Except String Unit) := do
  if add then
    match ← groupKick gid uid with
    | .error err => return .error err
    | .ok () =>
      redo (.saddBlacklist gid uid)
      return .ok ()
  redo (.sremBlacklist gid uid)
  return .ok ()

inductive Call where
  | register (gid ownerUID : BitVec 64) (now : Int)
  | joinOnline (gid uid sid : BitVec 64) (nid : BitVec 32) (now now' : Int)
  | addMember (gid uid : BitVec 64) (now : Int)
  | quit (gid uid sid : BitVec 64)
  | kick (gid uid : BitVec 64)
  | dismiss (gid : BitVec 64)
  | setManager (gid uid : BitVec 64) (manager : Bool)
  | setGag (gid uid : BitVec 64) (gag : Bool)
  | setBlacklist (gid uid : BitVec 64) (add : Bool)

def Call.prog : Call → Redis (Except String Unit)
  | .register gid ownerUID now => groupRegister gid ownerUID now
  | .joinOnline gid uid sid nid now now' => groupJoinOnline gid uid sid nid now now'
  | .addMember gid uid now => groupAddMember gid uid now
  | .quit gid uid sid => groupQuit gid uid sid
  | .kick gid uid => groupKick gid uid
  | .dismiss gid => groupDismiss gid
  | .setManager gid uid manager => groupSetManager gid uid manager
  | .setGag gid uid gag => groupSetGag gid uid gag
  | .setBlacklist gid uid add => groupSetBlacklist gid uid add

/-- A call with no other client about -/
def Store.step (s : Store) (call : Call) : Store := (call.prog.run exec s).2

/-- The group 1, which the user 7 has founded. -/
def founded : Store := Store.empty.step (.register 1 7 0)

end BeehiveIm.Groups
