/-
The listener's connections (`listend`): the handlers of `lsnd_mesg.c` that read or change a
connection or `conn_list`. The table stores pointers to the connections and compares the keys it
reads off them, so a write to a connection changes the key its entry is compared with. Left out: the
messages forwarded, the kick list (it decides when a disconnect comes) and the chat table, whose
answer to `chat_get_cid_by_sid` comes with the event.
-/
import BeehiveIm.Core.HashTab

namespace BeehiveIm.Listend

open BeehiveIm.Lib BeehiveIm.Core

/-- `lsnd_conn_stat_e` -/
inductive ConnStat where
  | unknown
  | establish
  | online
  | kick
  | offline
  | closeing
  | closed
  deriving DecidableEq, Repr

/-- `lsnd_conn_extra_t` -/
structure LsndConnExtra where
  sid : BitVec 64
  seq : BitVec 64
  cid : BitVec 64
  stat : ConnStat
  deriving DecidableEq, Repr

/-- `lsnd_cntx_t`, with the memory of the connections: `opened` are those not destroyed, `next` is
the first address not yet handed out. A destroyed connection keeps its last contents. -/
structure LsndCntx where
  extra : Ptr → LsndConnExtra
  opened : List Ptr
  next : Ptr
  connList : HashTab Ptr

/-- `LSND_CONN_HASH_TAB_LEN` -/
def lsndConnHashTabLen : Nat := 999

namespace LsndCntx

def init : LsndCntx where
  extra := fun _ => ⟨0, 0, 0, .unknown⟩
  opened := []
  next := 0
  connList := HashTab.hashTabCreat Ptr lsndConnHashTabLen

/-- The key of `conn_list`, read off the connection. -/
def connKey (L : LsndCntx) (p : Ptr) : BitVec 64 × BitVec 64 := ((L.extra p).sid, (L.extra p).cid)

def setExtra (L : LsndCntx) (p : Ptr) (g : LsndConnExtra → LsndConnExtra) : LsndCntx :=
  { L with extra := Function.update L.extra p (g (L.extra p)) }

/-- `lsnd_kick_add`; `mem` is whether there is memory for the item of the kick list. -/
def lsndKickAdd (L : LsndCntx) (conn : Ptr) (mem : Bool) : LsndCntx :=
  if mem then L.setExtra conn fun e => { e with stat := .kick } else L

/-- A connection is accepted: `acc_conn_cid_tab_add`, which refuses a `cid` in use, then
`lsnd_callback_creat_handler`. -/
def lsndCallbackCreatHandler (L : LsndCntx) (cid : BitVec 64) : LsndCntx :=
  if ∃ p ∈ L.opened, (L.extra p).cid = cid then L
  else
    { L with
      extra := Function.update L.extra L.next ⟨0, 0, cid, .establish⟩
      opened := L.next :: L.opened
      next := L.next + 1 }

/-- `lsnd_callback_destroy_handler`; the connection is freed after it. -/
def lsndCallbackDestroyHandler (L : LsndCntx) (p : Ptr) : Option LsndCntx :=
  match sessionKey.delete L.connKey L.connList (L.connKey p) with
  | none => none
  | some (connList, _) =>
    some { L.setExtra p fun e => { e with stat := .closed } with
      connList := connList
      opened := L.opened.erase p }

/-- `lsnd_mesg_online_handler`, and whether it answers 0; `sent` is whether the
request could be forwarded. -/
def lsndMesgOnlineHandler (L : LsndCntx) (conn : Ptr) (sid : BitVec 64) (mem sent : Bool) :
    Option (LsndCntx × Bool) :=
  let L := L.setExtra conn fun e => { e with sid := sid }
  match sessionKey.insert L.connKey L.connList conn mem with
  | none => none
  | some (connList, ret) =>
    if ret ≠ .ok then some ({ L with connList := connList }, false)
    else some ({ L with connList := connList }, sent)

/-- `lsnd_callback_recv_handler` of an ONLINE request. -/
def lsndCallbackRecvHandler (L : LsndCntx) (conn : Ptr) (sid seq : BitVec 64) (mem sent : Bool) :
    Option (LsndCntx × Bool) :=
  if (L.extra conn).stat = .kick then some (L, true)
  else if seq ≤ (L.extra conn).seq then some (L, false)
  else (L.setExtra conn fun e => { e with seq := seq }).lsndMesgOnlineHandler conn sid mem sent

/-- `lsnd_mesg_online_ack_logic`; `oldCid` is what `chat_get_cid_by_sid` answers. -/
def lsndMesgOnlineAckLogic (L : LsndCntx) (sid seq cid oldCid : BitVec 64) (mem : Bool) : Option LsndCntx :=
  match sessionKey.query L.connKey L.connList (sid, cid) with
  | none => none
  | some none => some L
  | some (some extra) =>
    if (L.extra extra).stat ≠ .establish then some (L.lsndKickAdd extra mem)
    else if sid = 0 then some (L.lsndKickAdd extra mem)
    else
      let L := L.setExtra extra fun e => { e with sid := sid, seq := seq, stat := .online }
      if oldCid ≠ 0 ∧ oldCid ≠ cid then
        match sessionKey.query L.connKey L.connList (sid, oldCid) with
        | none => none
        | some none => some L
        | some (some oldExtra) => some (L.lsndKickAdd oldExtra mem)
      else some L

/-- `lsnd_upmesg_kick_handler` -/
def lsndUpmesgKickHandler (L : LsndCntx) (sid cid : BitVec 64) (mem : Bool) : Option LsndCntx :=
  match sessionKey.delete L.connKey L.connList (sid, cid) with
  | none => none
  | some (connList, none) => some { L with connList := connList }
  | some (connList, some conn) => some ({ L with connList := connList }.lsndKickAdd conn mem)

/-- What reaches the listener. `mem` is whether the allocator has memory. -/
inductive Event where
  | connect (cid : BitVec 64)
  | online (p : Ptr) (sid seq : BitVec 64) (mem sent : Bool)
  | onlineAck (sid seq cid oldCid : BitVec 64) (mem : Bool)
  | kick (sid cid : BitVec 64) (mem : Bool)
  | disconnect (p : Ptr)

/-- An ONLINE request or a disconnect needs an open connection. A handler that does not answer 0 has
the connection closed (`acc_rsvr_del_conn`). -/
def step (L : LsndCntx) : Event → Option LsndCntx
  | .connect cid => some (L.lsndCallbackCreatHandler cid)
  | .online p sid seq mem sent =>
    if p ∈ L.opened then
      match L.lsndCallbackRecvHandler p sid seq mem sent with
      | none => none
      | some (L, true) => some L
      | some (L, false) => L.lsndCallbackDestroyHandler p
    else some L
  | .onlineAck sid seq cid oldCid mem => L.lsndMesgOnlineAckLogic sid seq cid oldCid mem
  | .kick sid cid mem => L.lsndUpmesgKickHandler sid cid mem
  | .disconnect p => if p ∈ L.opened then L.lsndCallbackDestroyHandler p else some L

def run (events : List Event) : Option LsndCntx := events.foldlM step init

end LsndCntx

end BeehiveIm.Listend
