/-
The listener's connections together with the index from sessions to connections and the kick list:
the ONLINE-ACKs and the kicks from upstream, the timer of the kick list, the end of a connection.
Left out: the messages passed on, the other data of an acknowledgement, and the rooms that a session
is taken out of when its connection ends.
-/
import BeehiveIm.Chat.Calls
import BeehiveIm.Listend.Conn

namespace BeehiveIm.Listend

open BeehiveIm.Lib BeehiveIm.Core BeehiveIm.Chat

/-- `lsnd_kick_item_t` -/
structure LsndKickItem where
  cid : BitVec 64
  ttl : Int
  deriving DecidableEq, Repr

/-- `LSND_KICK_TTL` -/
def lsndKickTtl : Int := 5

/-- The length `lsnd_init` gives to `chat_tab_init`. -/
def lsndChatTabLen : Nat := 1024

/-- Whether there is memory for an entry of the kick list and its node, and of the index and its
node. -/
structure LsndMem where
  kick : Bool
  kickNode : Bool
  item : Bool
  node : Bool

/-- `lsnd_cntx_t`. The kick list hashes and compares its `cid`s as the chat table does its ids. -/
structure Lsnd extends LsndCntx where
  chat : ChatState
  kickList : HashTab LsndKickItem

namespace Lsnd

/-- `lsnd_init` -/
def lsndInit : Lsnd where
  toLsndCntx := LsndCntx.init
  chat := ChatState.chatTabInit lsndChatTabLen
  kickList := HashTab.hashTabCreat LsndKickItem lsndConnHashTabLen

/-- `lsnd_kick_add`. The connection is marked before its item is inserted; an item
that is refused is freed. -/
def lsndKickAdd (L : Lsnd) (conn : Ptr) (now : Int) (mem : LsndMem) : Option Lsnd :=
  if mem.kick then
    (idKey.insert LsndKickItem.cid L.kickList ⟨(L.extra conn).cid, now + lsndKickTtl⟩ mem.kickNode).map fun p =>
      { L with toLsndCntx := L.toLsndCntx.lsndKickAdd conn true, kickList := p.1 }
  else some L

/-- The old connection of a session is kicked. -/
def kickOld (L : Lsnd) (sid cid : BitVec 64) (now : Int) (mem : LsndMem) : Option Lsnd :=
  match L.chat.chatGetCidBySid sid with
  | none => none
  | some oldCid =>
    if oldCid ≠ 0 ∧ oldCid ≠ cid then
      match sessionKey.query L.connKey L.connList (sid, oldCid) with
      | none => none
      | some none => some L
      | some (some oldExtra) => L.lsndKickAdd oldExtra now mem
    else some L

/-- `lsnd_mesg_online_ack_logic` -/
def lsndMesgOnlineAckLogic (L : Lsnd) (sid seq cid : BitVec 64) (now : Int) (mem : LsndMem) : Option (Lsnd × Int) :=
  match sessionKey.query L.connKey L.connList (sid, cid) with
  | none => none
  | some none => some (L, -1)
  | some (some extra) =>
    if (L.extra extra).stat ≠ .establish then (L.lsndKickAdd extra now mem).map (·, -1)
    else if sid = 0 then (L.lsndKickAdd extra now mem).map (·, -1)
    else
      let L := { L with toLsndCntx := L.setExtra extra fun e => { e with sid := sid, seq := seq, stat := .online } }
      match L.kickOld sid cid now mem with
      | none => none
      | some L => (L.chat.chatSetSidToCid sid cid mem.item mem.node).map fun p => ({ L with chat := p.1 }, 0)

/-- The connection a kick is for: without a `cid`, that of the session. -/
def kickCid (L : Lsnd) (sid cid : BitVec 64) : Option (BitVec 64) :=
  if cid = 0 then L.chat.chatGetCidBySid sid else some cid

/-- `lsnd_upmesg_kick_handler` -/
def lsndUpmesgKickHandler (L : Lsnd) (sid cid : BitVec 64) (now : Int) (mem : LsndMem) : Option Lsnd :=
  match L.kickCid sid cid with
  | none => none
  | some cid =>
    match sessionKey.delete L.connKey L.connList (sid, cid) with
    | none => none
    | some (connList, none) => some { L with connList := connList }
    | some (connList, some conn) => { L with connList := connList }.lsndKickAdd conn now mem

/-- What `lsnd_kick_trav_cb` lists; `pushed` is whether the list has memory for a `cid`. -/
def timeoutList (items : List LsndKickItem) (now : Int) (pushed : BitVec 64 → Bool) : List (BitVec 64) :=
  (items.filter fun item => item.ttl ≤ now ∧ pushed item.cid).map LsndKickItem.cid

/-- The loop of `lsnd_timer_kick_handler`. A `cid` 0 reads as the end of the list; the request to
close the others is heard of when they end. -/
def kickLoop : List (BitVec 64) → HashTab LsndKickItem → Option (HashTab LsndKickItem)
  | [], kickList => some kickList
  | cid :: cids, kickList =>
    if cid = 0 then some kickList
    else
      match idKey.delete LsndKickItem.cid kickList cid with
      | none => none
      | some (kickList, _) => kickLoop cids kickList

/-- `lsnd_timer_kick_handler` -/
def lsndTimerKickHandler (L : Lsnd) (now : Int) (pushed : BitVec 64 → Bool) : Option Lsnd :=
  match L.kickList.hashTabTrav with
  | none => none
  | some items =>
    (kickLoop (timeoutList items now pushed) L.kickList).map fun kickList => { L with kickList := kickList }

/-- `lsnd_callback_destroy_handler`, with what `chat_del_session` does to the index. -/
def lsndCallbackDestroyHandler (L : Lsnd) (p : Ptr) : Option Lsnd :=
  match L.toLsndCntx.lsndCallbackDestroyHandler p with
  | none => none
  | some cntx =>
    (L.chat.chatDelSidToCid (L.extra p).sid (L.extra p).cid).map fun chat => { L with toLsndCntx := cntx, chat := chat }

/-- `lsnd_callback_recv_handler` of an ONLINE request. -/
def lsndCallbackRecvHandler (L : Lsnd) (conn : Ptr) (sid seq : BitVec 64) (mem sent : Bool) : Option (Lsnd × Bool) :=
  (L.toLsndCntx.lsndCallbackRecvHandler conn sid seq mem sent).map fun p => ({ L with toLsndCntx := p.1 }, p.2)

end Lsnd

/-- What reaches the listener. -/
inductive LsndEvent where
  | connect (cid : BitVec 64)
  | online (p : Ptr) (sid seq : BitVec 64) (mem sent : Bool)
  | onlineAck (sid seq cid : BitVec 64) (now : Int) (mem : LsndMem)
  | kick (sid cid : BitVec 64) (now : Int) (mem : LsndMem)
  | timer (now : Int) (pushed : BitVec 64 → Bool)
  | disconnect (p : Ptr)

namespace Lsnd

def step (L : Lsnd) : LsndEvent → Option Lsnd
  | .connect cid => some { L with toLsndCntx := L.lsndCallbackCreatHandler cid }
  | .online p sid seq mem sent =>
    if p ∈ L.opened then
      match L.lsndCallbackRecvHandler p sid seq mem sent with
      | none => none
      | some (L, true) => some L
      | some (L, false) => L.lsndCallbackDestroyHandler p
    else some L
  | .onlineAck sid seq cid now mem => (L.lsndMesgOnlineAckLogic sid seq cid now mem).map Prod.fst
  | .kick sid cid now mem => L.lsndUpmesgKickHandler sid cid now mem
  | .timer now pushed => L.lsndTimerKickHandler now pushed
  | .disconnect p => if p ∈ L.opened then L.lsndCallbackDestroyHandler p else some L

end Lsnd

/-! ## What has happened -/

/-- The connections that were acknowledged, each with the session it went online for, the last
first; and those that have been on the kick list. -/
structure History where
  acked : List (BitVec 64 × Ptr)
  kicked : List Ptr

/-- The connection acknowledged last for a session. -/
def lastAcked (acked : List (BitVec 64 × Ptr)) (sid : BitVec 64) : Option Ptr := (acked.find? (·.1 = sid)).map Prod.snd

namespace Lsnd

/-- The connection has an item on the kick list. -/
def onKickList (L : Lsnd) (p : Ptr) : Bool := (idKey.query LsndKickItem.cid L.kickList (L.extra p).cid).join.isSome

/-- The connections that a step has put online. -/
def wentOnline (L L' : Lsnd) : List Ptr :=
  L'.opened.filter fun p => (L'.extra p).stat = .online ∧ (L.extra p).stat ≠ .online

/-- A step goes into the history. -/
def record (T : History) (L L' : Lsnd) : History where
  acked := (wentOnline L L').map (fun p => ((L'.extra p).sid, p)) ++ T.acked
  kicked := L'.opened.filter L'.onKickList ++ T.kicked

/-- A step and what is remembered of it. -/
def track (s : Lsnd × History) (e : LsndEvent) : Option (Lsnd × History) :=
  (s.1.step e).map fun L => (L, record s.2 s.1 L)

def run (events : List LsndEvent) : Option (Lsnd × History) := events.foldlM track (lsndInit, ⟨[], []⟩)

/-- The index has the session on the connection `cid`. -/
def Maps (L : Lsnd) (sid cid : BitVec 64) : Prop :=
  idKey.query Prod.fst L.chat.tab.sid2cids sid = some (some (sid, cid))

/-- The index has each session on the connection acknowledged last, if that is still
open, and on none otherwise; the other connections that were online for the session have
been put on the kick list. -/
structure OneActive (L : Lsnd) (T : History) : Prop where
  index : ∀ sid cid, L.Maps sid cid ↔ ∃ p ∈ L.opened, lastAcked T.acked sid = some p ∧ (L.extra p).cid = cid
  others : ∀ sid, ∀ p ∈ L.opened, (sid, p) ∈ T.acked → ¬L.Maps sid (L.extra p).cid → p ∈ T.kicked

end Lsnd

end BeehiveIm.Listend
