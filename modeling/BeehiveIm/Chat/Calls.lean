/-
The other calls of the chat table (`chat.c`): the index from sessions to connections, and the
messages that sessions subscribe to. `session->sub` is kept beside the session, under its key;
`none` is a crash or a wait for a lock that nobody gives back.
-/
import BeehiveIm.Chat

namespace BeehiveIm.Chat

open BeehiveIm.Core

/-- A `chat_sub_item_t` is its command. -/
abbrev Cmd := BitVec 16

/-- `chat_sub_hash_cb` and `chat_sub_cmp_cb`: they do to `uint16_t` commands what those of the
groups do to group ids. -/
def subKey : HashKey Cmd := groupKey

def chatSubSlotLen : Nat := 5

/-- `sub` are the `session->sub`, `wrlocked` the slots of `sid2cids` whose write lock was not given
back. -/
structure ChatState where
  tab : ChatTab
  sub : SessionKey → HashTab Cmd
  wrlocked : Nat → Bool

namespace ChatState

/-- `chat_tab_init` -/
def chatTabInit (len : Nat) : ChatState where
  tab := ChatTab.chatTabInit len
  sub := fun _ => HashTab.hashTabCreat Cmd chatSubSlotLen
  wrlocked := fun _ => false

/-- The slot of a session id in `sid2cids`. -/
def sidSlot (C : ChatState) (sid : BitVec 64) : Nat := hashIdx C.tab.sid2cids.len (idKey.hash sid)

/-! ## The index -/

/-- `chat_get_cid_by_sid` -/
def chatGetCidBySid (C : ChatState) (sid : BitVec 64) : Option (BitVec 64) :=
  if C.wrlocked (C.sidSlot sid) then none
  else (idKey.query Prod.fst C.tab.sid2cids sid).map fun item => item.elim 0 Prod.snd

/-- `chat_set_sid_to_cid`; `item` and `node` say whether there is memory for the entry and its node.
A new entry that has no node is tried again, so it gets one; the write lock on an old one is not
given back without memory. -/
def chatSetSidToCid (C : ChatState) (sid cid : BitVec 64) (item node : Bool) : Option (ChatState × Int) :=
  if C.wrlocked (C.sidSlot sid) then none
  else
    match idKey.query Prod.fst C.tab.sid2cids sid with
    | none => none
    | some (some old) =>
      if old.2 = cid then some (C, 0)
      else
        match idKey.delete Prod.fst C.tab.sid2cids sid with
        | none => none
        | some (sid2cids, _) =>
          if item then
            match idKey.insert Prod.fst sid2cids (sid, cid) node with
            | none => none
            | some (sid2cids, ret) =>
              some ({ C with tab := { C.tab with sid2cids := sid2cids } }, if ret = .ok then 0 else -1)
          else
            some ({ C with
              tab := { C.tab with sid2cids := sid2cids }
              wrlocked := Function.update C.wrlocked (C.sidSlot sid) true }, -1)
    | some none =>
      if item then
        (idKey.insert Prod.fst C.tab.sid2cids (sid, cid) true).map fun p =>
          ({ C with tab := { C.tab with sid2cids := p.1 } }, 0)
      else some (C, -1)

/-- `chat_del_sid_to_cid` -/
def chatDelSidToCid (C : ChatState) (sid cid : BitVec 64) : Option ChatState :=
  if C.wrlocked (C.sidSlot sid) then none
  else (C.tab.chatDelSidToCid sid cid).map fun tab => { C with tab := tab }

/-! ## Sessions and rooms -/

/-- `chat_room_add_session`; `chat_session_tab_add` makes the `sub` of a new session. -/
def chatRoomAddSession (C : ChatState) (rid : Rid) (gid : BitVec 32) (sid cid : BitVec 64) (mem : Mem) :
    Option (ChatState × BitVec 32) :=
  (C.tab.chatRoomAddSession rid gid sid cid mem).map fun p =>
    ({ C with
      tab := p.1
      sub := if (sessionKey.query ChatSession.key C.tab.sessions (sid, cid)).join.isSome then C.sub
        else Function.update C.sub (sid, cid) (HashTab.hashTabCreat Cmd chatSubSlotLen) }, p.2)

/-- `chat_room_del_session` -/
def chatRoomDelSession (C : ChatState) (rid : Rid) (sid cid : BitVec 64) : Option ChatState :=
  (C.tab.chatRoomDelSession rid sid cid).map fun tab => { C with tab := tab }

/-- `chat_del_session`, which begins with `chat_del_sid_to_cid`. -/
def chatDelSession (C : ChatState) (sid cid : BitVec 64) : Option ChatState :=
  if C.wrlocked (C.sidSlot sid) then none
  else (C.tab.chatDelSession sid cid).map fun tab => { C with tab := tab }

/-- `chat_del_room` -/
def chatDelRoom (C : ChatState) (rid : Rid) : Option ChatState :=
  (Chat.chatDelRoom C.tab.rooms rid).map fun rooms => { C with tab := { C.tab with rooms := rooms } }

/-- `chat_room_clean_hdl` -/
def chatRoomCleanHdl (C : ChatState) (pushed : Rid → Bool) : Option ChatState :=
  (C.tab.chatRoomCleanHdl pushed).map fun tab => { C with tab := tab }

/-! ## Subscriptions -/

/-- `chat_add_sub` -/
def chatAddSub (C : ChatState) (sid : BitVec 64) (cmd : Cmd) (item node : Bool) : Option (ChatState × Int) :=
  if ¬item then some (C, -1)
  else
    match C.chatGetCidBySid sid with
    | none => none
    | some cid =>
      if cid = 0 then some (C, -1)
      else
        match sessionKey.query ChatSession.key C.tab.sessions (sid, cid) with
        | none => none
        | some none => some (C, -1)
        | some (some session) =>
          match subKey.insert id (C.sub session.key) cmd node with
          | none => none
          | some (_, .nodeExist) => some (C, 0)
          | some (_, .err) => some (C, -1)
          | some (sub, .ok) => some ({ C with sub := Function.update C.sub session.key sub }, 0)

/-- `chat_del_sub` -/
def chatDelSub (C : ChatState) (sid : BitVec 64) (cmd : Cmd) : Option (ChatState × Int) :=
  match C.chatGetCidBySid sid with
  | none => none
  | some cid =>
    if cid = 0 then some (C, -1)
    else
      match sessionKey.query ChatSession.key C.tab.sessions (sid, cid) with
      | none => none
      | some none => some (C, -1)
      | some (some session) =>
        (subKey.delete id (C.sub session.key) cmd).map fun p =>
          ({ C with sub := Function.update C.sub session.key p.1 }, 0)

/-- `chat_has_sub` and `_chat_has_sub`. `key.cid` is not set: `word` is what the stack has there. -/
def chatHasSub (C : ChatState) (sid : BitVec 64) (cmd : Cmd) (word : BitVec 64) : Option Bool :=
  match sessionKey.query ChatSession.key C.tab.sessions (sid, word) with
  | none => none
  | some none => some false
  | some (some session) => (subKey.query id (C.sub session.key) cmd).map Option.isSome

/-! ## Runs -/

/-- A call that changes the table. -/
inductive Call where
  | addSession (rid : Rid) (gid : BitVec 32) (sid cid : BitVec 64) (mem : Mem)
  | roomDelSession (rid : Rid) (sid cid : BitVec 64)
  | delSession (sid cid : BitVec 64)
  | setSidToCid (sid cid : BitVec 64) (item node : Bool)
  | delSidToCid (sid cid : BitVec 64)
  | addSub (sid : BitVec 64) (cmd : Cmd) (item node : Bool)
  | delSub (sid : BitVec 64) (cmd : Cmd)
  | delRoom (rid : Rid)
  | clean (pushed : Rid → Bool)

/-- The call and what it answers; `uint32_t` answers are read as they are, and 0 stands for none. -/
def call (C : ChatState) : Call → Option (ChatState × Int)
  | .addSession rid gid sid cid mem => (C.chatRoomAddSession rid gid sid cid mem).map fun p => (p.1, p.2.toNat)
  | .roomDelSession rid sid cid => (C.chatRoomDelSession rid sid cid).map (·, 0)
  | .delSession sid cid => (C.chatDelSession sid cid).map (·, 0)
  | .setSidToCid sid cid item node => C.chatSetSidToCid sid cid item node
  | .delSidToCid sid cid => (C.chatDelSidToCid sid cid).map (·, 0)
  | .addSub sid cmd item node => C.chatAddSub sid cmd item node
  | .delSub sid cmd => C.chatDelSub sid cmd
  | .delRoom rid => (C.chatDelRoom rid).map (·, 0)
  | .clean pushed => (C.chatRoomCleanHdl pushed).map (·, 0)

def step (C : ChatState) (c : Call) : Option ChatState := (C.call c).map Prod.fst

end ChatState

end BeehiveIm.Chat
