/-
Without the locks, the calls with locks are the calls of the chat table: they return where those do,
with the same answer and the same tables.
-/
import BeehiveIm.Chat.Locks

namespace BeehiveIm.Chat.Locks

open BeehiveIm.Lib BeehiveIm.Lib.Locked BeehiveIm.Core

@[simp] theorem bind_some_fun {α β : Type} (o : Option α) (f : α → β) : (o.bind fun a => some (f a)) = o.map f := by
  cases o <;> rfl

/-! ## `hash_tab.c` -/

section HashTab

variable {κ α β : Type} (name : Nat → Lock) (K : HashKey κ) (key : α → κ) (H : HashTab α) (k : κ)

@[simp] theorem forget_hashTabQuery : forget (hashTabQuery name K key H k) = K.query key H k := forget_query ..

@[simp] theorem forget_hashTabInsert (e : α) (mem : Bool) :
    forget (hashTabInsert name K key H e mem) = K.insert key H e mem :=
  forget_under ..

@[simp] theorem forget_hashTabDelete : forget (hashTabDelete name K key H k) = K.delete key H k := forget_under ..

/-- A traversal slot by slot, against one that collects the elements first. -/
theorem foldlM_slots {α β : Type} (trav : Nat → Option (List α)) (g : β → α → Option β) :
    ∀ (idxs : List Nat) (out : List α) (b : β),
      (idxs.foldlM (fun out idx => (trav idx).map (out ++ ·)) out).bind (fun es => es.foldlM g b) =
        (out.foldlM g b).bind fun b => idxs.foldlM (fun b idx => (trav idx).bind fun es => es.foldlM g b) b
  | [], out, b => by
    simp only [List.foldlM_nil]
    exact (Option.bind_fun_some _).symm
  | idx :: idxs, out, b => by
    rw [List.foldlM_cons]
    cases htrav : trav idx with
    | none =>
      cases hout : out.foldlM g b with
      | none => rfl
      | some b' => simp [List.foldlM_cons, htrav]
    | some es =>
      have ih := foldlM_slots trav g idxs (out ++ es) b
      rw [List.foldlM_append] at ih
      simp only [Option.map_some, Option.bind_eq_bind, Option.bind_some] at ih ⊢
      rw [ih]
      cases hout : out.foldlM g b with
      | none => rfl
      | some b' =>
        simp only [Option.bind_some, List.foldlM_cons, htrav, Option.bind_eq_bind]

theorem forget_hashTabTrav {proc : β → α → Locked Lock β} {g : β → α → Option β} (h : ∀ b e, forget (proc b e) = g b e)
    (b : β) : forget (hashTabTrav name H proc b) = H.hashTabTrav.bind fun es => es.foldlM g b := by
  unfold hashTabTrav HashTab.hashTabTrav
  rw [foldlM_slots, List.foldlM_nil]
  refine (forget_foldlM _ _ (fun b idx => ?_) _ b).trans rfl
  simp only [forget_bind, forget_acquire, forget_release, forget_lift, forget_pure, Option.bind_some,
    Option.bind_fun_some, forget_foldlM _ _ h]

theorem forget_hashTabTrav_out (out : List α) :
    forget (hashTabTrav name H (fun out e => return out ++ [e]) out) = H.hashTabTrav.map (out ++ ·) := by
  rw [forget_hashTabTrav name H (g := fun out e => some (out ++ [e])) (fun _ _ => rfl)]
  have hcollect : ∀ (es out : List α), es.foldlM (fun out e => some (out ++ [e])) out = some (out ++ es) := by
    intro es
    induction es with
    | nil => simp
    | cons e es ih => simp [List.foldlM_cons, ih]
  simp only [hcollect]
  cases H.hashTabTrav <;> rfl

@[simp] theorem forget_hashTabDestroy {dealloc : α → Locked Lock Unit} (h : ∀ e, forget (dealloc e) = some ()) :
    forget (hashTabDestroy name H dealloc) = some () := by
  have hfold : ∀ {γ : Type} (cs : List γ), cs.foldlM (fun _ _ => some ()) () = some () := by
    intro γ cs
    induction cs with
    | nil => rfl
    | cons c cs ih => exact ih
  refine (forget_foldlM _ (fun _ _ => some ()) (fun _ idx => ?_) _ ()).trans (hfold _)
  simp only [forget_bind, forget_acquire, forget_release, Option.bind_some]
  rw [forget_foldlM _ (fun _ _ => some ()) fun _ e => h e, hfold]
  rfl

@[simp] theorem forget_hashTabFree (len : Nat) : forget (hashTabFree name len) = some () :=
  forget_hashTabDestroy _ _ fun _ => rfl

end HashTab

/-- Tries that come to nothing. -/
theorem forget_tries {α : Type} {p : Unit → α → Locked Lock Unit} (h : ∀ u a, forget (p u a) = some ()) (as : List α) :
    forget (as.foldlM p ()) = some () := by
  rw [forget_foldlM p (fun _ _ => some ()) h]
  induction as with
  | nil => rfl
  | cons a as ih => exact ih

@[simp] theorem forget_missed (l : Lock) (name : Nat → Lock) (len : Nat) (miss : Miss) :
    forget (missed l name len miss) = some () := by
  cases miss <;> simp [missed]

/-! ## Rooms -/

variable {misses : Misses} {rid : Rid} {gid : BitVec 32} {key : SessionKey} {mem : Mem} {room : ChatRoom}
  {rooms : HashTab ChatRoom}

@[simp] theorem forget_queryGroup (groups : HashTab ChatGroup) (gid : BitVec 16) :
    forget (queryGroup misses rid groups gid) = Chat.queryGroup 2 groups gid := by
  unfold queryGroup Chat.queryGroup
  simp only [forget_bind, forget_query]
  rcases groupKey.query ChatGroup.gid groups gid with - | - | grp
  · rfl
  · simp only [Option.bind_some, forget_bind]
    rw [forget_tries fun u miss => by simp, forget_under]
    cases chatGroupAddByGid groups gid with
    | none => rfl
    | some groups =>
      simp only [Option.bind_some, forget_query]
      unfold Chat.queryGroup
      rcases groupKey.query ChatGroup.gid groups gid with - | - | grp
      · rfl
      · cases chatGroupAddByGid groups gid <;> simp [Chat.queryGroup]
      · rfl
  · rfl

@[simp] theorem forget_groupAddSession (grp : ChatGroup) :
    forget (groupAddSession room grp key mem) = Chat.groupAddSession room grp key mem := by
  unfold groupAddSession Chat.groupAddSession
  cases mem.sid with
  | false => rfl
  | true =>
    simp only [if_true, forget_bind, forget_hashTabInsert]
    rcases sessionKey.insert id grp.sidSet key mem.sidNode with - | ⟨sidSet, ret⟩
    · rfl
    · cases ret with
      | ok =>
        simp only [Option.bind_some, forget_bind, forget_lift]
        cases putGroup room _ _ <;> rfl
      | err | nodeExist => rfl

@[simp] theorem forget_chatGroupAddSession :
    forget (chatGroupAddSession misses room gid key mem) = Chat.chatGroupAddSession room gid key mem := by
  unfold chatGroupAddSession Chat.chatGroupAddSession
  simp only [forget_bind, forget_queryGroup]
  rcases Chat.queryGroup 2 room.groups (gid.setWidth 16) with - | ⟨groups, grp⟩
  · rfl
  · simp

@[simp] theorem forget_groupDelSession (grp : ChatGroup) :
    forget (groupDelSession room grp key) = Chat.groupDelSession room grp key := by
  unfold groupDelSession Chat.groupDelSession
  simp only [forget_bind, forget_hashTabDelete]
  rcases sessionKey.delete id grp.sidSet key with - | ⟨sidSet, - | item⟩
  · rfl
  · rfl
  · simp

@[simp] theorem forget_chatGroupDelSession :
    forget (chatGroupDelSession room gid key) = Chat.chatGroupDelSession room gid key := by
  unfold chatGroupDelSession Chat.chatGroupDelSession
  simp only [forget_bind, forget_hashTabQuery]
  rcases groupKey.query ChatGroup.gid room.groups (gid.setWidth 16) with - | - | grp
  · rfl
  · rfl
  · simp

@[simp] theorem forget_queryRoom : forget (queryRoom misses rooms rid) = Chat.queryRoom 2 rooms rid := by
  unfold queryRoom Chat.queryRoom
  simp only [forget_bind, forget_query]
  rcases idKey.query ChatRoom.rid rooms rid with - | - | room
  · rfl
  · simp only [Option.bind_some, forget_bind]
    rw [forget_tries fun u miss => by simp, forget_under]
    cases chatAddRoom rooms rid with
    | none => rfl
    | some rooms =>
      simp only [Option.bind_some, forget_query]
      unfold Chat.queryRoom
      rcases idKey.query ChatRoom.rid rooms rid with - | - | room
      · rfl
      · cases chatAddRoom rooms rid <;> simp [Chat.queryRoom]
      · rfl
  · rfl

@[simp] theorem forget_roomAddSession :
    forget (roomAddSession misses rooms rid gid key mem) = Chat.roomAddSession rooms rid gid key mem := by
  unfold roomAddSession Chat.roomAddSession
  simp only [forget_bind, forget_queryRoom]
  rcases Chat.queryRoom 2 rooms rid with - | ⟨rooms', room⟩
  · rfl
  · simp only [Option.bind_some, forget_chatGroupAddSession]
    rcases Chat.chatGroupAddSession room gid key mem with - | ⟨room, ret⟩
    · rfl
    · simp only [Option.bind_some, forget_lift]
      cases putRoom rooms' room <;> rfl

@[simp] theorem forget_roomDelSession : forget
    (roomDelSession rooms rid gid key) = Chat.roomDelSession rooms rid gid key := by
  unfold roomDelSession Chat.roomDelSession
  simp only [forget_bind, forget_hashTabQuery]
  rcases idKey.query ChatRoom.rid rooms rid with - | - | room
  · rfl
  · rfl
  · simp only [Option.bind_some, forget_bind, forget_chatGroupDelSession]
    cases Chat.chatGroupDelSession room gid key with
    | none => rfl
    | some room => simp

@[simp] theorem forget_chatRoomDestroy : forget (chatRoomDestroy room) = some () :=
  forget_hashTabDestroy _ _ fun _ => forget_hashTabDestroy _ _ fun _ => rfl

@[simp] theorem forget_chatDelRoom : forget (chatDelRoom rooms rid) = Chat.chatDelRoom rooms rid := by
  unfold chatDelRoom Chat.chatDelRoom
  simp only [forget_bind, forget_hashTabQuery]
  rcases idKey.query ChatRoom.rid rooms rid with - | - | room
  · rfl
  · rfl
  · simp only [Option.bind_some]
    split
    · simp
    · simp only [forget_bind, forget_lift]
      cases idKey.delete ChatRoom.rid rooms rid <;> simp

@[simp] theorem forget_chatGroupTrav (gid : BitVec 16) :
    forget (chatGroupTrav room gid) = Chat.chatGroupTrav room gid := by
  unfold chatGroupTrav Chat.chatGroupTrav
  split
  · unfold chatRoomTravAllGroup
    have hgroup (out : List SessionKey) (grp : ChatGroup) :=
      forget_hashTabTrav_out (.sidSet room.rid grp.gid) grp.sidSet out
    rw [forget_hashTabTrav _ _ hgroup]
    cases room.groups.hashTabTrav <;> rfl
  · simp only [forget_bind, forget_hashTabQuery]
    rcases groupKey.query ChatGroup.gid room.groups gid with - | - | grp
    · rfl
    · rfl
    · simp only [Option.bind_some, forget_bind, forget_hashTabTrav_out]
      cases grp.sidSet.hashTabTrav <;> simp

@[simp] theorem forget_chatRoomTravSession (T : ChatTab) (gid : BitVec 16) :
    forget (chatRoomTravSession T rid gid) = T.chatRoomTravSession rid gid := by
  unfold chatRoomTravSession ChatTab.chatRoomTravSession
  simp only [forget_bind, forget_hashTabQuery]
  rcases idKey.query ChatRoom.rid T.rooms rid with - | - | room
  · rfl
  · rfl
  · simp

theorem forget_cleanLoop : ∀ (rids : List Rid) (rooms : HashTab ChatRoom),
    forget (chatRoomCleanHdl.cleanLoop rids rooms) = ChatTab.cleanLoop rids rooms
  | [], _ => rfl
  | rid :: rids, rooms => by
    unfold chatRoomCleanHdl.cleanLoop ChatTab.cleanLoop
    split
    · split
      · rfl
      · rfl
    · simp only [forget_bind, forget_chatDelRoom]
      cases Chat.chatDelRoom rooms rid with
      | none => rfl
      | some rooms => exact forget_cleanLoop rids rooms

@[simp] theorem forget_chatRoomCleanHdl (T : ChatTab) (pushed : Rid → Bool) :
    forget (chatRoomCleanHdl T pushed) = T.chatRoomCleanHdl pushed := by
  unfold chatRoomCleanHdl ChatTab.chatRoomCleanHdl
  simp only [forget_bind, forget_hashTabTrav_out]
  cases T.rooms.hashTabTrav with
  | none => rfl
  | some rooms =>
    simp only [Option.map_some, Option.bind_some, List.nil_append, forget_cleanLoop]
    cases ChatTab.cleanLoop (ChatTab.cleanList rooms pushed) T.rooms <;> rfl

/-! ## Sessions -/

variable {T : ChatTab} {C : ChatState} {sid cid : BitVec 64} {cmd : Cmd}

@[simp] theorem forget_chatSessionTabAdd :
    forget (chatSessionTabAdd misses T rid gid sid cid mem) = T.chatSessionTabAdd rid gid sid cid mem := by
  unfold chatSessionTabAdd ChatTab.chatSessionTabAdd
  by_cases hsession : ¬mem.session
  · simp [hsession]
  by_cases hroom : ¬mem.room
  · simp [hsession, hroom]
  by_cases htables : ¬mem.tables
  · rw [if_neg hsession, if_neg hroom, if_pos htables]
    dsimp only
    rw [if_neg hsession, if_neg hroom, if_pos htables]
    cases misses.sub <;> cases misses.begun <;> simp
  · rw [if_neg hsession, if_neg hroom, if_neg htables]
    dsimp only
    rw [if_neg hsession, if_neg hroom, if_neg htables]
    simp only [forget_bind, forget_hashTabInsert]
    rcases itemKey.insert ChatRoomItem.rid (HashTab.hashTabCreat ChatRoomItem chatSessionSlotLen)
      ⟨rid, gid⟩ mem.roomNode
      with - | ⟨room, ret⟩
    · rfl
    · simp only [Option.bind_some, forget_lift]
      split
      · rfl
      · simp only [Option.bind_some]
        rcases sessionKey.insert ChatSession.key T.sessions ⟨sid, cid, room⟩ mem.sessionNode with - | ⟨sessions, ret⟩
        · rfl
        · cases ret <;> simp [sessionFree]

@[simp] theorem forget_chatRoomAddSession :
    forget (chatRoomAddSession misses T rid gid sid cid mem) = T.chatRoomAddSession rid gid sid cid mem := by
  unfold chatRoomAddSession ChatTab.chatRoomAddSession
  simp only [forget_bind, forget_hashTabQuery]
  rcases sessionKey.query ChatSession.key T.sessions (sid, cid) with - | - | session
  · rfl
  · simp only [Option.bind_some, forget_bind, forget_roomAddSession]
    rcases Chat.roomAddSession T.rooms rid gid (sid, cid) mem with - | ⟨rooms, - | -⟩
    · rfl
    · rfl
    · simp only [Option.bind_some, if_true, forget_bind, forget_chatSessionTabAdd]
      rcases ChatTab.chatSessionTabAdd _ rid gid sid cid mem with - | ⟨T, - | -⟩
      · rfl
      · simp
      · rfl
  · simp only [Option.bind_some, forget_bind, forget_hashTabQuery]
    rcases itemKey.query ChatRoomItem.rid session.room rid with - | - | room
    · rfl
    · simp only [Option.bind_some]
      split
      · simp only [forget_bind, forget_hashTabInsert]
        rcases itemKey.insert ChatRoomItem.rid session.room ⟨rid, gid⟩ true with - | ⟨room, ret⟩
        · rfl
        · simp
      · cases misses.itemNode <;> simp
    · simp

@[simp] theorem forget_chatRoomDelSession :
    forget (chatRoomDelSession T rid sid cid) = T.chatRoomDelSession rid sid cid := by
  unfold chatRoomDelSession ChatTab.chatRoomDelSession
  simp only [forget_bind, forget_hashTabQuery]
  rcases sessionKey.query ChatSession.key T.sessions (sid, cid) with - | - | session
  · rfl
  · rfl
  · simp only [Option.bind_some, forget_bind, forget_hashTabDelete]
    rcases itemKey.delete ChatRoomItem.rid session.room rid with - | ⟨room, - | item⟩
    · rfl
    · rfl
    · simp only [Option.bind_some, forget_bind, forget_lift]
      cases sessionKey.write ChatSession.key T.sessions (sid, cid) _ with
      | none => rfl
      | some sessions => simp

@[simp] theorem forget_chatDelSidToCid : forget (chatDelSidToCid T sid cid) = T.chatDelSidToCid sid cid := by
  unfold chatDelSidToCid ChatTab.chatDelSidToCid
  simp only [forget_bind, forget_hashTabQuery]
  rcases idKey.query Prod.fst T.sid2cids sid with - | - | item
  · rfl
  · rfl
  · simp only [Option.bind_some]
    split
    · simp
    · simp

@[simp] theorem forget_chatDelSession : forget (chatDelSession T sid cid) = T.chatDelSession sid cid := by
  unfold chatDelSession ChatTab.chatDelSession
  simp only [forget_bind, forget_chatDelSidToCid]
  cases T.chatDelSidToCid sid cid with
  | none => rfl
  | some T =>
    simp only [Option.bind_some, forget_lift, forget_hashTabDelete]
    split
    · rfl
    · simp only [Option.bind_some]
      rcases sessionKey.delete ChatSession.key T.sessions (sid, cid) with - | ⟨sessions, - | session⟩
      · rfl
      · rfl
      · simp only [Option.bind_some, forget_bind]
        have hitem (rooms : HashTab ChatRoom) (room : ChatRoomItem) :
            forget (roomDelSession rooms room.rid room.gid (session.sid, session.cid)) =
              Chat.roomDelSession rooms room.rid room.gid (session.sid, session.cid) :=
          forget_roomDelSession
        rw [forget_hashTabTrav _ _ hitem]
        unfold ChatTab.travDelSession
        cases session.room.hashTabTrav <;> simp [sessionFree]

/-! ## The index and the subscriptions -/

@[simp] theorem forget_chatGetCidBySid : forget (chatGetCidBySid C sid) = C.chatGetCidBySid sid := by
  unfold chatGetCidBySid ChatState.chatGetCidBySid waitSid
  simp only [forget_bind, forget_lift]
  split
  · rfl
  · simp only [Option.bind_some, forget_hashTabQuery]
    rcases idKey.query Prod.fst C.tab.sid2cids sid with - | - | item
    · rfl
    · rfl
    · simp

@[simp] theorem forget_chatSetSidToCid (item node : Bool) :
    forget (chatSetSidToCid misses C sid cid item node) = C.chatSetSidToCid sid cid item node := by
  unfold chatSetSidToCid ChatState.chatSetSidToCid waitSid
  simp only [forget_bind, forget_lift]
  split
  · rfl
  simp only [Option.bind_some, forget_hashTabQuery]
  rcases idKey.query Prod.fst C.tab.sid2cids sid with - | - | old
  · rfl
  · simp only [Option.bind_some, forget_bind]
    rw [forget_tries fun u miss => by simp]
    split
    · simp
    · rfl
  · simp only [Option.bind_some]
    split
    · simp
    · simp only [forget_bind, forget_lift]
      rcases idKey.delete Prod.fst C.tab.sid2cids sid with - | ⟨sid2cids, item'⟩
      · rfl
      · simp only [Option.bind_some]
        split
        · simp only [forget_bind, forget_lift]
          rcases idKey.insert Prod.fst sid2cids (sid, cid) node with - | ⟨sid2cids, ret⟩ <;> simp
        · rfl

@[simp] theorem forget_chatAddSub (item node : Bool) :
    forget (chatAddSub C sid cmd item node) = C.chatAddSub sid cmd item node := by
  unfold chatAddSub ChatState.chatAddSub
  split
  · rfl
  simp only [forget_bind, forget_chatGetCidBySid]
  cases C.chatGetCidBySid sid with
  | none => rfl
  | some cid =>
    simp only [Option.bind_some]
    split
    · rfl
    simp only [forget_bind, forget_hashTabQuery]
    rcases sessionKey.query ChatSession.key C.tab.sessions (sid, cid) with - | - | session
    · rfl
    · rfl
    · simp only [Option.bind_some, forget_bind, forget_hashTabInsert]
      rcases subKey.insert id (C.sub session.key) cmd node with - | ⟨sub, ret⟩
      · rfl
      · cases ret <;> simp

@[simp] theorem forget_chatDelSub : forget (chatDelSub C sid cmd) = C.chatDelSub sid cmd := by
  unfold chatDelSub ChatState.chatDelSub
  simp only [forget_bind, forget_chatGetCidBySid]
  cases C.chatGetCidBySid sid with
  | none => rfl
  | some cid =>
    simp only [Option.bind_some]
    split
    · rfl
    simp only [forget_bind, forget_hashTabQuery]
    rcases sessionKey.query ChatSession.key C.tab.sessions (sid, cid) with - | - | session
    · rfl
    · rfl
    · simp only [Option.bind_some, forget_bind, forget_hashTabDelete]
      rcases subKey.delete id (C.sub session.key) cmd with - | ⟨sub, item⟩ <;> simp

@[simp] theorem forget_sessionHasSub (sub : HashTab Cmd) :
    forget (sessionHasSub key sub cmd) = (subKey.query id sub cmd).map Option.isSome := by
  unfold sessionHasSub
  simp only [forget_bind, forget_hashTabQuery]
  rcases subKey.query id sub cmd with - | - | cmd <;> simp

@[simp] theorem forget_chatHasSub (word : BitVec 64) :
    forget (chatHasSub C sid cmd word) = C.chatHasSub sid cmd word := by
  unfold chatHasSub ChatState.chatHasSub
  simp only [forget_bind, forget_hashTabQuery]
  rcases sessionKey.query ChatSession.key C.tab.sessions (sid, word) with - | - | session
  · rfl
  · rfl
  · simp

/-! ## Calls -/

theorem forget_call (misses : Misses) (C : ChatState) (c : ChatState.Call) : forget (call misses C c) = C.call c := by
  cases c with
  | addSession rid gid sid cid mem =>
    unfold call ChatState.call ChatState.chatRoomAddSession
    simp only [forget_bind, forget_chatRoomAddSession]
    cases C.tab.chatRoomAddSession rid gid sid cid mem <;> rfl
  | roomDelSession rid sid cid =>
    unfold call ChatState.call ChatState.chatRoomDelSession
    simp only [forget_bind, forget_chatRoomDelSession]
    cases C.tab.chatRoomDelSession rid sid cid <;> rfl
  | delSession sid cid =>
    unfold call ChatState.call ChatState.chatDelSession waitSid
    simp only [forget_bind, forget_lift, forget_chatDelSession]
    split
    · rfl
    · cases C.tab.chatDelSession sid cid <;> rfl
  | setSidToCid sid cid item node => exact forget_chatSetSidToCid item node
  | delSidToCid sid cid =>
    unfold call ChatState.call ChatState.chatDelSidToCid waitSid
    simp only [forget_bind, forget_lift, forget_chatDelSidToCid]
    split
    · rfl
    · cases C.tab.chatDelSidToCid sid cid <;> rfl
  | addSub sid cmd item node => exact forget_chatAddSub item node
  | delSub sid cmd => exact forget_chatDelSub
  | delRoom rid =>
    unfold call ChatState.call ChatState.chatDelRoom
    simp only [forget_bind, forget_chatDelRoom]
    cases Chat.chatDelRoom C.tab.rooms rid <;> rfl
  | clean pushed =>
    unfold call ChatState.call ChatState.chatRoomCleanHdl
    simp only [forget_bind, forget_chatRoomCleanHdl]
    cases C.tab.chatRoomCleanHdl pushed <;> rfl

/-- A call with its locks returns where the call does, and leaves the same tables. -/
theorem Op.forget_run (C : ChatState) (op : Op) : forget (op.run C) = op.plain C := by
  cases op with
  | call c misses =>
    unfold Op.run Op.plain ChatState.step
    simp only [forget_bind, forget_call]
    cases C.call c <;> rfl
  | hasSub sid cmd word =>
    unfold Op.run Op.plain
    simp only [forget_bind, forget_chatHasSub]
    cases C.chatHasSub sid cmd word <;> rfl
  | travSession rid gid =>
    unfold Op.run Op.plain
    simp only [forget_bind, forget_chatRoomTravSession]
    cases C.tab.chatRoomTravSession rid gid <;> rfl

end BeehiveIm.Chat.Locks
