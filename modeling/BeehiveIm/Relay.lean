/-
What the chat handlers send on (`exec/chatroom/controllers/mesg.go`,
`exec/msgsvr/controllers/gmesg.go` and `pmesg.go`), byte by byte: from the packet that came in to
what goes into the send queue. The body is what came in and its length is what the header says, and
nothing compares the two. What `proto.Unmarshal` makes of a body is left open, and so is what Redis
answers for the sessions of a user. Left out: the answers to the sender, and the channels to the
tasks that store the messages.
-/
import BeehiveIm.Groups.Handlers
import BeehiveIm.Offline
import BeehiveIm.Rtmq.Proxy

namespace BeehiveIm.Relay

open BeehiveIm.Groups (MesgGroupChat)
open BeehiveIm.Offline (Str Head MesgChat mesgHeadSize mesgHeadNtoh be cmdChat parse chatParse)
open BeehiveIm.Room (MesgRoomChat)
open BeehiveIm.Rtmq (ProxyConf RtmqPacket copyInto)
open BeehiveIm.Session (SidAttr parseInt)

def cmdRoomChat : BitVec 32 := 0x040B
def cmdGroupChat : BitVec 32 := 0x030B

/-! ## Sending -/

/-- `MesgHeader` -/
structure MesgHeader where
  cmd : BitVec 32
  length : BitVec 32
  sid : BitVec 64
  cid : BitVec 64
  nid : BitVec 32
  seq : BitVec 64
  dsid : BitVec 64
  dseq : BitVec 64

/-- `PutUint32` and `PutUint64` of `binary.BigEndian`: `n` bytes of a number. -/
def putUint : Nat → Nat → Str
  | 0, _ => []
  | n + 1, w => putUint n (w / 256) ++ [BitVec.ofNat 8 w]

/-- Go's `copy` -/
def copyTo (dst src : Str) : Str := src.take dst.length ++ dst.drop src.length

/-- The fields of a header in network order. -/
def MesgHeader.bytes (head : MesgHeader) : Str :=
  putUint 4 head.cmd.toNat ++ (putUint 4 head.length.toNat ++ (putUint 8 head.sid.toNat ++ (putUint 8 head.cid.toNat ++
    (putUint 4 head.nid.toNat ++ (putUint 8 head.seq.toNat ++
    (putUint 8 head.dsid.toNat ++ putUint 8 head.dseq.toNat))))))

/-- `MesgHeadHton`, into a buffer that has room for it. -/
def mesgHeadHton (head : MesgHeader) (buff : Str) : Str := head.bytes ++ buff.drop mesgHeadSize

/-- What is given to `AsyncSend`, and what that puts in a queue unless the queue stays full. -/
structure Sent where
  buff : Str
  packet : RtmqPacket

/-- `sendData` and `send_data` -/
def sendData (conf : ProxyConf) (cmd : BitVec 32) (sid cid : BitVec 64) (nid : BitVec 32) (seq : BitVec 64) (data : Str)
    (length : BitVec 32) : Sent :=
  let buff := mesgHeadHton ⟨cmd, length, sid, cid, nid, seq, 0, 0⟩ (List.replicate (mesgHeadSize + length.toNat) 0)
  let buff := buff.take mesgHeadSize ++ copyTo (buff.drop mesgHeadSize) data
  ⟨buff, conf.userData cmd buff (BitVec.ofNat 32 buff.length)⟩

/-! ## The handlers -/

/-- The proxy, and `proto.Unmarshal` for each kind of message. -/
structure Env extends Offline.Env where
  conf : ProxyConf
  roomChat : Str → Except String MesgRoomChat
  groupChat : Str → Except String MesgGroupChat

/-- The nodes of each room or group as they are in memory. -/
abbrev NodeMap := BitVec 64 → Option (List (BitVec 32))

/-- A session as `SMEMBERS` names it, with what `GetSidAttr` reads for it. -/
abbrev Found := BitVec 64 × Option SidAttr

/-- The checks of `MsgSvrGroupChatHandler`. -/
def groupAccepts (s : Groups.Store) (req : MesgGroupChat) : Bool :=
  ((s.role req.gid).lookup req.uid).isSome ∧ req.uid ∉ s.gag req.gid ∧ req.text ≠ ""

namespace Env

variable (e : Env)

/-- The same message to all nodes of a room or a group. -/
def sendNodes (cmd : BitVec 32) (node : NodeMap) (id : BitVec 64) (head : Head) (data : Str) : List Sent :=
  match node id with
  | none => []
  | some nidList =>
    nidList.map fun nid => sendData e.conf cmd head.head.sid 0 nid head.seq (data.drop mesgHeadSize) head.length

/-- `parseRoomChatReq` -/
def parseRoomChatReq : Str → Option (Head × MesgRoomChat) := parse e.roomChat

/-- `roomChatHandler` -/
def roomChatHandler (node : NodeMap) (head : Head) (req : MesgRoomChat) (data : Str) : List Sent :=
  e.sendNodes cmdRoomChat node req.rid head data

/-- `ChatRoomChatHandler`; `none` is a packet that is refused. -/
def chatRoomChatHandler (s : Room.Store) (now : Int) (node : NodeMap) (data : Str) : Option (List Sent) :=
  match e.parseRoomChatReq data with
  | none => none
  | some (head, req) =>
    match ((Room.validateRoomChat head.head req now).run Room.exec s).1 with
    | .error _ => none
    | .ok () => some (e.roomChatHandler node head req data)

/-- `group_chat_parse` -/
def groupChatParse : Str → Option (Head × MesgGroupChat) := parse e.groupChat

/-- `group_chat_handler` -/
def groupChatHandler (node : NodeMap) (head : Head) (req : MesgGroupChat) (data : Str) : List Sent :=
  e.sendNodes cmdGroupChat node req.gid head data

/-- `MsgSvrGroupChatHandler` -/
def msgSvrGroupChatHandler (s : Groups.Store) (node : NodeMap) (data : Str) : Option (List Sent) :=
  match e.groupChatParse data with
  | none => none
  | some (head, req) => if groupAccepts s req then some (e.groupChatHandler node head req data) else none

/-- A turn of the second loop of `chat_handler`, and of the first one for a session
that is not the sender's. -/
def sendSession (uid : BitVec 64) (head : Head) (data : Str) (sid : BitVec 64) : Option SidAttr → Option Sent
  | none => none
  | some attr =>
    if attr.nid = 0 then none
    else if attr.uid ≠ uid then none
    else some (sendData e.conf cmdChat sid attr.cid attr.nid head.seq (data.drop mesgHeadSize) head.length)

/-- `chat_handler`: what it sends, and its error. -/
def chatHandler (own dest : Except String (List Found)) (head : Head) (req : MesgChat) (data : Str) :
    List Sent × Except String Unit :=
  match own with
  | .error err => ([], .error err)
  | .ok sidList =>
    let sent := sidList.filterMap fun f =>
      if parseInt f.1 = head.head.sid then none else e.sendSession req.suid head data (parseInt f.1) f.2
    match dest with
    | .error err => (sent, .error err)
    | .ok sidList => (sent ++ sidList.filterMap fun f => e.sendSession req.duid head data (parseInt f.1) f.2, .ok ())

/-- `MsgSvrChatHandler` -/
def msgSvrChatHandler (own dest : Except String (List Found)) (data : Str) : Option (List Sent) :=
  match chatParse e.toEnv data with
  | none => none
  | some (head, req) => some (e.chatHandler own dest head req data).1

end Env

/-- A packet, with what is read while it is handled. -/
inductive Request where
  | room (s : Room.Store) (now : Int) (node : NodeMap) (data : Str)
  | group (s : Groups.Store) (node : NodeMap) (data : Str)
  | chat (own dest : Except String (List Found)) (data : Str)

def Request.data : Request → Str
  | .room _ _ _ data | .group _ _ data | .chat _ _ data => data

def Env.handle (e : Env) : Request → Option (List Sent)
  | .room s now node data => e.chatRoomChatHandler s now node data
  | .group s node data => e.msgSvrGroupChatHandler s node data
  | .chat own dest data => e.msgSvrChatHandler own dest data

/-! ## What is asked for -/

/-- Who gets this reads the body that came in, under its length, and what was set aside for it
is no more than came in. -/
structure Sent.Faithful (c : Sent) (data : Str) : Prop where
  length : ∃ head, mesgHeadNtoh c.packet.body = some head ∧ head.length.toNat = (data.drop mesgHeadSize).length
  body : c.packet.body.drop mesgHeadSize = data.drop mesgHeadSize
  buff : c.buff.length ≤ data.length

/-- All copies of a packet that is accepted are faithful. -/
def Request.Relayed (e : Env) (r : Request) : Prop := ∀ sent, e.handle r = some sent → ∀ c ∈ sent, c.Faithful r.data

/-- The header gives the length of the body, and a `uint32` holds that of the packet. -/
def Sound (data : Str) : Prop :=
  ∃ head, mesgHeadNtoh data = some head ∧ mesgHeadSize + head.length.toNat = data.length ∧ data.length < 2 ^ 32

/-- A session that gets what is sent to the user. -/
def Online (uid : BitVec 64) (attr : Option SidAttr) : Prop := ∃ a, attr = some a ∧ a.nid ≠ 0 ∧ a.uid = uid

/-- The nodes of a room or a group are known, and there are some. -/
def NodeMap.Hosts (node : NodeMap) (id : BitVec 64) : Prop := ∃ nidList, node id = some nidList ∧ nidList ≠ []

/-- A packet that is accepted, and that somebody is there to get. -/
def Request.Reaches (e : Env) : Request → Prop
  | .room s now node data => ∃ head req, e.parseRoomChatReq data = some (head, req) ∧
      ((Room.validateRoomChat head.head req now).run Room.exec s).1 = .ok () ∧ node.Hosts req.rid
  | .group s node data => ∃ head req, e.groupChatParse data = some (head, req) ∧ groupAccepts s req ∧ node.Hosts req.gid
  | .chat own dest data => ∃ head req sidList, chatParse e.toEnv data = some (head, req) ∧ own = .ok sidList ∧
      ((∃ f ∈ sidList, parseInt f.1 ≠ head.head.sid ∧ Online req.suid f.2) ∨
        ∃ sidList, dest = .ok sidList ∧ ∃ f ∈ sidList, Online req.duid f.2)

/-! ## Headers -/

theorem be_append (s : Str) (b : BitVec 8) : be (s ++ [b]) = 256 * be s + b.toNat := by
  simp [be, List.foldl_append]

@[simp] theorem length_putUint (n w : Nat) : (putUint n w).length = n := by
  induction n generalizing w with
  | zero => rfl
  | succ n ih => simp [putUint, ih]

theorem be_putUint (n w : Nat) : be (putUint n w) = w % 256 ^ n := by
  induction n generalizing w with
  | zero =>
    rw [pow_zero, Nat.mod_one]
    rfl
  | succ n ih =>
    have hlow : (BitVec.ofNat 8 w).toNat = w % 256 := BitVec.toNat_ofNat w 8
    rw [putUint, be_append, ih, hlow, pow_succ', Nat.mod_mul]
    omega

/-- A word is read back as it was put. -/
theorem ofNat_be_putUint {n : Nat} (w : BitVec (8 * n)) : BitVec.ofNat (8 * n) (be (putUint n w.toNat)) = w := by
  have hlt := w.isLt
  rw [pow_mul] at hlt
  have hbe : be (putUint n w.toNat) = w.toNat := (be_putUint n w.toNat).trans (Nat.mod_eq_of_lt hlt)
  rw [hbe, BitVec.ofNat_toNat, BitVec.setWidth_eq]

@[simp] theorem MesgHeader.length_bytes (head : MesgHeader) : head.bytes.length = mesgHeadSize := by
  simp [bytes, mesgHeadSize]

/-- What is read back of a header, whatever follows it. -/
theorem MesgHeader.mesgHeadNtoh_bytes (head : MesgHeader) (rest : Str) :
    mesgHeadNtoh (head.bytes ++ rest) = some ⟨head.cmd, head.length, ⟨head.sid, head.cid, head.nid⟩, head.seq⟩ := by
  have hlong : ¬(head.bytes ++ rest).length < mesgHeadSize := by
    rw [List.length_append, head.length_bytes]
    omega
  rw [mesgHeadNtoh, if_neg hlong]
  simp only [bytes, List.append_assoc]
  simp [List.drop_append, List.drop_of_length_le]
  exact ⟨ofNat_be_putUint (n := 4) _, ofNat_be_putUint (n := 4) _,
    ⟨ofNat_be_putUint (n := 8) _, ofNat_be_putUint (n := 8) _, ofNat_be_putUint (n := 4) _⟩,
    ofNat_be_putUint (n := 8) _⟩

/-! ## Copies -/

variable {dst src data : Str} {conf : ProxyConf} {cmd nid length : BitVec 32} {sid cid seq : BitVec 64}

@[simp] theorem length_copyTo (dst src : Str) : (copyTo dst src).length = dst.length := by
  simp only [copyTo, List.length_append, List.length_take, List.length_drop]
  omega

theorem copyTo_of_length (h : dst.length = src.length) : copyTo dst src = src := by
  rw [copyTo, List.drop_of_length_le h.le, h, List.take_length, List.append_nil]

theorem copyInto_self (src : Str) : copyInto src.length src = src := List.take_left' rfl

/-- The buffer of a copy has as many bytes as the length says. -/
theorem sendData_buff : (sendData conf cmd sid cid nid seq data length).buff =
    MesgHeader.bytes ⟨cmd, length, sid, cid, nid, seq, 0, 0⟩ ++ copyTo (List.replicate length.toNat 0) data := by
  simp only [sendData, mesgHeadHton]
  rw [List.take_left' (MesgHeader.length_bytes _), List.drop_left' (MesgHeader.length_bytes _), List.drop_replicate,
    Nat.add_sub_cancel_left]

theorem length_sendData_buff : (sendData conf cmd sid cid nid seq data length).buff.length =
    mesgHeadSize + length.toNat := by
  simp [sendData_buff]

theorem sendData_packet : (sendData conf cmd sid cid nid seq data length).packet.body =
    copyInto (BitVec.ofNat 32 (sendData conf cmd sid cid nid seq data length).buff.length).toNat
      (sendData conf cmd sid cid nid seq data length).buff := by
  simp only [sendData, ProxyConf.userData]

/-- A packet whose length a `uint32` holds goes into the queue as it is. -/
theorem sendData_body (h : mesgHeadSize + length.toNat < 2 ^ 32) :
    (sendData conf cmd sid cid nid seq data length).packet.body =
    (sendData conf cmd sid cid nid seq data length).buff := by
  have hint : (BitVec.ofNat 32 (mesgHeadSize + length.toNat)).toNat = mesgHeadSize + length.toNat := by
    rw [BitVec.toNat_ofNat]
    exact Nat.mod_eq_of_lt h
  rw [sendData_packet, length_sendData_buff, hint, ← length_sendData_buff]
  exact copyInto_self _

/-- One whose length wraps is cut in the middle of its header. -/
theorem sendData_cut (h : ¬mesgHeadSize + length.toNat < 2 ^ 32) :
    mesgHeadNtoh (sendData conf cmd sid cid nid seq data length).packet.body = none := by
  have hshort : (sendData conf cmd sid cid nid seq data length).packet.body.length < mesgHeadSize := by
    have hlt := length.isLt
    rw [sendData_packet, length_sendData_buff, BitVec.toNat_ofNat]
    simp only [copyInto, List.length_take, List.length_append, List.length_replicate]
    unfold mesgHeadSize at h ⊢
    omega
  exact if_pos hshort

/-- A copy of the body of a packet is faithful if the length it is sent with is that of the body and
the packet is not too long to be sent. -/
theorem sendData_faithful_iff (hdata : mesgHeadSize ≤ data.length) :
    (sendData conf cmd sid cid nid seq (data.drop mesgHeadSize) length).Faithful data ↔
      mesgHeadSize + length.toNat = data.length ∧ data.length < 2 ^ 32 := by
  by_cases hfits : mesgHeadSize + length.toNat < 2 ^ 32
  · have hbody : (sendData conf cmd sid cid nid seq (data.drop mesgHeadSize) length).packet.body =
        MesgHeader.bytes ⟨cmd, length, sid, cid, nid, seq, 0, 0⟩ ++ copyTo (List.replicate length.toNat 0)
        (data.drop mesgHeadSize) :=
      (sendData_body hfits).trans sendData_buff
    have hdrop : (sendData conf cmd sid cid nid seq (data.drop mesgHeadSize) length).packet.body.drop mesgHeadSize =
        copyTo (List.replicate length.toNat 0) (data.drop mesgHeadSize) := by
      rw [hbody]
      exact List.drop_left' (MesgHeader.length_bytes _)
    constructor
    · rintro ⟨-, hsame, -⟩
      -- the bodies have the same number of bytes
      have hlen := congrArg List.length (hdrop.symm.trans hsame)
      rw [length_copyTo, List.length_replicate, List.length_drop] at hlen
      omega
    · rintro ⟨hlen, -⟩
      have hlength : length.toNat = (data.drop mesgHeadSize).length := by
        rw [List.length_drop]
        omega
      constructor
      · rw [hbody, MesgHeader.mesgHeadNtoh_bytes]
        exact ⟨_, rfl, hlength⟩
      · rw [hdrop]
        exact copyTo_of_length (by rw [List.length_replicate, hlength])
      · rw [length_sendData_buff]
        exact hlen.le
  · refine iff_of_false ?_ fun h => hfits (h.1 ▸ h.2)
    rintro ⟨⟨head, hhead, -⟩, -, -⟩
    rw [sendData_cut hfits] at hhead
    cases hhead

/-! ## What the handlers send -/

/-- The checks are those that the handler as `Groups` has it makes of a request it has read. -/
theorem groupAccepts_iff (env : Groups.Env) {head : Session.MesgHeader} (hvalid : Room.isValid head)
    (req : MesgGroupChat)
    (w : Groups.World) : groupAccepts w.store req ↔ (Groups.msgSvrGroupChatHandler env head (.ok req) w).ret = 0 := by
  have hread : Groups.msgSvrGroupChatHandler env head (.ok req) w = if
    ((w.store.role req.gid).lookup req.uid).isNone then
      Groups.fail w Groups.cmdGroupChatAck head Groups.errSvrCheckFail "not in group"
    else if req.uid ∈ w.store.gag req.gid then Groups.fail w Groups.cmdGroupChatAck head Groups.errSvrAuthFail "user gagged"
    else if req.text = "" then Groups.fail w Groups.cmdGroupChatAck head Groups.errSvrInvalidParam "empty message"
    else ⟨0, w, (env.node req.gid).map (fun nid => ⟨Groups.cmdGroupChat, ⟨head.sid, 0, nid⟩, .chat req⟩) ++
      [Groups.groupSendSimpleAck Groups.cmdGroupChatAck head 0 "Ok"], some req⟩ := by
    unfold Groups.msgSvrGroupChatHandler
    rw [hvalid]
    rfl
  rw [hread]
  unfold groupAccepts
  cases (w.store.role req.gid).lookup req.uid with
  | none => simp [Groups.fail]
  | some role =>
    by_cases hgag : req.uid ∈ w.store.gag req.gid
    · simp [hgag, Groups.fail]
    · by_cases htext : req.text = "" <;> simp [hgag, htext, Groups.fail]

variable {e : Env} {r : Request}

/-- The packet is sent on with the length that its header gives. -/
def Copied (conf : ProxyConf) (head : Head) (data : Str) (c : Sent) : Prop :=
  ∃ cmd sid cid nid seq, c = sendData conf cmd sid cid nid seq (data.drop mesgHeadSize) head.length

theorem parse_head {α : Type} {unmarshal : Str → Except String α} {head : Head} {req : α}
    (h : parse unmarshal data = some (head, req)) : mesgHeadNtoh data = some head := by
  unfold parse at h
  cases hhead : mesgHeadNtoh data with
  | none =>
    rw [hhead] at h
    cases h
  | some head' =>
    simp only [hhead] at h
    split at h
    · cases h
    · split at h
      · cases h
      · cases h
        rfl

theorem chatParse_head {env : Offline.Env} {head : Head} {req : MesgChat} (h : chatParse env data = some (head, req)) :
    mesgHeadNtoh data = some head := by
  unfold chatParse at h
  obtain ⟨⟨head', req'⟩, hparse, h⟩ := Option.bind_eq_some_iff.1 h
  dsimp only at h
  split at h
  · cases h
  · cases h
    exact parse_head hparse

theorem sendNodes_copied (cmd : BitVec 32) (node : NodeMap) (id : BitVec 64) (head : Head) :
    ∀ c ∈ e.sendNodes cmd node id head data, Copied e.conf head data c := by
  intro c hc
  unfold Env.sendNodes at hc
  split at hc
  · cases hc
  · obtain ⟨nid, -, rfl⟩ := List.mem_map.1 hc
    exact ⟨_, _, _, _, _, rfl⟩

theorem sendNodes_ne_nil (cmd : BitVec 32) (node : NodeMap) (id : BitVec 64) (head : Head) :
    e.sendNodes cmd node id head data ≠ [] ↔ node.Hosts id := by
  unfold Env.sendNodes NodeMap.Hosts
  cases node id with
  | none => simp
  | some nidList => simp

theorem sendSession_eq_some {uid : BitVec 64} {head : Head} {attr : Option SidAttr} {c : Sent}
    (h : e.sendSession uid head data sid attr = some c) : Copied e.conf head data c ∧ Online uid attr := by
  cases attr with
  | none => cases h
  | some attr =>
    simp only [Env.sendSession] at h
    split_ifs at h with hnid huid
    cases h
    exact ⟨⟨_, _, _, _, _, rfl⟩, attr, rfl, hnid, not_not.1 huid⟩

theorem sendSession_eq_none_iff {uid : BitVec 64} {head : Head} {attr : Option SidAttr} :
    e.sendSession uid head data sid attr = none ↔ ¬Online uid attr := by
  constructor
  · rintro hnone ⟨a, rfl, hnid, huid⟩
    simp only [Env.sendSession] at hnone
    rw [if_neg hnid, if_neg (not_not.2 huid)] at hnone
    cases hnone
  · intro hoff
    cases hsent : e.sendSession uid head data sid attr with
    | none => rfl
    | some c => exact absurd (sendSession_eq_some hsent).2 hoff

theorem chatHandler_copied (own dest : Except String (List Found)) (head : Head) (req : MesgChat) :
    ∀ c ∈ (e.chatHandler own dest head req data).1, Copied e.conf head data c := by
  have hown (sidList : List Found) : ∀ c ∈ sidList.filterMap (fun f => if parseInt f.1 = head.head.sid then none
      else e.sendSession req.suid head data (parseInt f.1) f.2), Copied e.conf head data c := by
    intro c hc
    obtain ⟨f, -, hf⟩ := List.mem_filterMap.1 hc
    split_ifs at hf
    exact (sendSession_eq_some hf).1
  unfold Env.chatHandler
  cases own with
  | error err => exact fun c hc => absurd hc List.not_mem_nil
  | ok sidList =>
    cases dest with
    | error err => exact hown sidList
    | ok destList =>
      intro c hc
      rcases List.mem_append.1 hc with hc | hc
      · exact hown sidList c hc
      · obtain ⟨f, -, hf⟩ := List.mem_filterMap.1 hc
        exact (sendSession_eq_some hf).1

/-- Who is online gets a copy: the sender's other sessions if Redis can tell them,
and then the receiver's. -/
theorem chatHandler_ne_nil (own dest : Except String (List Found)) (head : Head) (req : MesgChat) :
    (e.chatHandler own dest head req data).1 ≠ [] ↔ ∃ sidList, own = .ok sidList ∧
      ((∃ f ∈ sidList, parseInt f.1 ≠ head.head.sid ∧ Online req.suid f.2) ∨
        ∃ sidList, dest = .ok sidList ∧ ∃ f ∈ sidList, Online req.duid f.2) := by
  have hown (sidList : List Found) : (sidList.filterMap fun f =>
      if parseInt f.1 = head.head.sid then none else e.sendSession req.suid head data (parseInt f.1) f.2) = [] ↔
        ¬∃ f ∈ sidList, parseInt f.1 ≠ head.head.sid ∧ Online req.suid f.2 := by
    simp [List.filterMap_eq_nil_iff, sendSession_eq_none_iff]
  have hdest (sidList : List Found) :
    (sidList.filterMap fun f => e.sendSession req.duid head data (parseInt f.1) f.2) = [] ↔
      ¬∃ f ∈ sidList, Online req.duid f.2 := by
    simp [List.filterMap_eq_nil_iff, sendSession_eq_none_iff]
  unfold Env.chatHandler
  cases own with
  | error err => simp
  | ok sidList =>
    cases dest with
    | error err =>
      simp only [ne_eq, hown, not_not, Except.ok.injEq, exists_eq_left', reduceCtorEq, false_and, exists_false,
        or_false]
    | ok destList =>
      simp only [ne_eq, List.append_eq_nil_iff, hown, hdest, not_and_or, not_not, Except.ok.injEq, exists_eq_left']

variable {s : Room.Store} {t : Groups.Store} {now : Int} {node : NodeMap} {own dest : Except String (List Found)}
    {sent : List Sent}

theorem chatRoomChatHandler_eq_some : e.chatRoomChatHandler s now node data = some sent ↔ ∃ head req,
    e.parseRoomChatReq data = some (head, req) ∧ ((Room.validateRoomChat head.head req now).run Room.exec s).1 =
      .ok () ∧
      e.roomChatHandler node head req data = sent := by
  unfold Env.chatRoomChatHandler
  constructor
  · intro h
    split at h
    · cases h
    · rename_i head req hparse
      split at h
      · cases h
      · rename_i hvalid
        exact ⟨head, req, hparse, hvalid, Option.some.inj h⟩
  · rintro ⟨head, req, hparse, hvalid, rfl⟩
    rw [hparse]
    dsimp only
    rw [hvalid]

theorem msgSvrGroupChatHandler_eq_some : e.msgSvrGroupChatHandler t node data = some sent ↔ ∃ head req,
    e.groupChatParse data = some (head, req) ∧ groupAccepts t req ∧ e.groupChatHandler node head req data = sent := by
  unfold Env.msgSvrGroupChatHandler
  constructor
  · intro h
    split at h
    · cases h
    · rename_i head req hparse
      split at h
      · rename_i haccepts
        exact ⟨head, req, hparse, haccepts, Option.some.inj h⟩
      · cases h
  · rintro ⟨head, req, hparse, haccepts, rfl⟩
    rw [hparse]
    exact if_pos haccepts

theorem msgSvrChatHandler_eq_some : e.msgSvrChatHandler own dest data = some sent ↔ ∃ head req,
    chatParse e.toEnv data = some (head, req) ∧ (e.chatHandler own dest head req data).1 = sent := by
  unfold Env.msgSvrChatHandler
  constructor
  · intro h
    split at h
    · cases h
    · rename_i head req hparse
      exact ⟨head, req, hparse, Option.some.inj h⟩
  · rintro ⟨head, req, hparse, rfl⟩
    rw [hparse]

/-- What is sent for a packet that is accepted are copies of its body. -/
theorem handle_copied (h : e.handle r = some sent) :
    ∃ head, mesgHeadNtoh r.data = some head ∧ ∀ c ∈ sent, Copied e.conf head r.data c := by
  cases r with
  | room s now node data =>
    obtain ⟨head, req, hparse, -, rfl⟩ := chatRoomChatHandler_eq_some.1 h
    exact ⟨head, parse_head hparse, sendNodes_copied cmdRoomChat node req.rid head⟩
  | group s node data =>
    obtain ⟨head, req, hparse, -, rfl⟩ := msgSvrGroupChatHandler_eq_some.1 h
    exact ⟨head, parse_head hparse, sendNodes_copied cmdGroupChat node req.gid head⟩
  | chat own dest data =>
    obtain ⟨head, req, hparse, rfl⟩ := msgSvrChatHandler_eq_some.1 h
    exact ⟨head, chatParse_head hparse, chatHandler_copied own dest head req⟩

/-- There is something to send exactly if somebody is there to get it. -/
theorem reaches_iff : r.Reaches e ↔ ∃ sent, e.handle r = some sent ∧ sent ≠ [] := by
  cases r with
  | room s now node data =>
    constructor
    · rintro ⟨head, req, hparse, hvalid, hhosts⟩
      exact ⟨_, chatRoomChatHandler_eq_some.2 ⟨head, req, hparse, hvalid, rfl⟩, (sendNodes_ne_nil ..).2 hhosts⟩
    · rintro ⟨sent, hsent, hne⟩
      obtain ⟨head, req, hparse, hvalid, rfl⟩ := chatRoomChatHandler_eq_some.1 hsent
      exact ⟨head, req, hparse, hvalid, (sendNodes_ne_nil ..).1 hne⟩
  | group t node data =>
    constructor
    · rintro ⟨head, req, hparse, haccepts, hhosts⟩
      exact ⟨_, msgSvrGroupChatHandler_eq_some.2 ⟨head, req, hparse, haccepts, rfl⟩, (sendNodes_ne_nil ..).2 hhosts⟩
    · rintro ⟨sent, hsent, hne⟩
      obtain ⟨head, req, hparse, haccepts, rfl⟩ := msgSvrGroupChatHandler_eq_some.1 hsent
      exact ⟨head, req, hparse, haccepts, (sendNodes_ne_nil ..).1 hne⟩
  | chat own dest data =>
    constructor
    · rintro ⟨head, req, sidList, hparse, hown, honline⟩
      exact ⟨_, msgSvrChatHandler_eq_some.2 ⟨head, req, hparse, rfl⟩,
        (chatHandler_ne_nil ..).2 ⟨sidList, hown, honline⟩⟩
    · rintro ⟨sent, hsent, hne⟩
      obtain ⟨head, req, hparse, rfl⟩ := msgSvrChatHandler_eq_some.1 hsent
      obtain ⟨sidList, hown, honline⟩ := (chatHandler_ne_nil ..).1 hne
      exact ⟨head, req, sidList, hparse, hown, honline⟩

theorem le_of_mesgHeadNtoh {head : Head} (h : mesgHeadNtoh data = some head) : mesgHeadSize ≤ data.length := by
  unfold mesgHeadNtoh at h
  split at h
  · cases h
  · omega

/-- The copies of a packet that is accepted and that somebody is there to get are faithful exactly
if its header gives the length of its body and a `uint32` holds that of the packet. -/
theorem relayed_iff (e : Env) (r : Request) : r.Relayed e ↔ (r.Reaches e → Sound r.data) := by
  rw [reaches_iff]
  constructor
  · rintro hall ⟨sent, hsent, hne⟩
    obtain ⟨head, hhead, hcopied⟩ := handle_copied hsent
    obtain ⟨c, hc⟩ := List.exists_mem_of_ne_nil sent hne
    have hfaithful := hall sent hsent c hc
    obtain ⟨cmd, sid, cid, nid, seq, rfl⟩ := hcopied c hc
    have hsound := (sendData_faithful_iff (le_of_mesgHeadNtoh hhead)).1 hfaithful
    exact ⟨head, hhead, hsound⟩
  · intro hsound sent hsent c hc
    obtain ⟨head, hhead, hcopied⟩ := handle_copied hsent
    obtain ⟨head', hhead', hlength⟩ := hsound ⟨sent, hsent, List.ne_nil_of_mem hc⟩
    cases hhead.symm.trans hhead'
    obtain ⟨cmd, sid, cid, nid, seq, rfl⟩ := hcopied c hc
    exact (sendData_faithful_iff (le_of_mesgHeadNtoh hhead)).2 hlength

/-- A `MesgChat` from user 1 to user 2 with the text "hi". -/
def hiChat : Str := [0x08, 0x01, 0x10, 0x02, 0x18, 0x00, 0x20, 0x00, 0x2A, 0x02, 0x68, 0x69]

/-- Under a header with length 0 it reaches the receiver without its body. -/
theorem body_cut : ¬Request.Relayed
    ⟨⟨fun body => if body = hiChat then .ok ⟨1, 2⟩ else .error "unexpected EOF", fun _ => .error "unexpected EOF",
      fun _ => .error "unexpected EOF"⟩, ⟨5, 1, [], []⟩, fun _ => .error "unexpected EOF", fun _ => .error "unexpected EOF"⟩
    (.chat (.ok []) (.ok [(6, some ⟨3, 2, 4⟩)]) (MesgHeader.bytes ⟨cmdChat, 0, 1, 7, 4, 9, 0, 0⟩ ++ hiChat)) := by
  intro h
  have hcut := (h _ rfl _ (List.mem_singleton_self _)).body
  exact absurd hcut (by decide)

end BeehiveIm.Relay
