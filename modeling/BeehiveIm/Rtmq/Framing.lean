/-
How the RTMQ server cuts what it receives into messages (`rtmq_rsvr.c`). The receive buffers
are blocks of memory, the pointers of `rtmq_snap_t` are offsets into the current one, and the
block after a switch is a new one; the references that keep a block alive are modelled in
`RecvBuff`. What the handlers do outside the receive path is a parameter. Left out: the logs
and the counters of messages.
-/
import BeehiveIm.Lib.Blocks
import Mathlib.Data.Int.Basic

namespace BeehiveIm.Rtmq

open BeehiveIm.Lib

def RTMQ_CHKSUM_VAL : BitVec 32 := 0x1FE23DC4
def RTMQ_SYS_MESG : BitVec 32 := 0
def RTMQ_CMD_AUTH_REQ : BitVec 32 := 1
def RTMQ_CMD_KPALIVE_REQ : BitVec 32 := 3
def RTMQ_CMD_SUB_REQ : BitVec 32 := 5
def RTMQ_USR_MAX_LEN : Nat := 32
def RTMQ_PWD_MAX_LEN : Nat := 16

/-- 5 MB -/
def RTMQ_BUFF_SIZE : Nat := 5 * 1024 * 1024

/-- `sizeof(rtmq_header_t)`: the words type, nid, flag, length and chksum, packed. -/
def HEADER_LEN : Nat := 20

inductive Ret where
  | ok
  | err
  | disconn
  deriving DecidableEq

/-- The rest of the server, over a state `σ` of the connection and all it shares: the handlers of
the requests with the fields they take from them, whether they succeed, whether the receive queue
has place, and which of the buffers are allocated. -/
structure Handlers (σ : Type) where
  authSucc : σ → Bool
  nid : σ → BitVec 32
  linkAuth : σ → (nid gid : BitVec 32) → (usrPasswd : List Byte) → σ × Bool
  keepalive : σ → σ × Bool
  sub : σ → (type : BitVec 32) → σ × Bool
  queueMalloc : σ → σ × Bool
  alloc : Nat → Bool

/-- `sck->recv` over the memory, the state of the rest, the messages handed on (as they lay in the
buffer) and the items queued, each with its block and the offset of its data. -/
structure Recv (σ : Type) where
  mem : Blocks
  base : Nat
  optr : Nat
  iptr : Nat
  sck : σ
  handed : List (List Byte)
  recvq : List (Nat × Nat)

namespace Recv

variable {σ : Type} (H : Handlers σ)

def init (mem : Blocks) (sck : σ) : Recv σ where
  mem := mem
  base := 0
  optr := 0
  iptr := 0
  sck := sck
  handed := []
  recvq := []

/-- `ntohl` of the word `i` of the data. -/
def ntohl (S : Recv σ) (i : Nat) : BitVec 32 := beWord (S.mem.read S.base (S.optr + 4 * i) 4)

/-- The word `i` of the data. -/
def word (S : Recv σ) (i : Nat) : BitVec 32 := leWord (S.mem.read S.base (S.optr + 4 * i) 4)

/-- The word `i` of the data is turned from network to host order, where it lies. -/
def swapWord (S : Recv σ) (i : Nat) : Recv σ :=
  { S with mem := S.mem.write S.base (S.optr + 4 * i) (S.mem.read S.base (S.optr + 4 * i) 4).reverse }

/-- `RTMQ_HEAD_NTOH(head, head)` -/
def rtmqHeadNtoh (S : Recv σ) : Recv σ := ((((S.swapWord 0).swapWord 1).swapWord 2).swapWord 3).swapWord 4

/-- `rtmq_rsvr_link_auth_req_hdl`: the gid is the first word after the header, the user name
and the password follow. -/
def rtmqRsvrLinkAuthReqHdl (S : Recv σ) : Recv σ × Ret :=
  if S.word 5 = 0 then (S, .err)
  else
    let nid := S.word 1
    let S := S.swapWord 5
    let r := H.linkAuth S.sck nid (S.word 5)
      (S.mem.read S.base (S.optr + HEADER_LEN + 4) (RTMQ_USR_MAX_LEN + RTMQ_PWD_MAX_LEN))
    ({ S with sck := r.1 }, if r.2 then .ok else .err)

/-- `rtmq_rsvr_keepalive_req_hdl` -/
def rtmqRsvrKeepaliveReqHdl (S : Recv σ) : Recv σ × Ret :=
  if !H.authSucc S.sck then (S, .err)
  else
    let r := H.keepalive S.sck
    ({ S with sck := r.1 }, if r.2 then .ok else .err)

/-- `rtmq_rsvr_sub_req_hdl`: the type is the first word after the header. -/
def rtmqRsvrSubReqHdl (S : Recv σ) : Recv σ × Ret :=
  if !H.authSucc S.sck then (S, .err)
  else
    let S := S.swapWord 5
    let r := H.sub S.sck (S.word 5)
    ({ S with sck := r.1 }, if r.2 then .ok else .err)

/-- `rtmq_rsvr_sys_mesg_proc` -/
def rtmqRsvrSysMesgProc (S : Recv σ) : Recv σ × Ret :=
  let type := S.word 0
  if type = RTMQ_CMD_AUTH_REQ then S.rtmqRsvrLinkAuthReqHdl H
  else if type = RTMQ_CMD_SUB_REQ then S.rtmqRsvrSubReqHdl H
  else if type = RTMQ_CMD_KPALIVE_REQ then S.rtmqRsvrKeepaliveReqHdl H
  else (S, .err)

/-- `rtmq_rsvr_exp_mesg_proc`; what it returns is not looked at. -/
def rtmqRsvrExpMesgProc (S : Recv σ) : Recv σ :=
  if !H.authSucc S.sck then S
  else if S.word 1 ≠ H.nid S.sck then S
  else
    let r := H.queueMalloc S.sck
    if r.2 then { S with sck := r.1, recvq := S.recvq ++ [(S.base, S.optr)] } else { S with sck := r.1 }

/-- `rtmq_rsvr_switch_recv_buff` -/
def rtmqRsvrSwitchRecvBuff (S : Recv σ) : Recv σ × Ret :=
  if H.alloc (S.base + 1) then
    let len := S.iptr - S.optr
    ({ S with mem := S.mem.write (S.base + 1) 0 (S.mem.read S.base S.optr len), base := S.base + 1,
              optr := 0, iptr := len }, .ok)
  else (S, .err)

/-- The end of a turn of `rtmq_rsvr_data_proc`: the message, its header in host order, goes to its
handler, and the pointer of the data over it. -/
def handOn (S : Recv σ) (oneMesgLen : Nat) : Recv σ × Option Ret :=
  if S.word 2 = RTMQ_SYS_MESG then
    let r := S.rtmqRsvrSysMesgProc H
    if r.2 = .ok then ({ r.1 with optr := r.1.optr + oneMesgLen }, none) else (r.1, some .err)
  else
    let S := S.rtmqRsvrExpMesgProc H
    ({ S with optr := S.optr + oneMesgLen }, none)

/-- One turn of the loop of `rtmq_rsvr_data_proc`: what it returns, `none` to turn again. The
process ends at the `assert(0)`. -/
def dataProcTurn (S : Recv σ) : Option (Recv σ × Option Ret) :=
  let len := S.iptr - S.optr
  if HEADER_LEN ≤ len ∧ S.ntohl 4 ≠ RTMQ_CHKSUM_VAL then none
  else
    let oneMesgLen := (HEADER_LEN + (S.ntohl 3).toNat) % 2 ^ 32
    if HEADER_LEN ≤ len ∧ oneMesgLen ≤ len then
      let S := S.rtmqHeadNtoh
      if S.word 4 ≠ RTMQ_CHKSUM_VAL then some (S, some .err)
      else
        let S := { S with handed := S.handed ++ [S.mem.read S.base S.optr oneMesgLen] }
        some (S.handOn H oneMesgLen)
    else if S.iptr = RTMQ_BUFF_SIZE then
      if S.optr < RTMQ_BUFF_SIZE - S.iptr then some (S, some .err)
      else
        let r := S.rtmqRsvrSwitchRecvBuff H
        some (r.1, some r.2)
    else some (S, some .ok)

def dataProcLoop : Nat → Recv σ → Option (Recv σ × Ret)
  | 0, _ => none
  | fuel + 1, S =>
    match S.dataProcTurn H with
    | none => none
    | some (S, none) => dataProcLoop fuel S
    | some (S, some r) => some (S, r)

/-- `rtmq_rsvr_data_proc`; a turn that does not return takes a message, or the check of the next
fails. -/
def rtmqRsvrDataProc (S : Recv σ) : Option (Recv σ × Ret) := dataProcLoop H (S.iptr - S.optr + 1) S

/-- `read` of what fits of `chunk` -/
def readChunk (S : Recv σ) (chunk : List Byte) : Recv σ :=
  { S with mem := S.mem.write S.base S.iptr chunk, iptr := S.iptr + chunk.length }

/-- `rtmq_rsvr_recv_proc` when `chunk` has arrived: it reads until the socket has nothing left, and
a `read` of no byte is taken for the end of the connection. -/
def recvProcLoop : Nat → Recv σ → List Byte → Option (Recv σ × Ret)
  | _, S, [] => some (S, .ok)
  | 0, _, _ :: _ => none
  | fuel + 1, S, chunk@(_ :: _) =>
    let left := RTMQ_BUFF_SIZE - S.iptr
    if left = 0 then some (S, .disconn)
    else
      match (S.readChunk (chunk.take left)).rtmqRsvrDataProc H with
      | none => none
      | some (S, .ok) => recvProcLoop fuel S (chunk.drop left)
      | some (S, _) => some (S, .err)

def rtmqRsvrRecvProc (S : Recv σ) (chunk : List Byte) : Option (Recv σ × Ret) :=
  recvProcLoop H chunk.length S chunk

/-- The chunks arrive one after the other; the connection is closed when one is not received
well. -/
def recvAll (S : Recv σ) : List (List Byte) → Option (Recv σ × Ret)
  | [] => some (S, .ok)
  | chunk :: chunks =>
    match S.rtmqRsvrRecvProc H chunk with
    | none => none
    | some (S, .ok) => recvAll S chunks
    | some (S, r) => some (S, r)

end Recv

/-! ## The proxy

How the RTMQ proxy cuts what it receives into messages (`rtmq_proxy_tsvr.c`). It works in one
receive buffer, so `sck->recv` is that of the server with block 0 alone, and what is left of a
message moves to the front of the block. What the messages do outside the receive path is a
parameter. Left out: the logs and the counters.
-/

def RTMQ_CMD_KPALIVE_ACK : BitVec 32 := 4

/-- The rest of the proxy, over a state `σ`: what a keepalive acknowledgement does, whether there is
memory for a message of so many bytes, and what a message pushed into a queue does. `overlap` is
what `memcpy` leaves of bytes that it copies onto a part of themselves. -/
structure ProxyHandlers (σ : Type) where
  kpaliveAck : σ → σ
  alloc : σ → Int → Bool
  push : σ → List Byte → σ
  overlap : List Byte → List Byte

namespace ProxyRecv

variable {σ : Type} (H : ProxyHandlers σ) (size : Nat)

/-- `rtmq_proxy_tsvr_sys_mesg_proc`: an acknowledgement of the authentication is only looked at, and
what the function returns is not. -/
def rtmqProxyTsvrSysMesgProc (S : Recv σ) : Recv σ :=
  if S.word 0 = RTMQ_CMD_KPALIVE_ACK then { S with sck := H.kpaliveAck S.sck } else S

/-- `rtmq_proxy_tsvr_exp_mesg_proc`; `len` is an `int`. -/
def rtmqProxyTsvrExpMesgProc (S : Recv σ) : Recv σ :=
  let len := ((S.word 3).toNat + HEADER_LEN : Int).bmod (2 ^ 32)
  if H.alloc S.sck len then { S with sck := H.push S.sck (S.mem.read S.base S.optr len.toNat) } else S

/-- What is left of a message moves to the front of the buffer. -/
def toFront (S : Recv σ) (len : Nat) : Recv σ :=
  let bytes := S.mem.read S.base S.optr len
  { S with
    mem := S.mem.write S.base 0 (if len ≤ S.optr then bytes else (H.overlap bytes).take len)
    optr := 0
    iptr := len }

/-- One turn of the loop of `rtmq_proxy_tsvr_data_proc`: what it returns, `none` to turn again. -/
def dataProcTurn (S : Recv σ) : Recv σ × Option Ret :=
  let len := (S.iptr - S.optr) % 2 ^ 32
  let mesgLen := (HEADER_LEN + (S.ntohl 3).toNat) % 2 ^ 32
  if len < HEADER_LEN ∨ len < mesgLen then
    if S.iptr = size then
      if S.optr < size - S.iptr then (S, some .err) else (toFront H S len, some .ok)
    else (S, some .ok)
  else
    let S := S.rtmqHeadNtoh
    if S.word 4 ≠ RTMQ_CHKSUM_VAL then (S, some .err)
    else
      let S := { S with handed := S.handed ++ [S.mem.read S.base S.optr mesgLen] }
      let S := if S.word 2 = RTMQ_SYS_MESG then rtmqProxyTsvrSysMesgProc H S else rtmqProxyTsvrExpMesgProc H S
      ({ S with optr := S.optr + mesgLen }, none)

/-- The states of `rtmq_proxy_tsvr_recv_proc`, call after call: before a `read` and, with
`true`, where the loop of `rtmq_proxy_tsvr_data_proc` takes a turn. A `read` brings at most
`left` bytes, an `int`. -/
inductive Reached (mem : Blocks) (s : σ) : Bool → Recv σ → Prop
  | init : Reached mem s false (.init mem s)
  | read {S : Recv σ} {chunk : List Byte} : Reached mem s false S → chunk ≠ [] → S.iptr + chunk.length ≤ size →
      (chunk.length : Int) ≤ ((size : Int) - S.iptr).bmod (2 ^ 32) → Reached mem s true (S.readChunk chunk)
  | turn {S S' : Recv σ} : Reached mem s true S → dataProcTurn H size S = (S', none) → Reached mem s true S'
  | ret {S S' : Recv σ} : Reached mem s true S → dataProcTurn H size S = (S', some .ok) → Reached mem s false S'

end ProxyRecv

end BeehiveIm.Rtmq
