/-
How the client cuts what it receives into messages (`sdk_ssvr_recv_proc`, `sdk_ssvr_data_proc`),
over the bytes. The receive buffer is a block of memory and the pointers of `sdk_snap_t` are offsets
into it; `memcpy` copies parts that overlap as `memmove` does. What the handlers do outside the
receive path is a parameter: a handler is given the address of a header in host order, and goes by
the length in it. Left out: the logs, the clock and the counters.
-/
import BeehiveIm.Lib.Blocks
import BeehiveIm.Sdk

namespace BeehiveIm.Sdk

open BeehiveIm.Lib

inductive Ret where
  | ok
  | err
  | disconn
  deriving DecidableEq

/-- The rest of the client over a state `σ`: the handlers, and whether `sdk_ack_succ_hdl` has found
the request and whether `sdk_mesg_online_ack_handler` succeeds. -/
structure Handlers (σ : Type) where
  ackSucc : σ → (ack : List Byte) → σ × Bool
  pong : σ → σ
  ping : σ → σ
  onlineAck : σ → (addr : List Byte) → σ × Bool
  exp : σ → (addr : List Byte) → σ
  offline : σ → σ

/-- What a handler is given: the message from its header to the end that the header names, and how
many of these bytes and those behind them had been received. -/
structure Given where
  addr : List Byte
  total : Nat
  received : Nat

/-- The message does not extend beyond the bytes received. -/
def Given.Within (g : Given) : Prop := g.total ≤ g.received

instance (g : Given) : Decidable g.Within := inferInstanceAs (Decidable (_ ≤ _))

/-- `sck->recv`, the state of the rest, and what has been given to the handlers. -/
structure Recv (σ : Type) where
  mem : Blocks
  size : Nat
  optr : Nat
  iptr : Nat
  sck : σ
  given : List Given

/-- The sizes of type, length, sid, cid, nid, seq, dsid and dseq, packed. -/
def headFields : List Nat := [4, 4, 8, 8, 4, 8, 8, 8]

/-- `sdk_is_sys_mesg` -/
def sdkIsSysMesg (cmd : BitVec 32) : Bool := cmd.toNat = CMD_PING ∨ cmd.toNat = CMD_PONG ∨ cmd.toNat = CMD_ONLINE_ACK

namespace Recv

variable {σ : Type} (H : Handlers σ)

/-- `sdk_snap_setup` -/
def init (mem : Blocks) (size : Nat) (sck : σ) : Recv σ where
  mem := mem
  size := size
  optr := 0
  iptr := 0
  sck := sck
  given := []

/-- `n` bytes from the offset `o` of the data. -/
def bytes (S : Recv σ) (o n : Nat) : List Byte := S.mem.read 0 (S.optr + o) n

/-- `ntohl` of the word at the offset `o` of the data. -/
def ntohl (S : Recv σ) (o : Nat) : BitVec 32 := beWord (S.bytes o 4)

/-- The word at the offset `o` of the data. -/
def word (S : Recv σ) (o : Nat) : BitVec 32 := leWord (S.bytes o 4)

/-- A field is turned from network to host order, where it lies. -/
def swap (S : Recv σ) (o n : Nat) : Recv σ := { S with mem := S.mem.write 0 (S.optr + o) (S.bytes o n).reverse }

def ntohFrom (S : Recv σ) (o : Nat) : List Nat → Recv σ
  | [] => S
  | n :: ns => (S.swap o n).ntohFrom (o + n) ns

/-- `MESG_HEAD_NTOH(head, head)` -/
def mesgHeadNtoh (S : Recv σ) : Recv σ := S.ntohFrom 0 headFields

/-- `sdk_sys_mesg_proc` -/
def sdkSysMesgProc (S : Recv σ) (addr : List Byte) : Recv σ × Bool :=
  let type := (S.word 0).toNat
  if type = CMD_PONG then ({ S with sck := H.pong S.sck }, true)
  else if type = CMD_PING then ({ S with sck := H.ping S.sck }, true)
  else if type = CMD_ONLINE_ACK then
    let r := H.onlineAck S.sck addr
    ({ S with sck := r.1 }, r.2)
  else (S, false)

/-- The end of a turn of `sdk_ssvr_data_proc`: the message, its header in host order, goes to its
handler, and the pointer of the data over it. -/
def handOn (S : Recv σ) (mesgLen : Nat) : Recv σ × Option Ret :=
  let total := mesgHeaderSize + (S.word 4).toNat
  let addr := S.bytes 0 total
  let r := H.ackSucc S.sck addr
  let S := { S with sck := r.1, given := S.given ++ [Given.mk addr total (S.iptr - S.optr)] }
  if r.2 then ({ S with optr := S.optr + mesgLen }, none)
  else if sdkIsSysMesg (S.word 0) then
    let r := S.sdkSysMesgProc H addr
    if r.2 then ({ r.1 with optr := r.1.optr + mesgLen }, none) else (r.1, some .err)
  else ({ S with sck := H.exp S.sck addr, optr := S.optr + mesgLen }, none)

/-- One turn of the loop of `sdk_ssvr_data_proc`: what it returns, `none` to turn again. Both
lengths are words of 32 bits. -/
def dataProcTurn (S : Recv σ) : Recv σ × Option Ret :=
  let len := (S.iptr - S.optr) % 2 ^ 32
  let mesgLen := (mesgHeaderSize + (S.ntohl 4).toNat) % 2 ^ 32
  if len < mesgHeaderSize ∨ len < mesgLen then
    if S.iptr = S.size then
      if S.optr < S.size - S.iptr then (S, some .err)
      else ({ S with mem := S.mem.write 0 0 (S.bytes 0 len), optr := 0, iptr := len }, some .ok)
    else (S, some .ok)
  else S.mesgHeadNtoh.handOn H mesgLen

def dataProcLoop : Nat → Recv σ → Option (Recv σ × Ret)
  | 0, _ => none
  | fuel + 1, S =>
    match S.dataProcTurn H with
    | (S, none) => dataProcLoop fuel S
    | (S, some r) => some (S, r)

/-- `sdk_ssvr_data_proc`; when a turn takes nothing, the length has been turned round and
the next takes something. -/
def sdkSsvrDataProc (S : Recv σ) : Option (Recv σ × Ret) := dataProcLoop H (2 * (S.iptr - S.optr) + 2) S

/-- `read` of a chunk that fits. -/
def readChunk (S : Recv σ) (chunk : List Byte) : Recv σ :=
  { S with mem := S.mem.write 0 S.iptr chunk, iptr := S.iptr + chunk.length }

/-- The connection is closed, and the buffer is set back. -/
def close (S : Recv σ) : Recv σ := { S with optr := 0, iptr := 0, sck := H.offline S.sck }

/-- `sdk_ssvr_recv_proc` when `chunk` has arrived: it reads until the socket has nothing left.
The count is an `int`: a `read` of no byte is taken for the end of the connection, and one of
a negative count fails. -/
def recvProcLoop : Nat → Recv σ → List Byte → Option (Recv σ × Ret)
  | _, S, [] => some (S, .ok)
  | 0, _, _ :: _ => none
  | fuel + 1, S, chunk@(_ :: _) =>
    let left := (BitVec.ofNat 32 (S.size - S.iptr)).toInt
    if left = 0 then some (S.close H, .disconn)
    else if left < 0 then some (S.close H, .err)
    else
      match (S.readChunk (chunk.take left.toNat)).sdkSsvrDataProc H with
      | none => none
      | some (S, .ok) => recvProcLoop fuel S (chunk.drop left.toNat)
      | some (S, _) => some (S.close H, .err)

def sdkSsvrRecvProc (S : Recv σ) (chunk : List Byte) : Option (Recv σ × Ret) := recvProcLoop H chunk.length S chunk

/-- The chunks arrive one after the other; no more is received from a connection that is closed. -/
def recvAll (S : Recv σ) : List (List Byte) → Option (Recv σ × Ret)
  | [] => some (S, .ok)
  | chunk :: chunks =>
    match S.sdkSsvrRecvProc H chunk with
    | none => none
    | some (S, .ok) => recvAll S chunks
    | some (S, r) => some (S, r)

end Recv

end BeehiveIm.Sdk
