/-
How the access layer cuts what a connection receives into packets (`acc_recv_data`). What the socket
has for the `read`s of a call is a list; a connection that is not received well is closed. The
receive buffers are blocks of memory, a new one for each packet. The protocol is a parameter. Left
out: the logs, and the references that keep a block alive (`Core.Mref`).
-/
import BeehiveIm.Lib.Blocks
import Mathlib.Algebra.Group.Nat.Defs

namespace BeehiveIm.Access

open BeehiveIm.Lib

/-- The value of an `int` that is given `n`. -/
def int (n : Int) : Int := n.bmod (2 ^ 32)

def INT_MAX : Nat := 0x7fffffff

inductive Ret where
  | ok
  | err
  | sckAgain
  | sckClose
  deriving DecidableEq

/-- What `acc_recv_data` takes from the configuration and the protocol: the size of a buffer, how
packets are cut, and the `RECEIVE` callback over a state `σ`, and whether it succeeds. `alloc` is
whether a buffer is allocated. -/
structure Protocol (σ : Type) where
  size : Nat
  perPacketHeadSize : Nat
  getPacketBodySize : List Byte → Nat
  receive : σ → List Byte → σ × Bool
  alloc : Nat → Bool

inductive Phase where
  | recvInit
  | recvHead
  | readyBody
  | recvBody
  | recvPost
  deriving DecidableEq

/-- What the socket has for a `read`: bytes, a signal, the end of the stream, a reset or another
error. When there is nothing the `read` would block. -/
inductive Read where
  | data (bytes : List Byte)
  | eintr
  | eof
  | econnreset
  | failed
  deriving DecidableEq

/-- `sck->recv` over the memory, the user's state, and the packets handed to the callback. -/
structure Recv (σ : Type) where
  phase : Phase
  off : Int
  total : Int
  mem : Blocks
  addr : Nat
  user : σ
  received : List (List Byte)

namespace Recv

variable {σ : Type} (P : Protocol σ)

def init (mem : Blocks) (user : σ) : Recv σ where
  phase := .recvInit
  off := 0
  total := 0
  mem := mem
  addr := 0
  user := user
  received := []

/-- The bytes are behind those received. -/
def store (S : Recv σ) (bytes : List Byte) : Recv σ :=
  { S with mem := S.mem.write S.addr S.off.toNat bytes, off := int (S.off + bytes.length) }

/-- The loop of `acc_recv_head` and `acc_recv_body`, up to `total` bytes; `reset` is what a reset
counts for. A `read` of a negative number of bytes fails, one of none succeeds. -/
def recvLoop (total : Int) (reset : Ret) : List Read → Recv σ → Recv σ × List Read × Ret
  | reads, S =>
    let left := int (total - S.off)
    if left = 0 then (S, reads, .ok)
    else if left < 0 then (S, reads, .err)
    else
      match reads with
      | [] => (S, [], .sckAgain)
      | .data bytes :: reads =>
        if bytes.length < left then recvLoop total reset reads (S.store bytes)
        else (S.store (bytes.take left.toNat), .data (bytes.drop left.toNat) :: reads, .ok)
      | .eintr :: reads => recvLoop total reset reads S
      | .eof :: reads => (S, reads, .sckClose)
      | .econnreset :: reads => (S, reads, reset)
      | .failed :: reads => (S, reads, .err)

/-- `acc_recv_head` -/
def accRecvHead (S : Recv σ) (reads : List Read) : Recv σ × List Read × Ret :=
  recvLoop P.perPacketHeadSize .sckClose reads S

/-- `acc_recv_body` -/
def accRecvBody (S : Recv σ) (reads : List Read) : Recv σ × List Read × Ret := recvLoop S.total .err reads S

/-- `get_packet_body_size` of the head in the buffer -/
def bodySize (S : Recv σ) : Nat := P.getPacketBodySize (S.mem.read S.addr 0 P.perPacketHeadSize)

/-- `acc_recv_post_hdl` -/
def accRecvPostHdl (S : Recv σ) : Recv σ × Bool :=
  let packet := S.mem.read S.addr 0 (S.bodySize P + P.perPacketHeadSize)
  let r := P.receive S.user packet
  ({ S with user := r.1, received := S.received ++ [packet] }, r.2)

/-! The phases of `acc_recv_data`, each falling into the next. They give what is left to read and
what the function returns, `none` to go on with the next packet. -/

def recvPost (S : Recv σ) (reads : List Read) : Recv σ × List Read × Option Ret :=
  let r := S.accRecvPostHdl P
  let S := { r.1 with addr := r.1.addr + 1 }
  if r.2 then ({ S with phase := .recvInit }, reads, none) else (S, reads, some .err)

def recvBody (S : Recv σ) (reads : List Read) : Recv σ × List Read × Option Ret :=
  match S.accRecvBody reads with
  | (S, reads, .ok) => recvPost P { S with phase := .recvPost } reads
  | (S, reads, r) => (S, reads, some r)

def readyBody (S : Recv σ) (reads : List Read) : Recv σ × List Read × Option Ret :=
  recvBody P { S with total := int (S.total + S.bodySize P), phase := .recvBody } reads

def recvHead (S : Recv σ) (reads : List Read) : Recv σ × List Read × Option Ret :=
  match S.accRecvHead P reads with
  | (S, reads, .ok) =>
    if S.bodySize P ≠ 0 then readyBody P { S with phase := .readyBody } reads
    else recvPost P { S with phase := .recvPost } reads
  | (S, reads, r) => (S, reads, some r)

def recvInit (S : Recv σ) (reads : List Read) : Recv σ × List Read × Option Ret :=
  if P.size ≠ 0 ∧ P.alloc S.addr then
    recvHead P { S with off := 0, total := int P.perPacketHeadSize, phase := .recvHead } reads
  else (S, reads, some .err)

def turn (S : Recv σ) (reads : List Read) : Recv σ × List Read × Option Ret :=
  match S.phase with
  | .recvInit => S.recvInit P reads
  | .recvHead => S.recvHead P reads
  | .readyBody => S.readyBody P reads
  | .recvBody => S.recvBody P reads
  | .recvPost => S.recvPost P reads

def recvDataLoop : Nat → Recv σ → List Read → Option (Recv σ × Ret)
  | 0, _, _ => none
  | fuel + 1, S, reads =>
    match S.turn P reads with
    | (S, reads, none) => recvDataLoop fuel S reads
    | (S, _, some r) => some (S, r)

/-- The bytes there are to read. -/
def arrived (reads : List Read) : List Byte :=
  reads.flatMap fun
    | .data bytes => bytes
    | _ => []

/-- `acc_recv_data`, when `reads` are there to read; a turn that does not return takes a packet. -/
def accRecvData (S : Recv σ) (reads : List Read) : Option (Recv σ × Ret) :=
  recvDataLoop P ((arrived reads).length + 1) S reads

/-- One call after the other; the connection is closed when one is not received well. -/
def recvAll (S : Recv σ) : List (List Read) → Option (Recv σ × Ret)
  | [] => some (S, .sckAgain)
  | reads :: calls =>
    match S.accRecvData P reads with
    | none => none
    | some (S, .sckAgain) => recvAll S calls
    | some (S, r) => some (S, r)

end Recv

end BeehiveIm.Access
