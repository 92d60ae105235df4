/-
The Go proxy of RTMQ (`lib/rtmq/rtmq_proxy.go`) with the servers it is connected to. A step is one
turn of the `select` of a connection's send routine, or one packet that the server takes off the
wire; the servers are those of `Framing`, frame by frame. Left out: what the proxy receives, but for
what it does to the keepalive.
-/
import BeehiveIm.Rtmq.Framing.Stream

namespace BeehiveIm.Rtmq

open BeehiveIm.Lib

def RTMQ_USR_DATA : BitVec 32 := 1

/-- `ProxyConf`, what the packets carry of it. -/
structure ProxyConf where
  id : BitVec 32
  gid : BitVec 32
  usr : List Byte
  passwd : List Byte

/-- `RtmqPacket` before it is turned to network order; the length in the head is that of the body,
and the check word is fixed. -/
structure RtmqPacket where
  cmd : BitVec 32
  nid : BitVec 32
  flag : BitVec 32
  body : List Byte
  deriving DecidableEq

/-- `copy` into an array of `n` zero bytes. -/
def copyInto (n : Nat) (src : List Byte) : List Byte := (src ++ List.replicate n 0).take n

namespace ProxyConf

variable (conf : ProxyConf)

/-- The user name and the password as `rtmq_set_auth_req` writes them. -/
def usrPasswd : List Byte := copyInto RTMQ_USR_MAX_LEN conf.usr ++ copyInto RTMQ_PWD_MAX_LEN conf.passwd

/-- The packet of `auth` -/
def authReq : RtmqPacket := ⟨RTMQ_CMD_AUTH_REQ, conf.id, RTMQ_SYS_MESG, beBytes conf.gid ++ conf.usrPasswd⟩

/-- A packet of `subscribe` -/
def subReq (cmd : BitVec 32) : RtmqPacket := ⟨RTMQ_CMD_SUB_REQ, conf.id, RTMQ_SYS_MESG, beBytes cmd⟩

/-- The packet of `keepalive` -/
def kpaliveReq : RtmqPacket := ⟨RTMQ_CMD_KPALIVE_REQ, conf.id, RTMQ_SYS_MESG, []⟩

/-- The packet of `AsyncSend` -/
def userData (cmd : BitVec 32) (data : List Byte) (length : BitVec 32) : RtmqPacket :=
  ⟨cmd, conf.id, RTMQ_USR_DATA, copyInto length.toNat data⟩

end ProxyConf

/-! ## The server's side of a connection -/

/-- `rtmq_sck_t`: `usrs` is the table that `rtmq_link_auth_check` looks the user and the
password up in. `answers` is what the rest of the server answers: whether there is memory, or
place in a table or a queue. -/
structure ServerSck where
  authSucc : Bool
  nid : BitVec 32
  usrs : List Byte → Bool
  answers : List Bool

namespace ServerSck

/-- The next answer; after the last one all goes well. -/
def answer (s : ServerSck) : ServerSck × Bool := ({ s with answers := s.answers.tail }, s.answers.headD true)

/-- `rtmq_rsvr_link_auth_req_hdl` behind the check of the gid; the node map and the answer to the
proxy are one question here. -/
def linkAuth (s : ServerSck) (nid : BitVec 32) (usrPasswd : List Byte) : ServerSck × Bool :=
  if s.usrs usrPasswd then { s with authSucc := true, nid := nid }.answer
  else { s with authSucc := false }.answer

end ServerSck

/-- The server's handlers over the connection's `rtmq_sck_t`. -/
def rsvrHandlers : Handlers ServerSck where
  authSucc s := s.authSucc
  nid s := s.nid
  linkAuth s nid _ usrPasswd := s.linkAuth nid usrPasswd
  keepalive s := s.answer
  sub s _ := s.answer
  queueMalloc s := s.answer
  alloc _ := true

/-- The frame of a packet that fits the server's receive buffer. -/
def RtmqPacket.frame (p : RtmqPacket) : Option Frame :=
  if h : HEADER_LEN + p.body.length ≤ RTMQ_BUFF_SIZE then some ⟨p.cmd, p.nid, p.flag, p.body, h⟩ else none

/-- What the server has made of a connection: `dropped` are the user messages that came while it
was not authenticated. -/
structure FedLink where
  fed : Fed ServerSck
  dropped : List Frame

/-- The server takes the next packet. One that does not fit the buffer ends the connection. -/
def FedLink.deliver (L : FedLink) (p : RtmqPacket) : FedLink :=
  match p.frame with
  | none => { L with fed := { L.fed with ok := false } }
  | some f =>
    { fed := L.fed.deliver rsvrHandlers f
      dropped := if L.fed.ok ∧ f.flag ≠ RTMQ_SYS_MESG ∧ L.fed.sck.authSucc = false then L.dropped ++ [f]
        else L.dropped }

/-! ## The proxy -/

/-- `ProxyConn` once `send_routine` runs. `written` are the packets written whole, `wire` those of
them that the server has not taken yet. -/
structure ProxyConn where
  mesgq : List RtmqPacket
  isClose : Bool
  kpaliveTimes : Nat
  kpaliveSent : Bool
  written : List RtmqPacket
  wire : List RtmqPacket
  link : FedLink

/-- The length of `mesgq` -/
def MESGQ_LEN : Nat := 1000

namespace ProxyConn

/-- `c.conn.Write` of the head and the body; `ok` is whether both are written. A send that fails
closes the connection. -/
def write (c : ProxyConn) (p : RtmqPacket) (ok : Bool) : ProxyConn :=
  if ok ∧ c.isClose = false then { c with written := c.written ++ [p], wire := c.wire ++ [p] }
  else { c with isClose := true }

/-- The turn that takes from `mesgq`; when it is empty and closed, what it answers crashes the
routine. -/
def mesgTurn (c : ProxyConn) (ok : Bool) : ProxyConn :=
  match c.mesgq with
  | [] => c
  | p :: mesgq => { c with mesgq := mesgq }.write p ok

/-- The turn after 30 seconds: `keepalive`. When `mesgq` is full it waits. -/
def timerTurn (conf : ProxyConf) (c : ProxyConn) : ProxyConn :=
  if c.isClose then c
  else if c.kpaliveTimes > 3 ∧ c.kpaliveSent then { c with isClose := true }
  else if c.mesgq.length < MESGQ_LEN then
    { c with mesgq := c.mesgq ++ [conf.kpaliveReq], kpaliveTimes := c.kpaliveTimes + 1, kpaliveSent := true }
  else c

/-- `recv_routine` has got a packet. -/
def recv (c : ProxyConn) : ProxyConn := { c with kpaliveTimes := 0, kpaliveSent := false }

/-- The server takes a packet off the wire. -/
def serve (c : ProxyConn) : ProxyConn :=
  match c.wire with
  | [] => c
  | p :: wire => { c with wire := wire, link := c.link.deliver p }

end ProxyConn

/-- The connections over one queue of user data: those of the addresses, and the later
ones to the same address. -/
structure Proxy where
  sendq : List RtmqPacket
  conns : List ProxyConn

/-- `ok` in `asyncSend` is whether there is place in `sendq` within a second. `cmds` are the types
registered, in the order the map is ranged over. -/
inductive ProxyEvent where
  | asyncSend (cmd : BitVec 32) (data : List Byte) (length : BitVec 32) (ok : Bool)
  | connect (cmds : List (BitVec 32)) (sck : ServerSck)
  | mesgq (k : Nat) (ok : Bool)
  | sendq (k : Nat) (ok : Bool)
  | timer (k : Nat)
  | recv (k : Nat)
  | close (k : Nat)
  | serve (k : Nat)

namespace Proxy

def init : Proxy := ⟨[], []⟩

/-- `Start`: `auth` and `subscribe` fill `mesgq` before `send_routine` runs; with more types than it
holds they wait for ever. The server's `auth_succ` is false at first. -/
def connect (P : Proxy) (conf : ProxyConf) (cmds : List (BitVec 32)) (sck : ServerSck) : Proxy :=
  if cmds.length + 1 ≤ MESGQ_LEN then
    { P with conns := P.conns ++ [
      { mesgq := conf.authReq :: cmds.map conf.subReq
        isClose := false
        kpaliveTimes := 0
        kpaliveSent := false
        written := []
        wire := []
        link := ⟨Fed.init { sck with authSucc := false }, []⟩ }] }
  else P

def onConn (P : Proxy) (k : Nat) (g : ProxyConn → ProxyConn) : Proxy := { P with conns := P.conns.modify k g }

/-- The turn of connection `k` that takes from `sendq`. -/
def sendTurn (P : Proxy) (k : Nat) (ok : Bool) : Proxy :=
  match P.conns[k]?, P.sendq with
  | some _, p :: sendq => { P with sendq := sendq }.onConn k fun c => c.write p ok
  | _, _ => P

def step (conf : ProxyConf) (P : Proxy) : ProxyEvent → Proxy
  | .asyncSend cmd data length ok =>
    if ok then { P with sendq := P.sendq ++ [conf.userData cmd data length] } else P
  | .connect cmds sck => P.connect conf cmds sck
  | .mesgq k ok => P.onConn k fun c => c.mesgTurn ok
  | .sendq k ok => P.sendTurn k ok
  | .timer k => P.onConn k fun c => c.timerTurn conf
  | .recv k => P.onConn k ProxyConn.recv
  | .close k => P.onConn k fun c => { c with isClose := true }
  | .serve k => P.onConn k ProxyConn.serve

def run (conf : ProxyConf) (events : List ProxyEvent) : Proxy := events.foldl (step conf) init

end Proxy

end BeehiveIm.Rtmq
