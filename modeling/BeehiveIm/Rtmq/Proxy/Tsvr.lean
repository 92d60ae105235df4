/-
How the C proxy of RTMQ sends (`rtmq_proxy.c`, `rtmq_proxy_tsvr.c`). `rtmq_proxy_async_send` puts a
message into one of the queues; a send thread has one connection at a time and shares its queue with
the threads of the other servers. What the allocator, the lists, the rings and the sockets answer
are arguments. Left out: what is received, but for what it does to the keepalive, and the pipe over
which a thread is told that there is something to send; it does not fail.
-/
import BeehiveIm.Rtmq.Outbox
import BeehiveIm.Rtmq.Proxy

namespace BeehiveIm.Rtmq

open BeehiveIm.Lib BeehiveIm.Core

def RTMQ_EXP_MESG : BitVec 32 := 1

/-- `RTSD_POP_NUM` -/
def RTSD_POP_NUM : Nat := 1024

/-- `rtmq_proxy_conf_t`, as far as sending goes; `addrs` is how many servers there are. -/
structure TsvrConf where
  nid : BitVec 32
  gid : BitVec 32
  usr : List Byte
  passwd : List Byte
  addrs : Nat
  sendThdNum : Nat
  sendqMax : Nat

namespace TsvrConf

variable (conf : TsvrConf)

/-- The message of `rtmq_link_auth_req`; the strings are cut where `snprintf` puts their last
NUL. -/
def authReq : Mesg where
  type := RTMQ_CMD_AUTH_REQ
  nid := conf.nid
  flag := RTMQ_SYS_MESG
  data := beBytes conf.gid ++ (copyInto RTMQ_USR_MAX_LEN (conf.usr.take (RTMQ_USR_MAX_LEN - 1)) ++
    copyInto RTMQ_PWD_MAX_LEN (conf.passwd.take (RTMQ_PWD_MAX_LEN - 1)))

/-- The message of `rtmq_add_sub_req` -/
def subReq (type : BitVec 32) : Mesg := ⟨RTMQ_CMD_SUB_REQ, conf.nid, RTMQ_SYS_MESG, beBytes type⟩

/-- The message of `rtmq_proxy_tsvr_kpalive_req` -/
def kpaliveReq : Mesg := ⟨RTMQ_CMD_KPALIVE_REQ, conf.nid, RTMQ_SYS_MESG, []⟩

end TsvrConf

inductive KpaliveStat where
  | unknown
  | sent
  | succ
  deriving DecidableEq

/-- `rtmq_proxy_tsvr_t` with its socket. `sending` is whether `rtmq_proxy_tsvr_send_data` has taken
the list into the buffer and not called `writev` yet; `past` are the connections that have ended,
each with what had gone out. -/
structure Tsvr where
  qid : Nat
  isOpen : Bool
  kpalive : KpaliveStat
  out : Outbox
  sending : Bool
  past : List Outbox

namespace Tsvr

def ended (x : Tsvr) : Bool := !x.isOpen

/-- The thread is at `epoll_wait`, or with an event. -/
def waits (x : Tsvr) : Bool := x.isOpen && !x.sending

def sends (x : Tsvr) : Bool := x.isOpen && x.sending

end Tsvr

/-- The proxy. `made` are the messages, each at its address, and `freed` the
addresses released, in order. -/
structure ProxySend where
  sendq : List (List Nat)
  tsvrs : List Tsvr
  mem : Heap
  made : List Mesg
  freed : List Nat

/-- Whether there is memory for a message, and for its place in a list. -/
structure Room where
  mem : Bool
  place : Bool
  deriving DecidableEq

inductive TsvrEvent where
  /-- `num` counts the calls; threads may count at once -/
  | asyncSend (type : BitVec 32) (data : List Byte) (num : Nat) (room : Room)
  /-- `ok` is whether the server is reached, `subs` are the types registered, in
  their order in the tree -/
  | reconn (t : Nat) (ok : Bool) (auth : Room) (subs : List (BitVec 32 × Room))
  /-- nothing was written for long enough -/
  | timeout (t : Nat) (room : Room)
  | kpaliveAck (t : Nat)
  /-- the peer is gone, or what it sends is not valid -/
  | recvFail (t : Nat)
  | sendData (t : Nat)
  /-- the thread takes `num` messages from its queue, as many as it found there -/
  | mpop (t num : Nat)
  /-- `n` is how much the socket takes, `none` where `writev` fails -/
  | writev (t : Nat) (n : Option Nat)

namespace ProxySend

def init (conf : TsvrConf) : ProxySend where
  sendq := List.replicate conf.sendThdNum []
  tsvrs := (List.range (conf.addrs * conf.sendThdNum)).map fun idx =>
    ⟨idx % conf.sendThdNum, false, .unknown, .init (2 * conf.sendqMax), false, []⟩
  mem _ := none
  made := []
  freed := []

def setTsvr (S : ProxySend) (t : Nat) (x : Tsvr) : ProxySend := { S with tsvrs := S.tsvrs.set t x }

/-- A message is made. -/
def alloc (S : ProxySend) (m : Mesg) : ProxySend :=
  { S with mem := Function.update S.mem S.made.length (some m.host), made := S.made ++ [m] }

/-- `free` of messages, one after the other. -/
def free (S : ProxySend) (addrs : List Nat) : Option ProxySend :=
  (releaseAll S.mem addrs).map fun mem => { S with mem := mem, freed := S.freed ++ addrs }

/-- `rtmq_proxy_async_send` -/
def rtmqProxyAsyncSend (S : ProxySend) (conf : TsvrConf) (type : BitVec 32) (data : List Byte) (num : Nat)
    (room : Room) : Option ProxySend :=
  if !room.mem then some S
  else
    let addr := S.made.length
    let S := S.alloc ⟨type, conf.nid, RTMQ_EXP_MESG, data⟩
    if !room.place then S.free [addr]
    else
      let idx := num % conf.sendThdNum
      some { S with sendq := S.sendq.modify idx fun q => q ++ [addr] }

/-- A message is made and put into the list of a thread; answers whether it was. -/
def putMesg (t : Nat) (S : ProxySend) (m : Mesg) (room : Room) : Option (ProxySend × Bool) :=
  if !room.mem then some (S, false)
  else
    let addr := S.made.length
    let S := S.alloc m
    if !room.place then (S.free [addr]).map (·, false)
    else some ({ S with tsvrs := S.tsvrs.modify t fun x => { x with out := x.out.push addr } }, true)

/-- `rtmq_proxy_tsvr_clear_mesg` -/
def rtmqProxyTsvrClearMesg (S : ProxySend) (t : Nat) (x : Tsvr) : Option ProxySend :=
  (S.free x.out.mesgList).map fun S => S.setTsvr t { x with out := { x.out with mesgList := [] } }

/-- `rtmq_proxy_tsvr_reconn`; nobody looks at what `rtmq_link_auth_req` and
`rtmq_sub_req` answer. -/
def rtmqProxyTsvrReconn (S : ProxySend) (conf : TsvrConf) (t : Nat) (ok : Bool) (auth : Room)
    (subs : List (BitVec 32 × Room)) : Option ProxySend :=
  if !ok then some S
  else
    let S := { S with tsvrs := S.tsvrs.modify t fun x => { x with isOpen := true, kpalive := .unknown } }
    (S.putMesg t conf.authReq auth).bind fun (S, _) =>
      subs.foldlM (fun S sub => (S.putMesg t (conf.subReq sub.1) sub.2).map Prod.fst) S

/-- `rtmq_proxy_tsvr_del_conn`; the list is cleared by the loop of the thread. -/
def rtmqProxyTsvrDelConn (S : ProxySend) (t : Nat) (x : Tsvr) : Option ProxySend :=
  let r := x.out.send.wiovClean
  (S.free (r.2.map calledAddr)).map fun S => S.setTsvr t
    { x with isOpen := false, sending := false, out := ⟨x.out.mesgList, r.1, [], []⟩, past := x.past ++ [x.out] }

/-- `rtmq_proxy_tsvr_kpalive_req` -/
def rtmqProxyTsvrKpaliveReq (S : ProxySend) (conf : TsvrConf) (t : Nat) (x : Tsvr) (room : Room) : Option ProxySend :=
  if x.kpalive = .sent then S.rtmqProxyTsvrDelConn t x
  else
    (S.putMesg t conf.kpaliveReq room).map fun (S, ok) =>
      if ok then { S with tsvrs := S.tsvrs.modify t fun x => { x with kpalive := .sent } } else S

/-- The loop over `mesg_list` of `rtmq_proxy_tsvr_wiov_add`, with which
`rtmq_proxy_tsvr_send_data` begins. -/
def rtmqProxyTsvrSendData (S : ProxySend) (t : Nat) (x : Tsvr) : Option ProxySend :=
  (if x.out.send.wiovIsfull then some (x.out, S.mem) else x.out.wiovAdd proxyLen S.mem).map fun (out, mem) =>
    { S with mem := mem }.setTsvr t { x with out := out, sending := true }

/-- What a thread has taken out of its queue goes into the buffer. -/
def wiovTake : List Nat → Outbox → Heap → Option (Outbox × Heap)
  | [], o, mem => some (o, mem)
  | addr :: data, o, mem =>
    (wiovLoad proxyLen 1 mem o.send addr).bind fun (mem, W) =>
      wiovTake data { o with send := W, queued := o.queued ++ [addr] } mem

/-- A turn of the loop over `sendq` of `rtmq_proxy_tsvr_wiov_add`. -/
def rtmqProxyTsvrMpop (S : ProxySend) (t : Nat) (x : Tsvr) (num : Nat) : Option ProxySend :=
  match S.sendq[x.qid]? with
  | none => some S
  | some q =>
    -- `wiov_left_space`
    let left := x.out.send.iovMax - x.out.send.iovCnt
    let num := min (min left RTSD_POP_NUM) num
    (wiovTake (q.take num) x.out S.mem).map fun (out, mem) =>
      { S with mem := mem, sendq := S.sendq.set x.qid (q.drop num) }.setTsvr t { x with out := out }

/-- The end of `rtmq_proxy_tsvr_send_data` -/
def rtmqProxyTsvrWritev (S : ProxySend) (t : Nat) (x : Tsvr) (n : Option Nat) : Option ProxySend :=
  if wiovIsempty x.out.send then some (S.setTsvr t { x with sending := false })
  else
    match n with
    | none => S.rtmqProxyTsvrDelConn t x
    | some n =>
      (x.out.writev S.mem n).map fun (out, mem, addrs) =>
        { S with mem := mem, freed := S.freed ++ addrs }.setTsvr t { x with out := out, sending := false }

/-- What a thread does where its connection is as it has to be. -/
def onTsvr (S : ProxySend) (t : Nat) (ok : Tsvr → Bool) (g : Tsvr → Option ProxySend) : Option ProxySend :=
  (S.tsvrs[t]?).elim (some S) fun x => if ok x then g x else some S

/-- A step; `none` where the program ends at an assertion. What does not come to a thread
where it is does not occur. -/
def step (conf : TsvrConf) (S : ProxySend) : TsvrEvent → Option ProxySend
  | .asyncSend type data num room => S.rtmqProxyAsyncSend conf type data num room
  | .reconn t ok auth subs => S.onTsvr t Tsvr.ended fun x =>
      (S.rtmqProxyTsvrClearMesg t x).bind fun S => S.rtmqProxyTsvrReconn conf t ok auth subs
  | .timeout t room => S.onTsvr t Tsvr.waits fun x => S.rtmqProxyTsvrKpaliveReq conf t x room
  | .kpaliveAck t => S.onTsvr t Tsvr.waits fun x => some (S.setTsvr t { x with kpalive := .succ })
  | .recvFail t => S.onTsvr t Tsvr.waits fun x => S.rtmqProxyTsvrDelConn t x
  | .sendData t => S.onTsvr t Tsvr.waits fun x => S.rtmqProxyTsvrSendData t x
  | .mpop t num => S.onTsvr t Tsvr.sends fun x => S.rtmqProxyTsvrMpop t x num
  | .writev t n => S.onTsvr t Tsvr.sends fun x => S.rtmqProxyTsvrWritev t x n

end ProxySend

end BeehiveIm.Rtmq
