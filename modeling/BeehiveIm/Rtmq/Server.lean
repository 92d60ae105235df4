/-
The receive server of RTMQ (`rtmq_rsvr.c`): the connections of its threads, the table of their
subscriptions, and the map from a node to the threads that serve it (`rtmq_comm.c`). A request
that a handler refuses closes its connection. A connection that is freed takes its subscriptions
out of the table one by one; the threads share the table, so that events of other connections may
come between two of them.
-/
import BeehiveIm.Core.AvlTree
import BeehiveIm.Core.HashTab.Slots
import BeehiveIm.Rtmq.SubTab

namespace BeehiveIm.Rtmq

open BeehiveIm.Core AvlTree

/-- `rtmq_node_to_svr_map_t`: the threads that serve a node, an entry for each of its
connections. -/
structure NodeToSvrMap where
  nid : BitVec 32
  rsvrId : List Nat
deriving DecidableEq

/-- `rtmq_node_to_svr_map_cmp_cb` -/
def rtmqNodeToSvrMapCmpCb (nid : BitVec 32) (map : NodeToSvrMap) : Int := (nid - map.nid).toInt

/-- `RTRD_NODE_TO_SVR_MAX_LEN` -/
def nodeToSvrMaxLen : Nat := 32

/-- `rtmq_node_to_svr_map_add`; answers whether it succeeds. The item that is inserted
has its entry already. -/
def rtmqNodeToSvrMapAdd (maps : AvlTree NodeToSvrMap) (nid : BitVec 32) (rsvrId : Nat) :
    Option (AvlTree NodeToSvrMap × Bool) :=
  match maps.avlQuery (rtmqNodeToSvrMapCmpCb nid) with
  | none => none
  | some none =>
    (maps.avlInsert (rtmqNodeToSvrMapCmpCb nid) ⟨nid, [rsvrId]⟩ true).map fun (maps, ret) => (maps, ret = .ok)
  | some (some map) =>
    if nodeToSvrMaxLen ≤ map.rsvrId.length then some (maps, false)
    else
      (maps.avlWrite (rtmqNodeToSvrMapCmpCb nid) fun map => { map with rsvrId := map.rsvrId ++ [rsvrId] }).map (·, true)

/-- `rtmq_node_to_svr_map_del`; an item without entries goes. -/
def rtmqNodeToSvrMapDel (maps : AvlTree NodeToSvrMap) (nid : BitVec 32) (rsvrId : Nat) :
    Option (AvlTree NodeToSvrMap) :=
  match maps.avlQuery (rtmqNodeToSvrMapCmpCb nid) with
  | none => none
  | some none => some maps
  | some (some map) =>
    match Vec.delFirst (fun r => r = rsvrId) map.rsvrId with
    | none => some maps
    | some [] => (maps.avlDelete (rtmqNodeToSvrMapCmpCb nid)).map Prod.fst
    | some rsvrId => maps.avlWrite (rtmqNodeToSvrMapCmpCb nid) fun map => { map with rsvrId := rsvrId }

/-- `rtmq_sck_t`, as far as its node and its subscriptions go. `frees` are the types that
`rtmq_rsvr_sck_free` still has to take out, once the connection is closed. -/
structure Server.Sck where
  sid : BitVec 64
  rsvrId : Nat
  nid : BitVec 32
  gid : BitVec 32
  authSucc : Bool
  subList : AvlTree (BitVec 32)
  frees : Option (List (BitVec 32))

/-- `conns` are the connections that have not been freed. -/
structure Server where
  sub : SubTab
  nodeToSvrMap : AvlTree NodeToSvrMap
  conns : List Server.Sck

namespace Server

/-- What comes in on the connections; `valid` is what `rtmq_link_auth_check` says. The listener
gives every connection a sid of its own. -/
inductive LinkEvent where
  | addConn (sid : BitVec 64) (rsvrId : Nat)
  | linkAuthReq (sid : BitVec 64) (nid gid : BitVec 32) (valid : Bool)
  | delConn (sid : BitVec 64)

inductive Event where
  | link (e : LinkEvent)
  | subReq (sid : BitVec 64) (type : BitVec 32)
  | subItemFree (sid : BitVec 64)

/-- `rtmq_rsvr_sck_creat` -/
def rtmqRsvrSckCreat (sid : BitVec 64) (rsvrId : Nat) : Sck := ⟨sid, rsvrId, -1, 0, false, avlCreat (BitVec 32), none⟩

/-- What a link-auth request sets in the connection. -/
def linkAuth (nid gid : BitVec 32) (valid : Bool) (sck : Sck) : Sck :=
  { sck with gid := gid, authSucc := valid, nid := if valid then nid else sck.nid }

/-- `rtmq_rsvr_sck_add_sub`, with `rtmq_sub_list_cmp_cb`; answers whether it succeeds. -/
def rtmqRsvrSckAddSub (subList : AvlTree (BitVec 32)) (type : BitVec 32) : Option (AvlTree (BitVec 32) × Bool) :=
  match subList.avlQuery (diff32 type) with
  | none => none
  | some (some _) => some (subList, true)
  | some none => (subList.avlInsert (diff32 type) type true).map fun (subList, ret) => (subList, ret = .ok)

/-- The connection as the table sees it. -/
def link (sck : Sck) : Link := ⟨sck.sid, sck.nid, sck.gid⟩

def init : Server := ⟨SubTab.rtmqSubInit, avlCreat NodeToSvrMap, []⟩

def find (s : Server) (sid : BitVec 64) : Option Sck := lookup Sck.sid s.conns sid

/-- The connection, if it is not closed. -/
def opened (s : Server) (sid : BitVec 64) : Option Sck := (s.find sid).filter fun sck => sck.frees.isNone

def setSck (s : Server) (sid : BitVec 64) (g : Sck → Sck) : Server := { s with conns := writeAt Sck.sid sid g s.conns }

/-- `rtmq_rsvr_del_conn_hdl`, to where `rtmq_rsvr_sck_free` begins with the subscriptions. -/
def rtmqRsvrDelConnHdl (s : Server) (sck : Sck) : Option Server :=
  match rtmqNodeToSvrMapDel s.nodeToSvrMap sck.nid sck.rsvrId, sck.subList.avlDestroy with
  | some maps, some types =>
    some ({ s with nodeToSvrMap := maps }.setSck sck.sid fun sck => { sck with frees := types })
  | _, _ => none

/-- `rtmq_rsvr_link_auth_req_hdl`; answers whether it succeeds. -/
def rtmqRsvrLinkAuthReqHdl (s : Server) (sck : Sck) (nid gid : BitVec 32) (valid : Bool) : Option (Server × Bool) :=
  if gid = 0 then some (s, false)
  else if valid then
    (rtmqNodeToSvrMapAdd s.nodeToSvrMap nid sck.rsvrId).map fun (maps, ret) =>
      ({ s with nodeToSvrMap := maps }.setSck sck.sid (linkAuth nid gid valid), ret)
  else some (s.setSck sck.sid (linkAuth nid gid valid), true)

/-- `rtmq_rsvr_sub_req_hdl`; answers whether it succeeds. -/
def rtmqRsvrSubReqHdl (s : Server) (sck : Sck) (type : BitVec 32) : Option (Server × Bool) :=
  if !sck.authSucc then some (s, false)
  else
    match s.sub.rtmqSubAdd (link sck) type with
    | none => none
    | some (sub, false) => some ({ s with sub := sub }, false)
    | some (sub, true) =>
      match rtmqRsvrSckAddSub sck.subList type with
      | none => none
      | some (subList, true) =>
        some ({ s with sub := sub }.setSck sck.sid fun sck => { sck with subList := subList }, true)
      | some (_, false) => (sub.rtmqSubDel (link sck) type).map fun sub => ({ s with sub := sub }, false)

/-- `rtmq_rsvr_trav_recv`, after `rtmq_rsvr_recv_proc`: where a handler has failed,
the connection is closed. -/
def recvProc (sid : BitVec 64) : Server × Bool → Option Server
  | (s, true) => some s
  | (s, false) => (s.find sid).elim (some s) s.rtmqRsvrDelConnHdl

/-- An event; one of a connection that is not there does not occur. -/
def stepLink (s : Server) : LinkEvent → Option Server
  | .addConn sid rsvrId =>
    match s.find sid with
    | none => some { s with conns := s.conns ++ [rtmqRsvrSckCreat sid rsvrId] }
    | some _ => some s
  | .linkAuthReq sid nid gid valid =>
    match s.opened sid with
    | none => some s
    | some sck => (s.rtmqRsvrLinkAuthReqHdl sck nid gid valid).bind (recvProc sid)
  | .delConn sid =>
    match s.opened sid with
    | none => some s
    | some sck => s.rtmqRsvrDelConnHdl sck

/-- A connection that is closed takes its subscriptions out, one at a time, and is freed. -/
def step (s : Server) : Event → Option Server
  | .link e => s.stepLink e
  | .subReq sid type =>
    match s.opened sid with
    | none => some s
    | some sck => (s.rtmqRsvrSubReqHdl sck type).bind (recvProc sid)
  | .subItemFree sid =>
    match s.find sid with
    | none => some s
    | some sck =>
      match sck.frees with
      | none => some s
      | some [] => some { s with conns := without Sck.sid s.conns sid }
      | some (type :: types) =>
        (s.sub.rtmqRsvrSckSubItemFree (link sck) type).map fun sub =>
          { s with sub := sub }.setSck sid fun sck => { sck with frees := types }

/-! ## Connections -/

variable {s : Server} {sid : BitVec 64} {sck : Sck}

theorem find_mem (h : s.find sid = some sck) : sck ∈ s.conns ∧ sck.sid = sid := lookup_mem h

theorem opened_eq_some : s.opened sid = some sck ↔ s.find sid = some sck ∧ sck.frees = none := by
  unfold opened
  rw [Option.filter_eq_some_iff, Option.isNone_iff_eq_none]

theorem find_setSck {g : Sck → Sck} (hg : ∀ sck, (g sck).sid = sck.sid) :
    (s.setSck sid g).find sid = (s.find sid).map g := by
  unfold find setSck
  rw [lookup_writeAt hg, if_pos rfl]

end Server

end BeehiveIm.Rtmq
