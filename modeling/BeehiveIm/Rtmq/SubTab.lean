/-
The subscriptions of the RTMQ server (`rtmq_comm.c`, `rtmq_rsvr.c`): a hash table of the lists of
the message types, whose groups are in an AVL tree and keep their nodes in an array. Both
comparisons take the difference of two unsigned numbers as a signed one of more bits. Memory is
available; a lock is only kept where a call returns without giving it back.
-/
import BeehiveIm.Core.AvlTree
import BeehiveIm.Core.HashTab
import BeehiveIm.Core.Vec

namespace BeehiveIm.Rtmq

open BeehiveIm.Lib BeehiveIm.Core AvlTree Vec

/-- What `rtmq_sub_add` and `rtmq_sub_del` read of an `rtmq_sck_t`. -/
structure Link where
  sid : BitVec 64
  nid : BitVec 32
  gid : BitVec 32
  deriving DecidableEq

/-- `rtmq_sub_node_t` -/
structure SubNode where
  sid : BitVec 64
  nid : BitVec 32

/-- `rtmq_sub_group_t` -/
structure SubGroup where
  gid : BitVec 32
  nodes : Vec SubNode

/-- `rtmq_sub_list_t` -/
structure SubList where
  type : BitVec 32
  groups : AvlTree SubGroup

/-- `(int64_t)(a - b)` of two `uint32_t`. -/
def diff32 (a b : BitVec 32) : Int := (a - b).toNat

theorem diff32_eq_zero (a b : BitVec 32) : diff32 a b = 0 ↔ a = b := by
  rw [diff32, Int.natCast_eq_zero]
  constructor
  · intro h
    have h0 : a - b = 0#32 := BitVec.eq_of_toNat_eq (by simpa using h)
    have := congrArg (· + b) h0
    simpa [BitVec.sub_add_cancel] using this
  · rintro rfl; simp

/-- `rtmq_sub_tab_hash_cb` and `rtmq_sub_tab_cmp_cb` -/
def typeKey : HashKey (BitVec 32) where
  hash type := type.toNat
  cmp := diff32
  cmp_eq_zero := diff32_eq_zero

/-- `rtmq_sub_group_cmp_cb` -/
def rtmqSubGroupCmpCb (gid : BitVec 32) (group : SubGroup) : Int := diff32 gid group.gid

/-- `ctx->sub`; `locked` are the slots whose lock was not given back. -/
structure SubTab where
  tab : HashTab SubList
  locked : Nat → Bool

namespace SubTab

/-- `rtmq_sub_init` -/
def rtmqSubInit : SubTab := ⟨HashTab.hashTabCreat SubList 100, fun _ => false⟩

/-- `rtmq_sub_group_find_sid_cb` -/
def rtmqSubGroupFindSidCb (sid : BitVec 64) (node : SubNode) : Bool := node.sid = sid

/-- `QUERY_SUB_TAB` of `rtmq_sub_add`: the list of the type, created when there is none. -/
def querySubTab : Nat → HashTab SubList → BitVec 32 → Option (HashTab SubList × Option SubList)
  | 0, _, _ => none
  | fuel + 1, tab, type =>
    match typeKey.query SubList.type tab type with
    | none => none
    | some (some list) => some (tab, some list)
    | some none =>
      match typeKey.insert SubList.type tab ⟨type, avlCreat SubGroup⟩ true with
      | none => none
      | some (tab, ret) => if ret = .ok then querySubTab fuel tab type else some (tab, none)

/-- `QUERY_SUB_GROUP` of `rtmq_sub_add`: the group of the gid, created when there is none. -/
def querySubGroup : Nat → AvlTree SubGroup → BitVec 32 → Option (AvlTree SubGroup × SubGroup)
  | 0, _, _ => none
  | fuel + 1, groups, gid =>
    match groups.avlQuery (rtmqSubGroupCmpCb gid) with
    | none => none
    | some (some group) => some (groups, group)
    | some none =>
      match groups.avlInsert (rtmqSubGroupCmpCb gid) ⟨gid, vectorCreat SubNode 512 128⟩ true with
      | none => none
      | some (groups, _) => querySubGroup fuel groups gid

/-- Steps 2 to 4 of `rtmq_sub_add`, on the groups of a list. An inserted group is queried once
more. -/
def addNode (groups : AvlTree SubGroup) (sck : Link) : Option (AvlTree SubGroup) :=
  match querySubGroup 2 groups sck.gid with
  | none => none
  | some (groups, group) =>
    match group.nodes.vectorFind (rtmqSubGroupFindSidCb sck.sid) with
    | some _ => some groups
    | none =>
      match group.nodes.vectorAppend ⟨sck.sid, sck.nid⟩ with
      | none => none
      | some nodes => groups.avlWrite (rtmqSubGroupCmpCb sck.gid) fun group => { group with nodes := nodes }

/-- The slot of a type. -/
def slotOf (S : SubTab) (type : BitVec 32) : Nat := hashIdx S.tab.len (typeKey.hash type)

def writeGroups (S : SubTab) (type : BitVec 32) (groups : AvlTree SubGroup) : Option SubTab :=
  (typeKey.write SubList.type S.tab type fun list => { list with groups := groups }).map fun tab =>
    { S with tab := tab }

/-- `rtmq_sub_add`; answers whether it succeeds. A locked slot is waited for in vain. -/
def rtmqSubAdd (S : SubTab) (sck : Link) (type : BitVec 32) : Option (SubTab × Bool) :=
  if S.locked (S.slotOf type) then none
  else
    match querySubTab 2 S.tab type with
    | none => none
    | some (tab, none) => some ({ S with tab := tab }, false)
    | some (tab, some list) =>
      match addNode list.groups sck with
      | none => none
      | some groups => ({ S with tab := tab }.writeGroups type groups).map (·, true)

/-- The end of `rtmq_sub_del`: a group without nodes goes, and a list without groups. -/
def delNode (S : SubTab) (list : SubList) (type gid : BitVec 32) (nodes : Vec SubNode) : Option SubTab :=
  if nodes.arr.length = 0 then
    match list.groups.avlDelete (rtmqSubGroupCmpCb gid) with
    | none => none
    | some (groups, _) =>
      if groups.num = 0 then
        (typeKey.delete SubList.type S.tab type).map fun (tab, _) => { S with tab := tab }
      else S.writeGroups type groups
  else
    (list.groups.avlWrite (rtmqSubGroupCmpCb gid) fun group => { group with nodes := nodes }).bind
      (S.writeGroups type)

/-- What `rtmq_sub_del` and `rtmq_rsvr_sck_sub_item_free` share; `keep` is whether the lock is kept
when there is a list, but no group. -/
def subRemove (keep : Bool) (S : SubTab) (sck : Link) (type : BitVec 32) : Option SubTab :=
  if S.locked (S.slotOf type) then none
  else
    match typeKey.query SubList.type S.tab type with
    | none => none
    | some none => some S
    | some (some list) =>
      match list.groups.avlQuery (rtmqSubGroupCmpCb sck.gid) with
      | none => none
      | some none => some (if keep then { S with locked := Function.update S.locked (S.slotOf type) true } else S)
      | some (some group) =>
        match group.nodes.vectorFindAndDel (rtmqSubGroupFindSidCb sck.sid) with
        | none => some S
        | some nodes => S.delNode list type sck.gid nodes

/-- `rtmq_sub_del` -/
def rtmqSubDel : SubTab → Link → BitVec 32 → Option SubTab := subRemove true

/-- `rtmq_rsvr_sck_sub_item_free`, for one type of a connection's list. -/
def rtmqRsvrSckSubItemFree : SubTab → Link → BitVec 32 → Option SubTab := subRemove false

/-- The nodes that a message of a type finds in a group. -/
def subNodes (S : SubTab) (type gid : BitVec 32) : Option (List SubNode) :=
  match typeKey.query SubList.type S.tab type with
  | none => none
  | some none => some []
  | some (some list) =>
    (list.groups.avlQuery (rtmqSubGroupCmpCb gid)).map fun group => group.elim [] fun group => group.nodes.arr

end SubTab

end BeehiveIm.Rtmq
