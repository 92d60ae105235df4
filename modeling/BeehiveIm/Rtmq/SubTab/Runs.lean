/-
Runs of `rtmq_sub_add` and `rtmq_sub_del`. As long as no slot gets a third type and no
list a third group, the table stores exactly the subscriptions that were added and not
deleted since, and finds them.
-/
import BeehiveIm.Rtmq.SubTab.Lists

namespace BeehiveIm.Rtmq.SubTab

open BeehiveIm.Lib BeehiveIm.Core AvlTree Vec

/-- The types of the table's lists, each with its groups, in the order of the traversals. -/
def stored (S : SubTab) : Option (List (BitVec 32 × List SubGroup)) :=
  S.tab.hashTabTrav.bind fun lists => lists.mapM fun list => list.groups.avlTrav.map fun groups => (list.type, groups)

/-- Lists and groups that have the subscriptions `live`: one list for a type, one group for a gid,
one node for a session. -/
structure Stores (lists : List (BitVec 32 × List SubGroup)) (live : Finset Sub) : Prop where
  types : (lists.map Prod.fst).Nodup
  gids : ∀ list ∈ lists, (list.2.map SubGroup.gid).Nodup
  sids : ∀ list ∈ lists, ∀ group ∈ list.2, (group.nodes.arr.map SubNode.sid).Nodup
  mem : ∀ type gid node, membersOf live type gid node ↔
    ∃ list ∈ lists, list.1 = type ∧ ∃ group ∈ list.2, group.gid = gid ∧ node ∈ group.nodes.arr

/-- The table is the relation of the subscriptions, as it is stored and as it is found. -/
structure Exact (S : SubTab) (live : Finset Sub) : Prop where
  stores : ∃ lists, S.stored = some lists ∧ Stores lists live
  finds : ∀ type gid, ∃ nodes, S.subNodes type gid = some nodes ∧ ∀ node, node ∈ nodes ↔ membersOf live type gid node

/-- A third group would hide the first one. -/
def GroupFits (live : Finset Sub) (type gid : BitVec 32) : Prop :=
  (∀ x ∈ live, ¬(x.type = type ∧ x.gid = gid)) → ((live.filter fun x => x.type = type).image Sub.gid).card ≤ 1

instance (live : Finset Sub) (type gid : BitVec 32) : Decidable (GroupFits live type gid) :=
  inferInstanceAs (Decidable (_ → _))

/-- A call that the table can take: its slot is not locked, and the slot, the list
and the group have room. -/
def Takes (h : SubTab × Finset Sub) : Call → Prop
  | .add sck type => h.1.locked (h.1.slotOf type) = false ∧ h.1.TypeFits h.2 type ∧ GroupFits h.2 type sck.gid ∧
    NodeFits h.2 sck type
  | .del _ type => h.1.locked (h.1.slotOf type) = false

instance (h : SubTab × Finset Sub) : ∀ c : Call, Decidable (Takes h c)
  | .add _ _ => @instDecidableAnd _ _ (instDecidableEqBool _ false) inferInstance
  | .del _ _ => instDecidableEqBool _ false

variable {D : AvlTree SubGroup → List SubGroup → Prop} {Ok : AvlTree SubGroup → List SubGroup → BitVec 32 → Prop}
  {Fit : List SubGroup → Prop} {S : SubTab} {lists : List SubList} {live : Finset Sub} {sck : Link}
  {type gid : BitVec 32}

/-! ## What the table stores -/

theorem mapM_eq_some {α β : Type} {f : α → Option β} {g : α → β} : ∀ {l : List α}, (∀ x ∈ l, f x = some (g x)) →
    l.mapM f = some (l.map g)
  | [], _ => rfl
  | x :: l, h => by
    rw [List.mapM_cons, h x List.mem_cons_self, mapM_eq_some fun y hy => h y (List.mem_cons_of_mem _ hy)]
    rfl

theorem Keeps.stores (K : Keeper D Ok Fit) (h : Keeps D S lists live) : ∃ l, S.stored = some l ∧ Stores l live := by
  obtain ⟨F, htrav, hperm, -⟩ := Slotted.trav h.few
  generalize (List.range S.tab.len).flatMap F = trav at htrav hperm
  choose! G hG using h.kept
  have hgroups : ∀ list ∈ trav, (list.groups.avlTrav.map fun groups => (list.type, groups)) =
      some (list.type, G list) := by
    intro list hl
    rw [K.trav (hG list (hperm.mem_iff.1 hl)).2.drawn]
    rfl
  have hstored : S.stored = some (trav.map fun list => (list.type, G list)) := by
    rw [stored, htrav]
    exact mapM_eq_some hgroups
  refine ⟨_, hstored, ?_, ?_, ?_, fun type gid node => ?_⟩
  · rw [List.map_map]
    exact (hperm.map SubList.type).nodup_iff.2 h.few.nodup
  · intro l hl
    obtain ⟨list, hlist, rfl⟩ := List.mem_map.1 hl
    exact K.gids (hG list (hperm.mem_iff.1 hlist)).2.drawn
  · intro l hl group hgroup
    obtain ⟨list, hlist, rfl⟩ := List.mem_map.1 hl
    exact ((hG list (hperm.mem_iff.1 hlist)).2.filled group hgroup).sids
  · constructor
    · intro hlive
      obtain ⟨list, hl, rfl⟩ := h.listed _ hlive
      have hl' := List.mem_map_of_mem (f := fun list => (list.type, G list)) (hperm.mem_iff.2 hl)
      exact ⟨_, hl', rfl, ((hG list hl).2.members gid node).1 hlive⟩
    · rintro ⟨l, hl, rfl, hgroup⟩
      obtain ⟨list, hlist, rfl⟩ := List.mem_map.1 hl
      exact ((hG list (hperm.mem_iff.1 hlist)).2.members gid node).2 hgroup

theorem Keeps.subNodes (K : Keeper D Ok Fit) (h : Keeps D S lists live)
    (hok : ∀ list ∈ lists, list.type = type → ∀ G, Kept D list.groups G (membersOf live type) → Ok list.groups G gid) :
    ∃ nodes, S.subNodes type gid = some nodes ∧ ∀ node, node ∈ nodes ↔ membersOf live type gid node := by
  rw [SubTab.subNodes, h.few.query typeKey_oneSided (typeKey_hashOk ..)]
  cases hlookup : lookup SubList.type lists type with
  | none =>
    refine ⟨[], rfl, fun node => iff_of_false (by simp) fun hlive => ?_⟩
    exact h.lookup_eq_none.1 hlookup _ hlive rfl
  | some list =>
    obtain ⟨hl, rfl⟩ := lookup_mem hlookup
    obtain ⟨G, -, hkept⟩ := h.kept list hl
    dsimp only
    rw [K.query hkept.drawn (hok list hl rfl G hkept)]
    cases hfind : findBy (rtmqSubGroupCmpCb gid) G with
    | none =>
      refine ⟨[], rfl, fun node => iff_of_false (by simp) fun hlive => ?_⟩
      obtain ⟨g, hg, hgid, -⟩ := (hkept.members gid node).1 hlive
      exact findBy_none.1 hfind g hg hgid
    | some g =>
      obtain ⟨hg, rfl⟩ := findBy_some hfind
      exact ⟨g.nodes.arr, rfl, fun node => (hkept.members.iff_mem (K.gids hkept.drawn) hg).symm⟩

theorem Keeps.exact (h : Keeps Spined S lists live) : Exact S live :=
  ⟨h.stores spined_keeper, fun _ _ => h.subNodes spined_keeper fun _ _ _ _ _ => trivial⟩

/-! ## Runs -/

/-- A list that has no group of a gid has one group at most. -/
theorem GroupFits.length_le (h : GroupFits live type gid) {T : AvlTree SubGroup} {G : List SubGroup}
    (hkept : Kept D T G (membersOf live type)) (hgids : Gids G) (hno : ∀ g ∈ G, g.gid ≠ gid) : G.length ≤ 1 := by
  refine le_trans ?_ (h ?_)
  · rw [← List.length_map (f := SubGroup.gid), ← List.toFinset_card_of_nodup hgids]
    refine Finset.card_le_card fun gid' hgid => ?_
    obtain ⟨g, hg, rfl⟩ := List.mem_map.1 (List.mem_toFinset.1 hgid)
    obtain ⟨node, hnode⟩ := List.exists_mem_of_ne_nil _ (hkept.filled g hg).nonempty
    exact Finset.mem_image.2 ⟨_, Finset.mem_filter.2 ⟨hkept.mem_live hg hnode, rfl⟩, rfl⟩
  · rintro x hx ⟨rfl, rfl⟩
    obtain ⟨g, hg, hgid, -⟩ := (hkept.members x.gid ⟨x.sid, x.nid⟩).1 hx
    exact hno g hg hgid

/-- A call that the table can take goes through, and keeps it right. -/
theorem Keeps.next_spined {h : SubTab × Finset Sub} (hkeeps : ∃ lists, Keeps Spined h.1 lists h.2) {c : Call}
    (htakes : Takes h c) : ∃ S', next h c = some (S', c.follow h.2) ∧
    ∃ lists', Keeps Spined S' lists' (c.follow h.2) := by
  obtain ⟨lists, hkeeps⟩ := hkeeps
  cases c with
  | add sck type =>
    obtain ⟨hlock, htype, hgroup, hnode⟩ := htakes
    obtain ⟨S', lists', hadd, hkeeps', -⟩ := hkeeps.add spined_keeper hlock htype hnode trivial
      (fun _ _ _ _ _ => trivial) fun T G hkept hno => hgroup.length_le hkept (spined_keeper.gids hkept.drawn) hno
    exact ⟨S', by rw [SubTab.next, call, hadd]; rfl, lists', hkeeps'⟩
  | del sck type =>
    obtain ⟨S', lists', hdel, hkeeps', -⟩ := hkeeps.remove spined_keeper htakes (fun _ _ _ _ _ => trivial) true
    have hcall : h.1.rtmqSubDel sck type = some S' := hdel
    exact ⟨S', by rw [SubTab.next, call, hcall]; rfl, lists', hkeeps'⟩

/-- Every run of calls that the table can take goes through, and then the table is the
relation of the subscriptions. -/
theorem run_exact (calls : List Call) (h : Guarded (fun h c => (next h c).getD h) Takes (rtmqSubInit, ∅) calls) :
    ∃ S live, calls.foldlM next (rtmqSubInit, ∅) = some (S, live) ∧ Exact S live := by
  obtain ⟨⟨S, live⟩, hrun, lists, hkeeps⟩ := run_invariant next Takes (fun h => ∃ lists, Keeps Spined h.1 lists h.2)
    (fun h c hkeeps htakes => by
      obtain ⟨S', hS', hkeeps'⟩ := Keeps.next_spined hkeeps htakes
      exact ⟨_, hS', hkeeps'⟩) calls _ ⟨[], rtmqSubInit_keeps⟩ h
  exact ⟨S, live, hrun, hkeeps.exact⟩

/-- Two sessions subscribe in two groups, and one goes. -/
theorem run_exact_two : ∃ S live,
    [.add ⟨1, 10, 1⟩ 7, .add ⟨2, 20, 2⟩ 7, .add ⟨1, 10, 1⟩ 107, .del ⟨1, 10, 1⟩ 7].foldlM next (rtmqSubInit, ∅) =
      some (S, live) ∧ Exact S live :=
  run_exact _ (by decide +kernel)

/-- The third group of a list hides the first. -/
theorem third_group_hides : ¬∀ calls : List Call,
    ∃ S live, calls.foldlM next (rtmqSubInit, ∅) = some (S, live) ∧ Exact S live := by
  intro hall
  obtain ⟨S, live, hrun, hexact⟩ := hall [.add ⟨1, 10, 1⟩ 7, .add ⟨2, 20, 2⟩ 7, .add ⟨3, 30, 3⟩ 7]
  have hnodes : ([.add ⟨1, 10, 1⟩ 7, .add ⟨2, 20, 2⟩ 7, .add ⟨3, 30, 3⟩ 7].foldlM next (rtmqSubInit, ∅)).bind
    (fun h => (h.1.subNodes 7 1).map List.length) = some 0 := by decide +kernel
  have hlive : ([.add ⟨1, 10, 1⟩ 7, .add ⟨2, 20, 2⟩ 7, .add ⟨3, 30, 3⟩ 7].foldlM next (rtmqSubInit, ∅)).map
    (fun h => decide (⟨7, 1, 1, 10⟩ ∈ h.2)) = some true := by decide +kernel
  rw [hrun] at hnodes hlive
  obtain ⟨nodes, hfound, hmem⟩ := hexact.finds 7 1
  rw [Option.bind_some, hfound] at hnodes
  have hsub : ⟨7, 1, 1, 10⟩ ∈ live := of_decide_eq_true (Option.some.inj hlive)
  have hin : ⟨1, 10⟩ ∈ nodes := (hmem ⟨1, 10⟩).2 hsub
  rw [List.length_eq_zero_iff.1 (Option.some.inj hnodes)] at hin
  cases hin

/-! # Messages that are published

`rtmq_publish`: a message goes to one node of each group that the list of its type has. The copies
are right as long as each call of `rtmq_sub_add` and `rtmq_sub_del` finds the group that it is for.
-/

/-- `rtmq_pub_group_trav_cb`: the node that is drawn. The remainder by the length of an
empty array is a fault. -/
def rtmqPubGroupTravCb (random : Nat) (group : SubGroup) : Option (Option SubNode) :=
  if group.nodes.arr.length = 0 then none
  else some (group.nodes.vectorGet (random % group.nodes.arr.length))

/-- The traversal of `rtmq_publish`: the group and the node of each copy. `random` are the
numbers that come next. -/
def pubGroups : (Nat → Nat) → List SubGroup → Option (List (BitVec 32 × BitVec 32))
  | _, [] => some []
  | random, group :: groups =>
    match rtmqPubGroupTravCb (random 0) group with
    | none => none
    | some node => (pubGroups (fun n => random (n + 1)) groups).map fun sent =>
      (node.map fun node => (group.gid, node.nid)).toList ++ sent

/-- `rtmq_publish` -/
def rtmqPublish (S : SubTab) (random : Nat → Nat) (type : BitVec 32) : Option (List (BitVec 32 × BitVec 32)) :=
  if S.locked (S.slotOf type) then none
  else
    match typeKey.query SubList.type S.tab type with
    | none => none
    | some none => some []
    | some (some list) =>
      match list.groups.avlTrav with
      | none => none
      | some groups => pubGroups random groups

/-- One copy for each group with a subscription of the type, to one of its nodes. -/
structure Copies (live : Finset Sub) (type : BitVec 32) (sent : List (BitVec 32 × BitVec 32)) : Prop where
  once : (sent.map Prod.fst).Nodup
  groups : ∀ gid, gid ∈ sent.map Prod.fst ↔ ∃ x ∈ live, x.type = type ∧ x.gid = gid
  nodes : ∀ copy ∈ sent, ∃ x ∈ live, x.type = type ∧ x.gid = copy.1 ∧ x.nid = copy.2

/-- Whatever is drawn, a message of any type is copied as it should. -/
def Delivers (S : SubTab) (live : Finset Sub) : Prop :=
  ∀ type random, ∃ sent, S.rtmqPublish random type = some sent ∧ Copies live type sent

/-- A call finds the group that it is for; the slot of a new type has room, and the array of a new
node; what has no group has no list. -/
def Finds (h : SubTab × Finset Sub) : Call → Prop
  | .add sck type => Reaches h type sck.gid ∧ h.1.TypeFits h.2 type ∧ NodeFits h.2 sck type
  | .del sck type => Reaches h type sck.gid ∧
    ((∃ x ∈ h.2, x.type = type) → ∃ x ∈ h.2, x.type = type ∧ x.gid = sck.gid)

instance (h : SubTab × Finset Sub) (c : Call) : Decidable (Finds h c) := by
  cases c with
  | add sck type => exact inferInstanceAs (Decidable (_ ∧ _))
  | del sck type => exact inferInstanceAs (Decidable (_ ∧ (_ → _)))

variable {S : SubTab} {lists : List SubList} {live : Finset Sub} {type gid : BitVec 32}

/-! ## A message -/

/-- Each group that has nodes gets a copy. -/
theorem pubGroups_spec : ∀ (groups : List SubGroup) (random : Nat → Nat), (∀ g ∈ groups, g.nodes.arr ≠ []) →
    ∃ sent, pubGroups random groups = some sent ∧ sent.map Prod.fst = groups.map SubGroup.gid ∧
      ∀ copy ∈ sent, ∃ g ∈ groups, g.gid = copy.1 ∧ ∃ node ∈ g.nodes.arr, node.nid = copy.2
  | [], _, _ => ⟨[], rfl, rfl, by simp⟩
  | group :: groups, random, h => by
    obtain ⟨sent, hsent, hgids, hnodes⟩ :=
      pubGroups_spec groups (fun n => random (n + 1)) fun g hg => h g (List.mem_cons_of_mem _ hg)
    have hlen : group.nodes.arr.length ≠ 0 := fun h0 => h group List.mem_cons_self (List.length_eq_zero_iff.1 h0)
    have hlt : random 0 % group.nodes.arr.length < group.nodes.arr.length := Nat.mod_lt _ (Nat.pos_of_ne_zero hlen)
    have hdraw : rtmqPubGroupTravCb (random 0) group =
        some (some (group.nodes.arr[random 0 % group.nodes.arr.length])) := by
      rw [rtmqPubGroupTravCb, if_neg hlen, vectorGet, List.getElem?_eq_getElem hlt]
    refine ⟨(group.gid, (group.nodes.arr[random 0 % group.nodes.arr.length]).nid) :: sent, ?_, ?_, ?_⟩
    · rw [pubGroups, hdraw]
      dsimp only
      rw [hsent]
      rfl
    · rw [List.map_cons, List.map_cons, hgids]
    · intro copy hcopy
      rcases List.mem_cons.1 hcopy with rfl | hcopy
      · exact ⟨group, List.mem_cons_self, rfl, _, List.getElem_mem hlt, rfl⟩
      · obtain ⟨g, hg, hcopy⟩ := hnodes copy hcopy
        exact ⟨g, List.mem_cons_of_mem _ hg, hcopy⟩

theorem Keeps.delivers (h : Keeps Drawn S lists live) (hlock : ∀ i, S.locked i = false) : Delivers S live := by
  intro type random
  unfold rtmqPublish
  rw [if_neg (by rw [hlock]; exact Bool.false_ne_true), h.few.query typeKey_oneSided (typeKey_hashOk ..)]
  cases hlookup : lookup SubList.type lists type with
  | none =>
    have hno := h.lookup_eq_none.1 hlookup
    refine ⟨[], rfl, List.nodup_nil, fun gid => iff_of_false (by simp) ?_, by simp⟩
    rintro ⟨x, hx, hxt, -⟩
    exact hno x hx hxt
  | some list =>
    obtain ⟨hl, rfl⟩ := lookup_mem hlookup
    obtain ⟨G, -, hkept⟩ := h.kept list hl
    obtain ⟨sent, hsent, hgids, hnodes⟩ := pubGroups_spec G random fun g hg => (hkept.filled g hg).nonempty
    dsimp only
    rw [drawn_keeper.trav hkept.drawn]
    refine ⟨sent, hsent, ?_, fun gid => ?_, fun copy hcopy => ?_⟩
    · rw [hgids]
      exact drawn_keeper.gids hkept.drawn
    · rw [hgids, List.mem_map]
      constructor
      · rintro ⟨g, hg, rfl⟩
        obtain ⟨node, hnode⟩ := List.exists_mem_of_ne_nil _ (hkept.filled g hg).nonempty
        exact ⟨_, hkept.mem_live hg hnode, rfl, rfl⟩
      · rintro ⟨x, hx, hxt, rfl⟩
        rw [← hxt] at hkept
        obtain ⟨g, hg, hgid, -⟩ := (hkept.members x.gid ⟨x.sid, x.nid⟩).1 hx
        exact ⟨g, hg, hgid⟩
    · obtain ⟨g, hg, hgid, node, hnode, hnid⟩ := hnodes copy hcopy
      exact ⟨_, hkept.mem_live hg hnode, rfl, hgid, hnid⟩

/-! ## Runs -/

/-- A call that finds its group goes through, keeps the table right and gives the lock back. -/
theorem Keeps.next_drawn {h : SubTab × Finset Sub}
    (hkeeps : (∃ lists, Keeps Drawn h.1 lists h.2) ∧ ∀ i, h.1.locked i = false) {c : Call} (hfinds : Finds h c) :
    ∃ S', next h c = some (S', c.follow h.2) ∧ (∃ lists', Keeps Drawn S' lists' (c.follow h.2)) ∧
      ∀ i, S'.locked i = false := by
  obtain ⟨⟨lists, hkeeps⟩, hlock⟩ := hkeeps
  cases c with
  | add sck type =>
    obtain ⟨hreach, htype, hnode⟩ := hfinds
    obtain ⟨S', lists', hadd, hkeeps', hlocked⟩ := hkeeps.add drawn_keeper (hlock _) htype hnode
      (by rintro ⟨g, hg, -⟩; cases hg) (hreach.found hkeeps) fun _ _ _ _ => trivial
    exact ⟨S', by rw [next, call, hadd]; rfl, ⟨lists', hkeeps'⟩, fun i => by rw [hlocked]; exact hlock i⟩
  | del sck type =>
    obtain ⟨hreach, hgroup⟩ := hfinds
    obtain ⟨S', lists', hdel, hkeeps', hlocked⟩ :=
      hkeeps.remove drawn_keeper (hlock _) (hreach.found hkeeps) true
    have hcall : h.1.rtmqSubDel sck type = some S' := hdel
    refine ⟨S', by rw [next, call, hcall]; rfl, ⟨lists', hkeeps'⟩, fun i => ?_⟩
    rw [hlocked]
    · exact hlock i
    · by_cases htype : ∃ x ∈ h.2, x.type = type
      · exact .inr (.inr (hgroup htype))
      · exact .inr (.inl fun x hx hxt => htype ⟨x, hx, hxt⟩)

/-- Every run of calls that find their groups goes through, and then a message is
copied once for each group. -/
theorem run_delivers (calls : List Call) (h : Guarded (fun h c => (next h c).getD h) Finds (rtmqSubInit, ∅) calls) :
    ∃ S live, calls.foldlM next (rtmqSubInit, ∅) = some (S, live) ∧ Delivers S live := by
  obtain ⟨⟨S, live⟩, hrun, ⟨lists, hkeeps⟩, hlock⟩ := run_invariant next Finds
    (fun h => (∃ lists, Keeps Drawn h.1 lists h.2) ∧ ∀ i, h.1.locked i = false)
    (fun h c hkeeps hfinds => by
      obtain ⟨S', hS', hkeeps'⟩ := Keeps.next_drawn hkeeps hfinds
      exact ⟨_, hS', hkeeps'⟩) calls _ ⟨⟨[], rtmqSubInit_keeps⟩, fun _ => rfl⟩ h
  exact ⟨S, live, hrun, hkeeps.delivers hlock⟩

/-- Three groups, of which the third is used again. -/
theorem run_delivers_three : ∃ S live,
    [.add ⟨1, 10, 1⟩ 7, .add ⟨2, 20, 2⟩ 7, .add ⟨3, 30, 3⟩ 7, .add ⟨4, 40, 3⟩ 7, .del ⟨3, 30, 3⟩ 7].foldlM next
      (rtmqSubInit, ∅) = some (S, live) ∧ Delivers S live :=
  run_delivers _ (by decide +kernel)

/-- The first of three groups is hidden, so that it is made again, and gets two copies. -/
theorem group_copied_twice : ¬∀ calls : List Call,
    ∃ S live, calls.foldlM next (rtmqSubInit, ∅) = some (S, live) ∧ Delivers S live := by
  intro hall
  obtain ⟨S, live, hrun, hdelivers⟩ :=
    hall [.add ⟨1, 10, 1⟩ 7, .add ⟨2, 20, 2⟩ 7, .add ⟨3, 30, 3⟩ 7, .add ⟨4, 40, 1⟩ 7]
  have hsent : ([.add ⟨1, 10, 1⟩ 7, .add ⟨2, 20, 2⟩ 7, .add ⟨3, 30, 3⟩ 7, .add ⟨4, 40, 1⟩ 7].foldlM next
    (rtmqSubInit, ∅)).bind (fun h => h.1.rtmqPublish (fun _ => 0) 7) =
      some [(1, 10), (2, 20), (3, 30), (1, 40)] := by decide +kernel
  rw [hrun] at hsent
  obtain ⟨sent, hpublish, hcopies⟩ := hdelivers 7 fun _ => 0
  cases hpublish.symm.trans hsent
  exact absurd hcopies.once (by decide)

end BeehiveIm.Rtmq.SubTab
