/-
The groups of one message type. The comparison of two gids is never negative, so that a search in
the AVL tree only goes to the right. While it finds the group it is for, the groups hold exactly the
nodes that were added and not removed since.
-/
import BeehiveIm.Core.AvlTree.Run
import BeehiveIm.Rtmq.SubTab

namespace BeehiveIm.Rtmq

open BeehiveIm.Lib BeehiveIm.Core AvlTree Vec

/-! ## The members of the groups -/

/-- Which nodes are in the group of a gid. -/
abbrev Members : Type := BitVec 32 → SubNode → Prop

/-- A session that is there already keeps its node. -/
def Members.join (Q : Members) (sck : Link) : Members := fun gid node =>
  Q gid node ∨ gid = sck.gid ∧ node = ⟨sck.sid, sck.nid⟩ ∧ ∀ nid, ¬Q gid ⟨sck.sid, nid⟩

def Members.quit (Q : Members) (sck : Link) : Members := fun gid node =>
  Q gid node ∧ ¬(gid = sck.gid ∧ node.sid = sck.sid)

/-- A group that has nodes, each session once, in the array it was created with. -/
structure SubGroup.Filled (group : SubGroup) : Prop where
  nonempty : group.nodes.arr ≠ []
  sids : (group.nodes.arr.map SubNode.sid).Nodup
  cap : group.nodes.cap = 512

namespace SubTab

/-- The members are the nodes of the groups. -/
def MembersOf (G : List SubGroup) (Q : Members) : Prop :=
  ∀ gid node, Q gid node ↔ ∃ g ∈ G, g.gid = gid ∧ node ∈ g.nodes.arr

variable {T : AvlTree SubGroup} {G : List SubGroup} {gid : BitVec 32} {g : SubGroup} {sck : Link}

/-! ## The tree of the groups -/

theorem oneSided_cmp (gid : BitVec 32) (G : List SubGroup) : OneSided (rtmqSubGroupCmpCb gid) G :=
  fun _ _ => Int.natCast_nonneg _

theorem cmp_eq_zero : rtmqSubGroupCmpCb gid g = 0 ↔ g.gid = gid := (diff32_eq_zero _ _).trans eq_comm

theorem cmp_pos (h : g.gid ≠ gid) : 0 < rtmqSubGroupCmpCb gid g :=
  lt_of_le_of_ne (Int.natCast_nonneg _) fun h0 => h (cmp_eq_zero.1 h0.symm)

theorem findBy_none : findBy (rtmqSubGroupCmpCb gid) G = none ↔ ∀ g ∈ G, g.gid ≠ gid := by
  simp only [findBy_eq_none, ne_eq, cmp_eq_zero]

theorem findBy_some (h : findBy (rtmqSubGroupCmpCb gid) G = some g) : g ∈ G ∧ g.gid = gid :=
  ⟨(findBy_mem h).1, cmp_eq_zero.1 (findBy_mem h).2⟩

/-- Groups of different gids. -/
def Gids (G : List SubGroup) : Prop := (G.map SubGroup.gid).Nodup

theorem Gids.unique {x : SubGroup} (h : Gids G) (hg : g ∈ G) (hx : x ∈ G) (he : x.gid = g.gid) : x = g :=
  List.inj_on_of_nodup_map h hx hg he

theorem Gids.findBy_eq (h : Gids G) (hg : g ∈ G) (hgid : g.gid = gid) : findBy (rtmqSubGroupCmpCb gid) G = some g := by
  cases hf : findBy (rtmqSubGroupCmpCb gid) G with
  | none => exact absurd hgid (findBy_none.1 hf g hg)
  | some x =>
    obtain ⟨hx, hxgid⟩ := findBy_some hf
    rw [h.unique hg hx (hxgid.trans hgid.symm)]

theorem Gids.atMostOne (h : Gids G) (gid : BitVec 32) : AtMostOne (rtmqSubGroupCmpCb gid) G :=
  (List.pairwise_map.1 h).imp fun hne ha hb => hne ((cmp_eq_zero.1 ha).trans (cmp_eq_zero.1 hb).symm)

theorem Gids.append (h : Gids G) (hnew : ∀ x ∈ G, x.gid ≠ g.gid) : Gids (G ++ [g]) := by
  rw [Gids, List.map_append, List.map_singleton, List.nodup_append]
  refine ⟨h, List.nodup_singleton _, ?_⟩
  rintro a ha b hb rfl
  obtain ⟨x, hx, rfl⟩ := List.mem_map.1 ha
  exact hnew x hx (List.mem_singleton.1 hb)

theorem Gids.erase (h : Gids G) (gid : BitVec 32) : Gids (eraseBy (rtmqSubGroupCmpCb gid) G) :=
  h.sublist (List.filter_sublist.map _)

/-- The write of `rtmq_sub_add` and `rtmq_sub_del`, in the list of the groups. -/
def setNodes (gid : BitVec 32) (nodes : Vec SubNode) : List SubGroup → List SubGroup :=
  writeBy (rtmqSubGroupCmpCb gid) fun group => { group with nodes := nodes }

theorem Gids.write (h : Gids G) (gid : BitVec 32) (nodes : Vec SubNode) : Gids (setNodes gid nodes G) := by
  have hgid : SubGroup.gid ∘ (fun x => if rtmqSubGroupCmpCb gid x = 0 then { x with nodes := nodes } else x) =
      SubGroup.gid := by
    funext x
    simp only [Function.comp_apply]
    split <;> rfl
  rw [Gids, setNodes, writeBy, List.map_map, hgid]
  exact h

theorem mem_setNodes {nodes : Vec SubNode} (h : Gids G) (hg : g ∈ G) {x : SubGroup} :
    x ∈ setNodes g.gid nodes G ↔ x = { g with nodes := nodes } ∨ x ∈ G ∧ x.gid ≠ g.gid := by
  simp only [setNodes, writeBy, List.mem_map]
  constructor
  · rintro ⟨y, hy, rfl⟩
    by_cases h0 : y.gid = g.gid
    · rw [if_pos (cmp_eq_zero.2 h0), h.unique hg hy h0]
      exact .inl rfl
    · rw [if_neg (mt cmp_eq_zero.1 h0)]
      exact .inr ⟨hy, h0⟩
  · rintro (rfl | ⟨hx, hne⟩)
    · exact ⟨g, hg, if_pos (cmp_eq_zero.2 rfl)⟩
    · exact ⟨x, hx, if_neg (mt cmp_eq_zero.1 hne)⟩

/-- `D` is a way to keep groups in a tree, if the operations for a gid meet `Ok` and a
group is new to few others. -/
structure Keeper (D : AvlTree SubGroup → List SubGroup → Prop)
    (Ok : AvlTree SubGroup → List SubGroup → BitVec 32 → Prop) (Fit : List SubGroup → Prop) : Prop where
  creat : D (avlCreat SubGroup) []
  gids : ∀ {T G}, D T G → Gids G
  num : ∀ {T G}, D T G → T.num = G.length
  trav : ∀ {T G}, D T G → T.avlTrav = some G
  query : ∀ {T G gid}, D T G → Ok T G gid →
    T.avlQuery (rtmqSubGroupCmpCb gid) = some (findBy (rtmqSubGroupCmpCb gid) G)
  insert : ∀ {T G g}, D T G → Fit G → (∀ x ∈ G, x.gid ≠ g.gid) →
    ∃ T', T.avlInsert (rtmqSubGroupCmpCb g.gid) g true = some (T', .ok) ∧ D T' (G ++ [g]) ∧ Ok T' (G ++ [g]) g.gid
  delete : ∀ {T G g gid}, D T G → Ok T G gid → findBy (rtmqSubGroupCmpCb gid) G = some g →
    ∃ T', T.avlDelete (rtmqSubGroupCmpCb gid) = some (T', some g) ∧ D T' (eraseBy (rtmqSubGroupCmpCb gid) G)
  write : ∀ {T G gid}, D T G → Ok T G gid → ∀ nodes, ∃ T',
    T.avlWrite (rtmqSubGroupCmpCb gid) (fun group => { group with nodes := nodes }) = some T' ∧
      D T' (setNodes gid nodes G)

/-! ### Two groups at most -/

/-- The groups on a spine. -/
structure Spined (T : AvlTree SubGroup) (G : List SubGroup) : Prop where
  tree : ∃ t, Wf T t ∧ Spine t ∧ t.toList = G
  gids : Gids G

theorem Spined.query (h : Spined T G) (gid : BitVec 32) :
    T.avlQuery (rtmqSubGroupCmpCb gid) = some (findBy (rtmqSubGroupCmpCb gid) G) := by
  obtain ⟨⟨t, hwf, hs, rfl⟩, -⟩ := h
  exact avlQuery_spine hwf hs (oneSided_cmp gid _)

/-- A third group would hide the first one. -/
theorem spined_keeper : Keeper Spined (fun _ _ _ => True) fun G => G.length ≤ 1 where
  creat := ⟨⟨.nil, avlCreat_wf, trivial, rfl⟩, List.nodup_nil⟩
  gids := Spined.gids
  num := by
    rintro T G ⟨⟨t, hwf, -, rfl⟩, -⟩
    exact hwf.num
  trav := by
    rintro T G ⟨⟨t, hwf, -, rfl⟩, -⟩
    exact avlTrav_eq hwf
  query h _ := h.query _
  insert := by
    rintro T G g ⟨⟨t, hwf, hs, rfl⟩, hgids⟩ hlen hnew
    obtain ⟨T', hT', t', hwf', hl, hs'⟩ := avlInsert_spine (d := g) hwf hlen fun x hx => cmp_pos (hnew x hx)
    exact ⟨T', hT', ⟨⟨t', hwf', hs', hl⟩, hgids.append hnew⟩, trivial⟩
  delete := by
    rintro T G g gid ⟨⟨t, hwf, hs, rfl⟩, hgids⟩ - hg
    obtain ⟨T', hT', t', hwf', hl, hs'⟩ := avlDelete_spine hwf hs (oneSided_cmp gid _) (hgids.atMostOne gid) hg
    exact ⟨T', hT', ⟨t', hwf', hs', hl⟩, hgids.erase gid⟩
  write := by
    rintro T G gid ⟨⟨t, hwf, hs, rfl⟩, hgids⟩ - nodes
    obtain ⟨T', hT', t', hwf', hl, hs'⟩ := avlWrite_spine hwf hs (oneSided_cmp gid _) (hgids.atMostOne gid)
      fun group : SubGroup => { group with nodes := nodes }
    exact ⟨T', hT', ⟨t', hwf', hs', hl⟩, hgids.write gid nodes⟩

/-! ### Any number of groups -/

/-- The groups in the order of a traversal. -/
structure Drawn (T : AvlTree SubGroup) (G : List SubGroup) : Prop where
  tree : ∃ t, Wf T t ∧ t.toList = G
  gids : Gids G

/-- The search finds the group, if there is one. -/
def Found (T : AvlTree SubGroup) (G : List SubGroup) (gid : BitVec 32) : Prop :=
  (∃ g ∈ G, g.gid = gid) → (T.avlQuery (rtmqSubGroupCmpCb gid)).join.isSome

/-- The search goes to what the probe finds. -/
theorem Found.meetBy {t : PTree Int SubGroup} (h : Found T t.toList gid) (hwf : Wf T t) (hgids : Gids t.toList) :
    meetBy (rtmqSubGroupCmpCb gid) t = findBy (rtmqSubGroupCmpCb gid) t.toList := by
  cases hf : findBy (rtmqSubGroupCmpCb gid) t.toList with
  | none => exact meetBy_none (findBy_eq_none.1 hf)
  | some g =>
    obtain ⟨hg, hgid⟩ := findBy_some hf
    have hsome := h ⟨g, hg, hgid⟩
    rw [avlQuery_eq hwf, Option.join_some] at hsome
    obtain ⟨x, hx⟩ := Option.isSome_iff_exists.1 hsome
    obtain ⟨h0, hp⟩ := dropBy_perm hx
    rw [hx, hgids.unique hg (hp.mem_iff.2 List.mem_cons_self) ((cmp_eq_zero.1 h0).trans hgid.symm)]

theorem drawn_keeper : Keeper Drawn Found fun _ => True where
  creat := ⟨⟨.nil, avlCreat_wf, rfl⟩, List.nodup_nil⟩
  gids := Drawn.gids
  num := by
    rintro T G ⟨⟨t, hwf, rfl⟩, -⟩
    exact hwf.num
  trav := by
    rintro T G ⟨⟨t, hwf, rfl⟩, -⟩
    exact avlTrav_eq hwf
  query := by
    rintro T G gid ⟨⟨t, hwf, rfl⟩, hgids⟩ hfound
    rw [avlQuery_eq hwf, hfound.meetBy hwf hgids]
  insert := by
    rintro T G g ⟨⟨t, hwf, rfl⟩, hgids⟩ - hnew
    have hnone : meetBy (rtmqSubGroupCmpCb g.gid) t = none := meetBy_none fun x hx => (cmp_pos (hnew x hx)).ne'
    obtain ⟨T', hT', t', hwf', hl⟩ := avlInsert_placed (d := g) hwf hnone
    rw [(oneSided_cmp g.gid _).placeBy] at hl
    refine ⟨T', hT', ⟨⟨t', hwf', hl⟩, hgids.append hnew⟩, fun _ => ?_⟩
    -- it is the last one, and the search goes there
    rw [avlQuery_eq hwf', meetBy_last hl (fun x hx => cmp_pos (hnew x hx)) (cmp_eq_zero.2 rfl)]
    rfl
  delete := by
    rintro T G g gid ⟨⟨t, hwf, rfl⟩, hgids⟩ hfound hg
    have hmeet := (hfound.meetBy hwf hgids).trans hg
    obtain ⟨T', hT', t', hwf', hl⟩ := avlDelete_dropped hwf hmeet
    rw [dropBy_eq (hgids.atMostOne gid) hmeet] at hl
    exact ⟨T', hT', ⟨t', hwf', hl⟩, hgids.erase gid⟩
  write := by
    rintro T G gid ⟨⟨t, hwf, rfl⟩, hgids⟩ hfound nodes
    obtain ⟨T', hT', t', hwf', hl⟩ := avlWrite_met hwf (hgids.atMostOne gid) (hfound.meetBy hwf hgids)
      fun group : SubGroup => { group with nodes := nodes }
    exact ⟨T', hT', ⟨t', hwf', hl⟩, hgids.write gid nodes⟩

/-! ## The groups of a list -/

/-- The groups of a list, however they are kept, hold the members. -/
structure Kept (D : AvlTree SubGroup → List SubGroup → Prop) (T : AvlTree SubGroup) (G : List SubGroup) (Q : Members) :
    Prop where
  drawn : D T G
  filled : ∀ g ∈ G, g.Filled
  members : MembersOf G Q

variable {D : AvlTree SubGroup → List SubGroup → Prop} {Ok : AvlTree SubGroup → List SubGroup → BitVec 32 → Prop}
  {Fit : List SubGroup → Prop} {Q : Members}

theorem Kept.congr {Q' : Members} (h : Kept D T G Q) (hQ : ∀ gid node, Q' gid node ↔ Q gid node) : Kept D T G Q' :=
  ⟨h.drawn, h.filled, fun gid node => (hQ gid node).trans (h.members gid node)⟩

/-- Only the group of a gid has its nodes. -/
theorem MembersOf.iff_mem (h : MembersOf G Q) (hgids : Gids G) (hg : g ∈ G) {node : SubNode} :
    Q g.gid node ↔ node ∈ g.nodes.arr := by
  rw [h]
  constructor
  · rintro ⟨x, hx, hxg, hnode⟩
    rwa [hgids.unique hg hx hxg] at hnode
  · exact fun hnode => ⟨g, hg, rfl, hnode⟩

/-- The nodes of one group are replaced. -/
theorem Keeper.set (K : Keeper D Ok Fit) (hD : D T G) (hok : Ok T G g.gid) (hg : g ∈ G) {nodes : Vec SubNode}
    (hfill : ∀ x ∈ G, x.gid ≠ g.gid → x.Filled) (hQ : MembersOf G Q)
    (hnodes : SubGroup.Filled { g with nodes := nodes }) :
    ∃ T', T.avlWrite (rtmqSubGroupCmpCb g.gid) (fun group => { group with nodes := nodes }) = some T' ∧
      Kept D T' (setNodes g.gid nodes G) fun gid node => if gid = g.gid then node ∈ nodes.arr else Q gid node := by
  have hgids := K.gids hD
  obtain ⟨T', hT', hD'⟩ := K.write hD hok nodes
  refine ⟨T', hT', hD', fun x hx => ?_, fun gid node => ?_⟩
  · rcases (mem_setNodes hgids hg).1 hx with rfl | ⟨hx, hne⟩
    · exact hnodes
    · exact hfill x hx hne
  · simp only [mem_setNodes hgids hg]
    by_cases h0 : gid = g.gid
    · rw [if_pos h0]
      constructor
      · exact fun hnode => ⟨_, .inl rfl, h0.symm, hnode⟩
      · rintro ⟨x, rfl | ⟨hx, hxne⟩, hxg, hnode⟩
        · exact hnode
        · exact absurd (hxg.trans h0) hxne
    · rw [if_neg h0, hQ]
      constructor
      · rintro ⟨x, hx, hxg, hnode⟩
        exact ⟨x, .inr ⟨hx, fun h => h0 (hxg.symm.trans h)⟩, hxg, hnode⟩
      · rintro ⟨x, rfl | ⟨hx, hxne⟩, hxg, hnode⟩
        · exact absurd hxg.symm h0
        · exact ⟨x, hx, hxg, hnode⟩

/-- The group of the gid, found or new. -/
theorem Keeper.querySubGroup (K : Keeper D Ok Fit) (hD : D T G) (hok : Ok T G gid)
    (hfew : (∀ g ∈ G, g.gid ≠ gid) → Fit G) :
    ∃ T' G' g, querySubGroup 2 T gid = some (T', g) ∧ D T' G' ∧ Ok T' G' gid ∧ g ∈ G' ∧ g.gid = gid ∧
      (G' = G ∨ G' = G ++ [g] ∧ g.nodes = vectorCreat SubNode 512 128) := by
  rw [SubTab.querySubGroup, K.query hD hok]
  cases hf : findBy (rtmqSubGroupCmpCb gid) G with
  | some g =>
    obtain ⟨hg, hgid⟩ := findBy_some hf
    exact ⟨T, G, g, rfl, hD, hok, hg, hgid, .inl rfl⟩
  | none =>
    have hnew := findBy_none.1 hf
    let g : SubGroup := ⟨gid, vectorCreat SubNode 512 128⟩
    obtain ⟨T', hT', hD', hok'⟩ := K.insert (g := g) hD (hfew hnew) hnew
    have hins : T.avlInsert (rtmqSubGroupCmpCb gid) ⟨gid, vectorCreat SubNode 512 128⟩ true = some (T', .ok) := hT'
    have hg : g ∈ G ++ [g] := by simp
    have hfound : T'.avlQuery (rtmqSubGroupCmpCb gid) = some (some g) :=
      (K.query hD' hok').trans (congrArg some ((K.gids hD').findBy_eq hg rfl))
    refine ⟨T', G ++ [g], g, ?_, hD', hok', hg, rfl, .inr ⟨rfl, rfl⟩⟩
    simp only [hins, SubTab.querySubGroup, hfound]

/-- Steps 2 to 4 of `rtmq_sub_add`: the session is in its group. -/
theorem Keeper.add (K : Keeper D Ok Fit) (h : Kept D T G Q) (hok : Ok T G sck.gid)
    (hfew : (∀ g ∈ G, g.gid ≠ sck.gid) → Fit G)
    (hroom : ∀ g ∈ G, g.gid = sck.gid → (∀ node ∈ g.nodes.arr, node.sid ≠ sck.sid) → g.nodes.arr.length < 512) :
    ∃ T' G', addNode T sck = some T' ∧ G' ≠ [] ∧ Kept D T' G' (Q.join sck) := by
  obtain ⟨T', G', g, hquery, hD, hok', hg, hgid, hG'⟩ := K.querySubGroup h.drawn hok hfew
  have hgids := K.gids hD
  -- a new group is still empty
  have hsub : ∀ x ∈ G', x ∈ G ∨ x = g ∧ x.nodes = vectorCreat SubNode 512 128 := by
    intro x hx
    rcases hG' with rfl | ⟨rfl, hnodes⟩
    · exact .inl hx
    · rcases List.mem_append.1 hx with hx | hx
      · exact .inl hx
      · obtain rfl := List.mem_singleton.1 hx
        exact .inr ⟨rfl, hnodes⟩
  have hmembers : MembersOf G' Q := by
    intro gid node
    rw [h.members]
    constructor
    · rintro ⟨x, hx, hxg, hnode⟩
      refine ⟨x, ?_, hxg, hnode⟩
      rcases hG' with rfl | ⟨rfl, -⟩
      · exact hx
      · exact List.mem_append_left _ hx
    · rintro ⟨x, hx, hxg, hnode⟩
      rcases hsub x hx with hx | ⟨-, hnodes⟩
      · exact ⟨x, hx, hxg, hnode⟩
      · rw [hnodes] at hnode
        cases hnode
  have hfill : ∀ x ∈ G', x.gid ≠ g.gid → x.Filled := by
    intro x hx hne
    rcases hsub x hx with hx | ⟨rfl, -⟩
    · exact h.filled x hx
    · exact absurd rfl hne
  have hsids : (g.nodes.arr.map SubNode.sid).Nodup ∧ g.nodes.cap = 512 := by
    rcases hsub g hg with hx | ⟨-, hnodes⟩
    · exact ⟨(h.filled g hx).sids, (h.filled g hx).cap⟩
    · rw [hnodes]
      exact ⟨List.nodup_nil, rfl⟩
  rw [addNode, hquery]
  dsimp only
  cases hfind : g.nodes.vectorFind (rtmqSubGroupFindSidCb sck.sid) with
  | some node =>
    -- the session is there already, so the group is an old one
    have hnode : node ∈ g.nodes.arr := List.mem_of_find?_eq_some hfind
    have hsid : node.sid = sck.sid := by simpa [rtmqSubGroupFindSidCb] using List.find?_some hfind
    have hgG : g ∈ G := by
      rcases hsub g hg with hx | ⟨-, hnodes⟩
      · exact hx
      · rw [hnodes] at hnode
        cases hnode
    refine ⟨T', G', rfl, List.ne_nil_of_mem hg, hD, fun x hx => ?_, fun gid node' => ?_⟩
    · rcases hsub x hx with hx | ⟨rfl, -⟩
      · exact h.filled x hx
      · exact h.filled x hgG
    · rw [← hmembers]
      refine or_iff_left ?_
      rintro ⟨rfl, -, hno⟩
      refine hno node.nid ?_
      rw [← hgid, hmembers.iff_mem hgids hg, ← hsid]
      exact hnode
  | none =>
    have hnone : ∀ node ∈ g.nodes.arr, node.sid ≠ sck.sid := by
      intro node hnode
      simpa [rtmqSubGroupFindSidCb] using List.find?_eq_none.1 hfind node hnode
    have hlt : g.nodes.arr.length < 512 := by
      rcases hsub g hg with hx | ⟨-, hnodes⟩
      · exact hroom g hx hgid hnone
      · rw [hnodes]
        decide
    have happend : g.nodes.vectorAppend ⟨sck.sid, sck.nid⟩ =
        some { g.nodes with arr := g.nodes.arr ++ [⟨sck.sid, sck.nid⟩] } := by
      refine if_neg ?_
      rw [hsids.2]
      exact hlt.ne
    have hfilled : SubGroup.Filled { g with nodes := { g.nodes with arr := g.nodes.arr ++ [⟨sck.sid, sck.nid⟩] } } := by
      refine ⟨by simp, ?_, hsids.2⟩
      rw [List.map_append, List.nodup_append]
      refine ⟨hsids.1, List.nodup_singleton _, ?_⟩
      rintro a ha b hb rfl
      obtain ⟨node, hnode, rfl⟩ := List.mem_map.1 ha
      exact hnone node hnode (List.mem_singleton.1 hb)
    obtain ⟨T'', hwrite, h''⟩ := K.set hD (hgid ▸ hok') hg hfill hmembers hfilled
    rw [hgid] at hwrite
    rw [happend]
    refine ⟨T'', _, hwrite, List.ne_nil_of_mem ((mem_setNodes hgids hg).2 (.inl rfl)), h''.congr fun gid node => ?_⟩
    by_cases h0 : gid = g.gid
    · subst h0
      rw [if_pos rfl, Members.join, hmembers.iff_mem hgids hg, List.mem_append, List.mem_singleton]
      refine or_congr_right ⟨fun hnode => hnode.2.1, fun hnode => ⟨hgid, hnode, fun nid hin => ?_⟩⟩
      exact hnone _ ((hmembers.iff_mem hgids hg).1 hin) rfl
    · rw [if_neg h0, Members.join]
      refine or_iff_left fun hnode => h0 (hnode.1.trans hgid.symm)

/-- A session is taken out of its group; a group that it leaves empty goes. -/
theorem Keeper.del (K : Keeper D Ok Fit) (h : Kept D T G Q) (hok : Ok T G sck.gid)
    (hg : findBy (rtmqSubGroupCmpCb sck.gid) G = some g) {nodes : Vec SubNode}
    (hdel : g.nodes.vectorFindAndDel (rtmqSubGroupFindSidCb sck.sid) = some nodes) : ∃ T' G',
      (if nodes.arr.length = 0 then (T.avlDelete (rtmqSubGroupCmpCb sck.gid)).map Prod.fst
        else T.avlWrite (rtmqSubGroupCmpCb sck.gid) fun group => { group with nodes := nodes }) = some T' ∧
      (nodes.arr.length ≠ 0 → G' ≠ []) ∧ Kept D T' G' (Q.quit sck) := by
  have hgids := K.gids h.drawn
  obtain ⟨hgG, hgid⟩ := findBy_some hg
  have hfill := h.filled g hgG
  obtain ⟨arr, harr, rfl⟩ := Option.map_eq_some_iff.1 hdel
  obtain ⟨node, hnode, hperm⟩ := delFirst_perm harr
  have hsid : node.sid = sck.sid := by simpa [rtmqSubGroupFindSidCb] using hnode
  obtain ⟨hnotin, hnodup⟩ := List.nodup_cons.1 ((hperm.map SubNode.sid).nodup_iff.1 hfill.sids)
  -- what is left are the nodes of the other sessions
  have hleft : ∀ x, x ∈ arr ↔ x ∈ g.nodes.arr ∧ x.sid ≠ sck.sid := by
    intro x
    rw [hperm.mem_iff, List.mem_cons]
    constructor
    · exact fun hx => ⟨.inr hx, fun hxs => hnotin (by rw [hsid, ← hxs]; exact List.mem_map_of_mem hx)⟩
    · rintro ⟨rfl | hx, hxs⟩
      · exact absurd hsid hxs
      · exact hx
  have hother : ∀ {gid x}, gid ≠ g.gid → (Q.quit sck gid x ↔ Q gid x) := by
    intro gid x h0
    exact and_iff_left fun hc => h0 (hc.1.trans hgid.symm)
  have hsame : ∀ x, Q.quit sck g.gid x ↔ x ∈ arr := by
    intro x
    rw [Members.quit, h.members.iff_mem hgids hgG, hleft]
    refine and_congr_right fun _ => ⟨fun hne hxs => hne ⟨hgid, hxs⟩, fun hne hc => hne hc.2⟩
  by_cases hlen : arr.length = 0
  · obtain rfl := List.eq_nil_of_length_eq_zero hlen
    obtain ⟨T', hT', hD'⟩ := K.delete h.drawn hok hg
    have hmem {x : SubGroup} : x ∈ eraseBy (rtmqSubGroupCmpCb sck.gid) G ↔ x ∈ G ∧ x.gid ≠ sck.gid := by
      simp only [mem_eraseBy, ne_eq, cmp_eq_zero]
    refine ⟨T', _, by simp [hT'], fun h0 => absurd rfl h0, hD', fun x hx => h.filled x (hmem.1 hx).1, fun gid x => ?_⟩
    by_cases h0 : gid = g.gid
    · subst h0
      rw [hsame]
      constructor
      · intro hx
        cases hx
      · rintro ⟨y, hy, hyg, -⟩
        exact absurd (hyg.trans hgid) (hmem.1 hy).2
    · rw [hother h0, h.members]
      constructor
      · rintro ⟨y, hy, hyg, hx⟩
        exact ⟨y, hmem.2 ⟨hy, fun hys => h0 (hyg.symm.trans (hys.trans hgid.symm))⟩, hyg, hx⟩
      · rintro ⟨y, hy, hyg, hx⟩
        exact ⟨y, (hmem.1 hy).1, hyg, hx⟩
  · have hfilled : SubGroup.Filled { g with nodes := { g.nodes with arr := arr } } :=
      ⟨fun h0 => hlen (by rw [show arr = [] from h0]; rfl), hnodup, hfill.cap⟩
    obtain ⟨T', hwrite, h'⟩ := K.set h.drawn (hgid ▸ hok) hgG (fun x hx _ => h.filled x hx) h.members hfilled
    rw [hgid] at hwrite
    have hne : setNodes g.gid { g.nodes with arr := arr } G ≠ [] :=
      List.ne_nil_of_mem ((mem_setNodes hgids hgG).2 (.inl rfl))
    refine ⟨T', _, (if_neg hlen).trans hwrite, fun _ => hne, h'.congr fun gid x => ?_⟩
    by_cases h0 : gid = g.gid
    · subst h0
      rw [if_pos rfl, hsame]
    · rw [if_neg h0, hother h0]

end SubTab

end BeehiveIm.Rtmq
