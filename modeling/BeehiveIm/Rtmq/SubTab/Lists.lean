/-
The whole table: each message type that has subscriptions has one list, whose groups are kept in
one of the ways of `Keeper`. A call of `rtmq_sub_add` or `rtmq_sub_del` does to the table what it
does to the subscriptions.
-/
import BeehiveIm.Core.HashTab.Run
import BeehiveIm.Lib.Run
import BeehiveIm.Rtmq.SubTab.Groups
import Mathlib.Data.Finset.Card

namespace BeehiveIm.Rtmq

open BeehiveIm.Lib BeehiveIm.Core AvlTree Vec

/-- A subscription, and the node of its connection. -/
structure Sub where
  type : BitVec 32
  gid : BitVec 32
  sid : BitVec 64
  nid : BitVec 32
  deriving DecidableEq

/-- Whether a connection is subscribed to a type in a group. -/
def Has (live : Finset Sub) (type gid : BitVec 32) (sid : BitVec 64) : Prop :=
  ∃ x ∈ live, x.type = type ∧ x.gid = gid ∧ x.sid = sid

instance (live : Finset Sub) (type gid : BitVec 32) (sid : BitVec 64) : Decidable (Has live type gid sid) :=
  inferInstanceAs (Decidable (∃ _ ∈ _, _))

/-- The nodes that are subscribed to a type. -/
def membersOf (live : Finset Sub) (type : BitVec 32) : Members := fun gid node => ⟨type, gid, node.sid, node.nid⟩ ∈ live

inductive Call where
  | add (sck : Link) (type : BitVec 32)
  | del (sck : Link) (type : BitVec 32)

def Call.type : Call → BitVec 32
  | .add _ type | .del _ type => type

/-- The subscriptions after a call. -/
def Call.follow (live : Finset Sub) : Call → Finset Sub
  | .add sck type =>
    if Has live type sck.gid sck.sid then live else insert ⟨type, sck.gid, sck.sid, sck.nid⟩ live
  | .del sck type => live.filter fun x => ¬(x.type = type ∧ x.gid = sck.gid ∧ x.sid = sck.sid)

namespace SubTab

def call (S : SubTab) : Call → Option SubTab
  | .add sck type => (S.rtmqSubAdd sck type).map Prod.fst
  | .del sck type => S.rtmqSubDel sck type

/-- A call on the table and on the subscriptions. -/
def next (h : SubTab × Finset Sub) (c : Call) : Option (SubTab × Finset Sub) :=
  (h.1.call c).map fun S => (S, c.follow h.2)

/-- The table holds the subscriptions `live`, in the lists `lists`. -/
structure Keeps (D : AvlTree SubGroup → List SubGroup → Prop) (S : SubTab) (lists : List SubList) (live : Finset Sub) :
    Prop where
  few : Few typeKey SubList.type S.tab lists
  kept : ∀ list ∈ lists, ∃ G, G ≠ [] ∧ Kept D list.groups G (membersOf live list.type)
  listed : ∀ x ∈ live, ∃ list ∈ lists, list.type = x.type

/-- The types with subscriptions in the slot of a type. -/
def slotTypes (S : SubTab) (live : Finset Sub) (type : BitVec 32) : Finset (BitVec 32) :=
  (live.image Sub.type).filter fun t => S.slotOf t = S.slotOf type

/-- A third type would hide the first one. -/
def TypeFits (S : SubTab) (live : Finset Sub) (type : BitVec 32) : Prop :=
  (∀ x ∈ live, x.type ≠ type) → (S.slotTypes live type).card ≤ 1

instance (S : SubTab) (live : Finset Sub) (type : BitVec 32) : Decidable (S.TypeFits live type) :=
  inferInstanceAs (Decidable (_ → _))

/-- An array of nodes does not grow. -/
def NodeFits (live : Finset Sub) (sck : Link) (type : BitVec 32) : Prop :=
  ¬Has live type sck.gid sck.sid → (live.filter fun x => x.type = type ∧ x.gid = sck.gid).card < 512

instance (live : Finset Sub) (sck : Link) (type : BitVec 32) : Decidable (NodeFits live sck type) :=
  inferInstanceAs (Decidable (_ → _))

/-- The group of a gid is found, if it has subscriptions. -/
def Reaches (h : SubTab × Finset Sub) (type gid : BitVec 32) : Prop :=
  (∃ x ∈ h.2, x.type = type ∧ x.gid = gid) → (h.1.subNodes type gid).any fun nodes => !nodes.isEmpty

instance (h : SubTab × Finset Sub) (type gid : BitVec 32) : Decidable (Reaches h type gid) :=
  inferInstanceAs (Decidable (_ → _))

variable {D : AvlTree SubGroup → List SubGroup → Prop} {Ok : AvlTree SubGroup → List SubGroup → BitVec 32 → Prop}
  {Fit : List SubGroup → Prop} {S : SubTab} {lists : List SubList} {live : Finset Sub} {sck : Link}
  {type gid : BitVec 32}

theorem typeKey_oneSided : typeKey.OneSided := fun _ _ => Int.natCast_nonneg _

theorem typeKey_hashOk (len : Nat) (type : BitVec 32) : HashOk len (typeKey.hash type) := .inl (Int.natCast_nonneg _)

theorem rtmqSubInit_keeps : Keeps D rtmqSubInit [] ∅ where
  few := hashTabCreat_slotted (by decide) (by decide) ⟨trivial, List.nodup_nil⟩
  kept := by simp
  listed := by simp

/-! ## The subscriptions after a call -/

theorem has_iff {sid : BitVec 64} : Has live type gid sid ↔ ∃ nid, membersOf live type gid ⟨sid, nid⟩ := by
  constructor
  · rintro ⟨⟨_, _, _, nid⟩, hx, rfl, rfl, rfl⟩
    exact ⟨nid, hx⟩
  · rintro ⟨nid, hx⟩
    exact ⟨_, hx, rfl, rfl, rfl⟩

theorem membersOf_add (live : Finset Sub) (sck : Link) (type : BitVec 32) :
    membersOf (Call.follow live (.add sck type)) type = (membersOf live type).join sck := by
  have hfollow : Call.follow live (.add sck type) =
      if Has live type sck.gid sck.sid then live else insert ⟨type, sck.gid, sck.sid, sck.nid⟩ live := rfl
  funext gid node
  refine propext ?_
  rw [hfollow, Members.join]
  by_cases hhas : Has live type sck.gid sck.sid
  · rw [if_pos hhas]
    refine (or_iff_left ?_).symm
    rintro ⟨rfl, -, hno⟩
    obtain ⟨nid, hnid⟩ := has_iff.1 hhas
    exact hno nid hnid
  · rw [if_neg hhas, membersOf, Finset.mem_insert, or_comm]
    refine or_congr_right ⟨fun heq => ?_, ?_⟩
    · obtain ⟨sid, nid⟩ := node
      obtain ⟨-, rfl, rfl, rfl⟩ := Sub.mk.inj heq
      exact ⟨rfl, rfl, fun nid hnid => hhas (has_iff.2 ⟨nid, hnid⟩)⟩
    · rintro ⟨rfl, rfl, -⟩
      rfl

theorem membersOf_del (live : Finset Sub) (sck : Link) (type : BitVec 32) :
    membersOf (Call.follow live (.del sck type)) type = (membersOf live type).quit sck := by
  funext gid node
  simp [membersOf, Call.follow, Members.quit]

theorem membersOf_other {c : Call} {t : BitVec 32} (ht : t ≠ c.type) (live : Finset Sub) :
    membersOf (c.follow live) t = membersOf live t := by
  funext gid node
  refine propext ?_
  cases c with
  | add sck type =>
    unfold Call.follow
    dsimp only
    split
    · rfl
    · rw [membersOf, Finset.mem_insert]
      exact or_iff_right fun heq => ht (Sub.mk.inj heq).1
  | del sck type =>
    have hne : t ≠ type := ht
    simp [membersOf, Call.follow, hne]

/-! ## The lists -/

theorem Kept.mem_live {T : AvlTree SubGroup} {G : List SubGroup} {g : SubGroup} (h : Kept D T G (membersOf live type))
    (hg : g ∈ G) {node : SubNode} (hnode : node ∈ g.nodes.arr) : ⟨type, g.gid, node.sid, node.nid⟩ ∈ live :=
  (h.members g.gid node).2 ⟨g, hg, rfl, hnode⟩

/-- A list has subscriptions of its type. -/
theorem Keeps.exists_live (h : Keeps D S lists live) {list : SubList} (hl : list ∈ lists) :
    ∃ x ∈ live, x.type = list.type := by
  obtain ⟨G, hG, hkept⟩ := h.kept list hl
  obtain ⟨g, hg⟩ := List.exists_mem_of_ne_nil G hG
  obtain ⟨node, hnode⟩ := List.exists_mem_of_ne_nil _ (hkept.filled g hg).nonempty
  exact ⟨_, hkept.mem_live hg hnode, rfl⟩

theorem Keeps.lookup_eq_none (h : Keeps D S lists live) :
    lookup SubList.type lists type = none ↔ ∀ x ∈ live, x.type ≠ type := by
  rw [Core.lookup_eq_none]
  constructor
  · intro hno x hx
    obtain ⟨list, hl, hlx⟩ := h.listed x hx
    rw [← hlx]
    exact hno list hl
  · intro hno list hl
    obtain ⟨x, hx, hxl⟩ := h.exists_live hl
    rw [← hxl]
    exact hno x hx

/-- The lists of a slot are for different types. -/
theorem Keeps.inSlot_le (h : Keeps D S lists live) (type : BitVec 32) :
    (inSlot typeKey SubList.type S.tab.len (typeKey.slot S.tab.len type) lists).length ≤
      (S.slotTypes live type).card := by
  have hnodup : ((inSlot typeKey SubList.type S.tab.len (typeKey.slot S.tab.len type) lists).map SubList.type).Nodup :=
    h.few.nodup.sublist (List.filter_sublist.map _)
  rw [← List.length_map (f := SubList.type), ← List.toFinset_card_of_nodup hnodup]
  refine Finset.card_le_card fun t ht => ?_
  obtain ⟨list, hl, rfl⟩ := List.mem_map.1 (List.mem_toFinset.1 ht)
  obtain ⟨hl, hslot⟩ := List.mem_filter.1 hl
  obtain ⟨x, hx, hxl⟩ := h.exists_live hl
  exact Finset.mem_filter.2 ⟨Finset.mem_image.2 ⟨x, hx, hxl⟩, of_decide_eq_true hslot⟩

/-- Step 1 of `rtmq_sub_add`: the list of the type, found or new. -/
theorem querySubTab_spec {tab : HashTab SubList} (h : Few typeKey SubList.type tab lists)
    (hslot : lookup SubList.type lists type = none →
      (inSlot typeKey SubList.type tab.len (typeKey.slot tab.len type) lists).length ≤ 1) :
    ∃ tab' lists' list, querySubTab 2 tab type = some (tab', some list) ∧ Few typeKey SubList.type tab' lists' ∧
      list ∈ lists' ∧ list.type = type ∧
      (lists' = lists ∨ lists' = list :: lists ∧ list.groups = avlCreat SubGroup ∧
        lookup SubList.type lists type = none) := by
  rw [querySubTab, h.query typeKey_oneSided (typeKey_hashOk ..)]
  cases hl : lookup SubList.type lists type with
  | some list =>
    obtain ⟨hmem, htype⟩ := lookup_mem hl
    exact ⟨tab, lists, list, rfl, h, hmem, htype, .inl rfl⟩
  | none =>
    let list : SubList := ⟨type, avlCreat SubGroup⟩
    obtain ⟨tab', hins, h', -⟩ := Few.insert (e := list) typeKey_oneSided h (typeKey_hashOk ..) hl (hslot hl)
    have hfound : typeKey.query SubList.type tab' type = some (some list) := by
      rw [h'.query typeKey_oneSided (typeKey_hashOk ..), lookup_cons, if_pos rfl]
    refine ⟨tab', list :: lists, list, ?_, h', List.mem_cons_self, rfl, .inr ⟨rfl, rfl, rfl⟩⟩
    simp only [show typeKey.insert SubList.type tab ⟨type, avlCreat SubGroup⟩ true = some (tab', .ok) from hins,
      if_pos, querySubTab, hfound]

/-- The groups of the call's type are replaced. -/
theorem writeGroups_keeps {c : Call} (hfew : Few typeKey SubList.type S.tab lists) {list : SubList} (hl : list ∈ lists)
    (htype : list.type = c.type)
    (hkept : ∀ l ∈ lists, l.type ≠ c.type → ∃ G, G ≠ [] ∧ Kept D l.groups G (membersOf live l.type))
    (hlisted : ∀ x ∈ live, x.type ≠ c.type → ∃ l ∈ lists, l.type = x.type) {groups : AvlTree SubGroup}
    {G : List SubGroup} (hG : G ≠ []) (hnew : Kept D groups G (membersOf (c.follow live) c.type)) :
    ∃ S' lists', S.writeGroups c.type groups = some S' ∧ Keeps D S' lists' (c.follow live) ∧ S'.locked = S.locked := by
  obtain ⟨tab', hwrite, hfew', -⟩ := hfew.write typeKey_oneSided (typeKey_hashOk _ c.type)
    (g := fun list => { list with groups := groups }) fun _ => rfl
  have hmem : ∀ l, l ∈ writeAt SubList.type c.type (fun list => { list with groups := groups }) lists ↔
      l = ⟨c.type, groups⟩ ∨ l ∈ lists ∧ l.type ≠ c.type := by
    intro l
    simp only [writeAt, List.mem_map]
    constructor
    · rintro ⟨l, hl, rfl⟩
      by_cases h0 : l.type = c.type
      · rw [if_pos h0, h0]
        exact .inl rfl
      · rw [if_neg h0]
        exact .inr ⟨hl, h0⟩
    · rintro (rfl | ⟨hl, hne⟩)
      · exact ⟨list, hl, by rw [if_pos htype, htype]⟩
      · exact ⟨l, hl, if_neg hne⟩
  refine ⟨{ S with tab := tab' }, _, by rw [writeGroups, hwrite]; rfl, ⟨hfew', fun l hl => ?_, fun x hx => ?_⟩, rfl⟩
  · rcases (hmem l).1 hl with rfl | ⟨hl, hne⟩
    · exact ⟨G, hG, hnew⟩
    · rw [membersOf_other hne]
      exact hkept l hl hne
  · by_cases hx0 : x.type = c.type
    · exact ⟨_, (hmem _).2 (.inl rfl), hx0.symm⟩
    · have hlive : membersOf live x.type x.gid ⟨x.sid, x.nid⟩ := by
        rw [← membersOf_other hx0]
        exact hx
      obtain ⟨l, hl, hlx⟩ := hlisted x hlive hx0
      exact ⟨l, (hmem l).2 (.inr ⟨hl, fun h0 => hx0 (hlx.symm.trans h0)⟩), hlx⟩

/-! ## The calls -/

/-- A group that does not have a session of fewer than 512 has room for it. -/
theorem NodeFits.room (hnode : NodeFits live sck type) {T : AvlTree SubGroup} {G : List SubGroup}
    (h : Kept D T G (membersOf live type)) (hgids : Gids G) : ∀ g ∈ G, g.gid = sck.gid →
      (∀ node ∈ g.nodes.arr, node.sid ≠ sck.sid) → g.nodes.arr.length < 512 := by
  intro g hg hgid hno
  have hhas : ¬Has live type sck.gid sck.sid := by
    intro hhas
    obtain ⟨nid, hnid⟩ := has_iff.1 hhas
    rw [← hgid, h.members.iff_mem hgids hg] at hnid
    exact hno _ hnid rfl
  refine lt_of_le_of_lt ?_ (hnode hhas)
  have hnodup : (g.nodes.arr.map fun node => (⟨type, g.gid, node.sid, node.nid⟩ : Sub)).Nodup := by
    refine List.Nodup.of_map Sub.sid ?_
    rw [List.map_map]
    exact (h.filled g hg).sids
  rw [← List.length_map, ← List.toFinset_card_of_nodup hnodup]
  refine Finset.card_le_card fun x hx => ?_
  obtain ⟨node, hmem, rfl⟩ := List.mem_map.1 (List.mem_toFinset.1 hx)
  exact Finset.mem_filter.2 ⟨h.mem_live hg hmem, rfl, hgid⟩

theorem Keeps.add (K : Keeper D Ok Fit) (h : Keeps D S lists live) (hlock : S.locked (S.slotOf type) = false)
    (htype : S.TypeFits live type) (hnode : NodeFits live sck type) (hnew : Ok (avlCreat SubGroup) [] sck.gid)
    (hok : ∀ list ∈ lists, list.type = type → ∀ G, Kept D list.groups G (membersOf live type) →
      Ok list.groups G sck.gid)
    (hfit : ∀ T G, Kept D T G (membersOf live type) → (∀ g ∈ G, g.gid ≠ sck.gid) → Fit G) :
    ∃ S' lists', S.rtmqSubAdd sck type = some (S', true) ∧
      Keeps D S' lists' (Call.follow live (.add sck type)) ∧ S'.locked = S.locked := by
  obtain ⟨tab', lists', list, hquery, hfew, hl, hlt, hlists⟩ :=
    querySubTab_spec h.few fun hno => (h.inSlot_le type).trans (htype (h.lookup_eq_none.1 hno))
  have hgroups : ∃ G, Kept D list.groups G (membersOf live type) ∧ Ok list.groups G sck.gid := by
    rcases hlists with rfl | ⟨rfl, hcreat, hno⟩
    · obtain ⟨G, -, hkept⟩ := h.kept list hl
      rw [hlt] at hkept
      exact ⟨G, hkept, hok list hl hlt G hkept⟩
    · rw [hcreat]
      refine ⟨[], ⟨K.creat, by simp, fun gid node => ?_⟩, hnew⟩
      exact iff_of_false (fun hx => h.lookup_eq_none.1 hno _ hx rfl) (by simp)
  obtain ⟨G, hkept, hokG⟩ := hgroups
  obtain ⟨groups, G', hadd, hG', hkept'⟩ := K.add hkept hokG (hfit _ G hkept) (hnode.room hkept (K.gids hkept.drawn))
  rw [← membersOf_add] at hkept'
  have hold : ∀ l ∈ lists', l.type ≠ type → l ∈ lists := by
    intro l hl' hne
    rcases hlists with rfl | ⟨rfl, -⟩
    · exact hl'
    · exact (List.mem_cons.1 hl').resolve_left fun h0 => hne (h0 ▸ hlt)
  obtain ⟨S', lists'', hwrite, hkeeps, hlocked⟩ :=
    writeGroups_keeps (S := { S with tab := tab' }) (c := .add sck type) hfew hl hlt
    (fun l hl' hne => h.kept l (hold l hl' hne)) (fun x hx _ => by
      obtain ⟨l, hl', hlx⟩ := h.listed x hx
      rcases hlists with rfl | ⟨rfl, -⟩
      · exact ⟨l, hl', hlx⟩
      · exact ⟨l, List.mem_cons_of_mem _ hl', hlx⟩) hG' hkept'
  refine ⟨S', lists'', ?_, hkeeps, hlocked⟩
  unfold rtmqSubAdd
  rw [if_neg (by rw [hlock]; exact Bool.false_ne_true), hquery]
  dsimp only
  rw [hadd]
  exact congrArg (Option.map fun S => (S, true)) hwrite

/-- A call that takes nothing away. -/
theorem follow_del_of_not_has (h : ¬Has live type sck.gid sck.sid) : Call.follow live (.del sck type) = live :=
  Finset.filter_true_of_mem fun x hx hsame => h ⟨x, hx, hsame⟩

/-- The list of the type goes. -/
theorem delete_keeps (hfew : Few typeKey SubList.type S.tab lists) {list : SubList} (hl : list ∈ lists)
    (h : Keeps D S lists live) (htype : list.type = type)
    (hnone : ∀ gid node, ¬(membersOf live type).quit sck gid node) :
    ∃ tab' lists', typeKey.delete SubList.type S.tab type = some (tab', some list) ∧
      Keeps D { S with tab := tab' } lists' (Call.follow live (.del sck type)) := by
  subst htype
  have hlookup : lookup SubList.type lists list.type = some list := lookup_eq_some hfew.nodup hl
  obtain ⟨tab', hdel, hfew', -⟩ := hfew.delete typeKey_oneSided hlookup
  have hne : ∀ x ∈ Call.follow live (.del sck list.type), x.type ≠ list.type := by
    intro x hx hxl
    rw [← membersOf_del] at hnone
    refine hnone x.gid ⟨x.sid, x.nid⟩ ?_
    rw [← hxl]
    rw [← hxl] at hx
    exact hx
  refine ⟨tab', _, hdel, hfew', fun l hl' => ?_, fun x hx => ?_⟩
  · obtain ⟨hl', hltype⟩ := mem_without.1 hl'
    rw [membersOf_other (c := .del sck list.type) hltype]
    exact h.kept l hl'
  · obtain ⟨l, hl', hlx⟩ := h.listed x (Finset.mem_filter.1 hx).1
    exact ⟨l, mem_without.2 ⟨hl', fun h0 => hne x hx (hlx.symm.trans h0)⟩, hlx⟩

/-- A removal keeps the table right; it keeps the lock, if at all, where the type has a list
but no group of the gid. -/
theorem Keeps.remove (K : Keeper D Ok Fit) (h : Keeps D S lists live) (hlock : S.locked (S.slotOf type) = false)
    (hok : ∀ list ∈ lists, list.type = type → ∀ G, Kept D list.groups G (membersOf live type) →
      Ok list.groups G sck.gid) (keep : Bool) :
    ∃ S' lists', subRemove keep S sck type = some S' ∧ Keeps D S' lists' (Call.follow live (.del sck type)) ∧
      (keep = false ∨ (∀ x ∈ live, x.type ≠ type) ∨ (∃ x ∈ live, x.type = type ∧ x.gid = sck.gid) →
        S'.locked = S.locked) := by
  unfold subRemove
  rw [if_neg (by rw [hlock]; exact Bool.false_ne_true), h.few.query typeKey_oneSided (typeKey_hashOk ..)]
  cases hlookup : lookup SubList.type lists type with
  | none =>
    have hno := h.lookup_eq_none.1 hlookup
    refine ⟨S, lists, rfl, ?_, fun _ => rfl⟩
    rw [follow_del_of_not_has]
    · exact h
    · rintro ⟨x, hx, hxt, -⟩
      exact hno x hx hxt
  | some list =>
    obtain ⟨hl, hlt⟩ := lookup_mem hlookup
    obtain ⟨G, hG, hkept⟩ := h.kept list hl
    rw [hlt] at hkept
    have hgids := K.gids hkept.drawn
    have hokG := hok list hl hlt G hkept
    dsimp only
    rw [K.query hkept.drawn hokG]
    cases hfind : findBy (rtmqSubGroupCmpCb sck.gid) G with
    | none =>
      have hno : ∀ x ∈ live, ¬(x.type = type ∧ x.gid = sck.gid) := by
        rintro x hx ⟨rfl, hxg⟩
        obtain ⟨g, hg, hgx, -⟩ := (hkept.members x.gid ⟨x.sid, x.nid⟩).1 hx
        exact findBy_none.1 hfind g hg (hgx.trans hxg)
      have hkeeps : Keeps D S lists (Call.follow live (.del sck type)) := by
        rw [follow_del_of_not_has]
        · exact h
        · rintro ⟨x, hx, hxt, hxg, -⟩
          exact hno x hx ⟨hxt, hxg⟩
      refine ⟨_, lists, rfl, ?_, ?_⟩
      · split
        · exact ⟨hkeeps.few, hkeeps.kept, hkeeps.listed⟩
        · exact hkeeps
      · rintro (rfl | hnone | ⟨x, hx, hxg⟩)
        · rfl
        · obtain ⟨x, hx, hxl⟩ := h.exists_live hl
          exact absurd (hxl.trans hlt) (hnone x hx)
        · exact absurd hxg (hno x hx)
    | some g =>
      obtain ⟨hg, hgid⟩ := findBy_some hfind
      dsimp only
      cases hfd : g.nodes.vectorFindAndDel (rtmqSubGroupFindSidCb sck.sid) with
      | none =>
        refine ⟨S, lists, rfl, ?_, fun _ => rfl⟩
        rw [follow_del_of_not_has]
        · exact h
        · intro hhas
          obtain ⟨nid, hnid⟩ := has_iff.1 hhas
          rw [← hgid, hkept.members.iff_mem hgids hg] at hnid
          have hall := delFirst_eq_none.1 (Option.map_eq_none_iff.1 hfd) _ hnid
          simp [rtmqSubGroupFindSidCb] at hall
      | some nodes =>
        obtain ⟨groups, G', hdel, hne, hkept'⟩ := K.del hkept hokG hfind hfd
        have hwrite (hG' : G' ≠ []) : ∃ S' lists', S.writeGroups type groups = some S' ∧
            Keeps D S' lists' (Call.follow live (.del sck type)) ∧ S'.locked = S.locked := by
          rw [← membersOf_del] at hkept'
          exact writeGroups_keeps (c := .del sck type) h.few hl hlt (fun l hl' _ => h.kept l hl')
            (fun x hx _ => h.listed x hx) hG' hkept'
        dsimp only
        unfold delNode
        by_cases hlen : nodes.arr.length = 0
        · rw [if_pos hlen] at hdel ⊢
          obtain ⟨⟨groups', data⟩, havl, rfl⟩ := Option.map_eq_some_iff.1 hdel
          rw [havl]
          dsimp only
          by_cases hnum : groups'.num = 0
          · rw [if_pos hnum]
            have hnil : G' = [] := List.length_eq_zero_iff.1 ((K.num hkept'.drawn).symm.trans hnum)
            subst hnil
            obtain ⟨tab', lists', htab, hkeeps⟩ := delete_keeps h.few hl h hlt fun gid node hq => by
              obtain ⟨x, hx, -⟩ := (hkept'.members gid node).1 hq
              cases hx
            rw [htab]
            exact ⟨_, lists', rfl, hkeeps, fun _ => rfl⟩
          · rw [if_neg hnum]
            obtain ⟨S', lists', hw, hkeeps, hlocked⟩ := hwrite fun hnil => hnum (by rw [K.num hkept'.drawn, hnil]; rfl)
            exact ⟨S', lists', hw, hkeeps, fun _ => hlocked⟩
        · rw [if_neg hlen] at hdel ⊢
          rw [hdel]
          obtain ⟨S', lists', hw, hkeeps, hlocked⟩ := hwrite (hne hlen)
          exact ⟨S', lists', hw, hkeeps, fun _ => hlocked⟩

/-- What the table finds, the search in the groups finds. -/
theorem Reaches.found (hreach : Reaches (S, live) type gid) (h : Keeps Drawn S lists live) :
    ∀ list ∈ lists, list.type = type → ∀ G, Kept Drawn list.groups G (membersOf live type) →
      Found list.groups G gid := by
  rintro list hl rfl G hkept ⟨g, hg, rfl⟩
  obtain ⟨node, hnode⟩ := List.exists_mem_of_ne_nil _ (hkept.filled g hg).nonempty
  have hany := hreach ⟨_, hkept.mem_live hg hnode, rfl, rfl⟩
  have hlookup : lookup SubList.type lists list.type = some list := lookup_eq_some h.few.nodup hl
  unfold subNodes at hany
  rw [h.few.query typeKey_oneSided (typeKey_hashOk ..), hlookup] at hany
  dsimp only at hany
  cases hquery : list.groups.avlQuery (rtmqSubGroupCmpCb g.gid) with
  | none =>
    rw [hquery] at hany
    cases hany
  | some found =>
    cases found with
    | none =>
      rw [hquery] at hany
      cases hany
    | some group => rfl

/-- A removal of what is not there changes nothing, whether the search finds the group or not. -/
theorem Keeps.remove_of_not_has (h : Keeps Drawn S lists live) (hlock : S.locked (S.slotOf type) = false)
    (hno : ¬Has live type sck.gid sck.sid) : S.rtmqRsvrSckSubItemFree sck type = some S := by
  unfold rtmqRsvrSckSubItemFree subRemove
  rw [if_neg (by rw [hlock]; exact Bool.false_ne_true), h.few.query typeKey_oneSided (typeKey_hashOk ..)]
  cases hlookup : lookup SubList.type lists type with
  | none => rfl
  | some list =>
    obtain ⟨hl, rfl⟩ := lookup_mem hlookup
    obtain ⟨G, -, hkept⟩ := h.kept list hl
    obtain ⟨t, hwf, rfl⟩ := hkept.drawn.tree
    dsimp only
    rw [avlQuery_eq hwf]
    cases hmeet : meetBy (rtmqSubGroupCmpCb sck.gid) t with
    | none => rfl
    | some g =>
      obtain ⟨h0, hperm⟩ := dropBy_perm hmeet
      have hg : g ∈ t.toList := hperm.mem_iff.2 List.mem_cons_self
      have hfind : g.nodes.vectorFindAndDel (rtmqSubGroupFindSidCb sck.sid) = none := by
        refine Option.map_eq_none_iff.2 (delFirst_eq_none.2 fun node hnode => ?_)
        refine decide_eq_false fun hsid => hno ?_
        exact ⟨_, hkept.mem_live hg hnode, rfl, cmp_eq_zero.1 h0, hsid⟩
      dsimp only
      rw [hfind]

end SubTab

end BeehiveIm.Rtmq
