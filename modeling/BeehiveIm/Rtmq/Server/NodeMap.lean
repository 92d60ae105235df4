/-
The map from a node to the threads that serve it: what `rtmq_node_to_svr_map_add` and
`rtmq_node_to_svr_map_del` leave of the entries. The comparison of two nids may wrap around, so that
a search may miss an item; an insertion then makes a second one.
-/
import BeehiveIm.Core.AvlTree.Trav
import BeehiveIm.Rtmq.Server

namespace BeehiveIm.Rtmq

open BeehiveIm.Lib BeehiveIm.Core AvlTree Vec

/-- The entries of a node. -/
def entries (items : List NodeToSvrMap) (nid : BitVec 32) : List Nat :=
  (lookup NodeToSvrMap.nid items nid).elim [] NodeToSvrMap.rsvrId

/-- One item for a node. -/
def Keyed (items : List NodeToSvrMap) : Prop := (items.map NodeToSvrMap.nid).Nodup

variable {maps : AvlTree NodeToSvrMap} {t : PTree Int NodeToSvrMap} {items items' : List NodeToSvrMap}
  {map : NodeToSvrMap} {nid n : BitVec 32} {r : Nat}

theorem rtmqNodeToSvrMapCmpCb_eq_zero : rtmqNodeToSvrMapCmpCb nid map = 0 ↔ map.nid = nid :=
  (toInt_sub_eq_zero nid map.nid).trans eq_comm

theorem Keyed.atMostOne (h : Keyed items) (nid : BitVec 32) : AtMostOne (rtmqNodeToSvrMapCmpCb nid) items := by
  refine (List.pairwise_map.1 h).imp fun {a b} hne ha hb => hne ?_
  rw [rtmqNodeToSvrMapCmpCb_eq_zero.1 ha, rtmqNodeToSvrMapCmpCb_eq_zero.1 hb]

theorem findBy_nid (items : List NodeToSvrMap) (nid : BitVec 32) :
    findBy (rtmqNodeToSvrMapCmpCb nid) items = lookup NodeToSvrMap.nid items nid := by
  unfold findBy lookup
  congr 1
  funext map
  rw [beq_eq_decide]
  exact decide_eq_decide.2 rtmqNodeToSvrMapCmpCb_eq_zero

theorem writeBy_nid (g : NodeToSvrMap → NodeToSvrMap) (items : List NodeToSvrMap) (nid : BitVec 32) :
    writeBy (rtmqNodeToSvrMapCmpCb nid) g items = writeAt NodeToSvrMap.nid nid g items := by
  refine List.map_congr_left fun map _ => ?_
  simp only [rtmqNodeToSvrMapCmpCb_eq_zero]

theorem meetBy_nid (h : Keyed t.toList) (hmeet : meetBy (rtmqNodeToSvrMapCmpCb nid) t = some map) :
    map ∈ t.toList ∧ map.nid = nid ∧ lookup NodeToSvrMap.nid t.toList nid = some map := by
  obtain ⟨h0, hperm⟩ := dropBy_perm hmeet
  have hmem : map ∈ t.toList := hperm.mem_iff.2 List.mem_cons_self
  have hnid := rtmqNodeToSvrMapCmpCb_eq_zero.1 h0
  refine ⟨hmem, hnid, ?_⟩
  rw [← hnid]
  exact lookup_eq_some h hmem

theorem Keyed.perm (h : Keyed items) (hp : items.Perm items') : Keyed items' := (hp.map _).nodup_iff.1 h

theorem entries_perm (h : Keyed items) (hp : items.Perm items') (n : BitVec 32) :
    entries items n = entries items' n := by
  unfold entries
  congr 1
  cases hl : lookup NodeToSvrMap.nid items n with
  | none =>
    rw [lookup_eq_none] at hl
    exact (lookup_eq_none.2 fun map hmap => hl map (hp.mem_iff.2 hmap)).symm
  | some map =>
    obtain ⟨hmem, rfl⟩ := lookup_mem hl
    exact (lookup_eq_some (h.perm hp) (hp.mem_iff.1 hmem)).symm

theorem entries_cons : entries (map :: items) n = if map.nid = n then map.rsvrId else entries items n := by
  unfold entries
  rw [lookup_cons]
  split
  · rfl
  · rfl

/-- The entries of one item change. -/
theorem write_entries (h : Keyed items) (hl : lookup NodeToSvrMap.nid items nid = some map)
    (g : List Nat → List Nat)
    (hlist : items' = writeAt NodeToSvrMap.nid nid (fun map => { map with rsvrId := g map.rsvrId }) items) :
    Keyed items' ∧ ∀ n, entries items' n = if n = nid then g (entries items nid) else entries items n := by
  subst hlist
  have hkey : ∀ map : NodeToSvrMap, ({ map with rsvrId := g map.rsvrId } : NodeToSvrMap).nid = map.nid := fun _ => rfl
  constructor
  · unfold Keyed
    rw [map_key_writeAt hkey]
    exact h
  · intro n
    unfold entries
    rw [lookup_writeAt hkey]
    split
    · rw [hl]; rfl
    · rfl

/-! ## Addition -/

/-- Whatever the searches find, the tree stays one. -/
theorem rtmqNodeToSvrMapAdd_wf (h : Wf maps t) (nid : BitVec 32) (r : Nat) :
    ∃ maps' ret t', rtmqNodeToSvrMapAdd maps nid r = some (maps', ret) ∧ Wf maps' t' := by
  unfold rtmqNodeToSvrMapAdd
  rw [avlQuery_eq h]
  cases hmeet : meetBy (rtmqNodeToSvrMapCmpCb nid) t with
  | none =>
    obtain ⟨maps', hins, t', hwf, -⟩ := avlInsert_placed (d := ⟨nid, [r]⟩) h hmeet
    exact ⟨maps', true, t', by rw [hins]; rfl, hwf⟩
  | some map =>
    dsimp only
    split
    · exact ⟨maps, false, t, rfl, h⟩
    · obtain ⟨maps', hwrite, hwf⟩ := avlWrite_alter h (rtmqNodeToSvrMapCmpCb nid)
        fun map => { map with rsvrId := map.rsvrId ++ [r] }
      exact ⟨maps', true, _, by rw [hwrite]; rfl, hwf⟩

/-- The search for a node finds the item that is there. -/
def Meets (t : PTree Int NodeToSvrMap) (nid : BitVec 32) : Prop :=
  meetBy (rtmqNodeToSvrMapCmpCb nid) t = lookup NodeToSvrMap.nid t.toList nid

theorem rtmqNodeToSvrMapAdd_full (h : Wf maps t) (hmeets : Meets t nid)
    (hfull : nodeToSvrMaxLen ≤ (entries t.toList nid).length) (r : Nat) :
    rtmqNodeToSvrMapAdd maps nid r = some (maps, false) := by
  unfold entries at hfull
  rw [← hmeets] at hfull
  unfold rtmqNodeToSvrMapAdd
  rw [avlQuery_eq h]
  cases hmeet : meetBy (rtmqNodeToSvrMapCmpCb nid) t with
  | none =>
    rw [hmeet] at hfull
    exact absurd hfull (by decide)
  | some map =>
    rw [hmeet] at hfull
    exact if_pos hfull

theorem rtmqNodeToSvrMapAdd_spec (h : Wf maps t) (hd : Keyed t.toList) (hmeets : Meets t nid)
    (hroom : (entries t.toList nid).length < nodeToSvrMaxLen) (r : Nat) :
    ∃ maps' t', rtmqNodeToSvrMapAdd maps nid r = some (maps', true) ∧ Wf maps' t' ∧ Keyed t'.toList ∧
      ∀ n, entries t'.toList n = if n = nid then entries t.toList nid ++ [r] else entries t.toList n := by
  unfold rtmqNodeToSvrMapAdd
  rw [avlQuery_eq h]
  cases hmeet : meetBy (rtmqNodeToSvrMapCmpCb nid) t with
  | none =>
    have hnone : lookup NodeToSvrMap.nid t.toList nid = none := hmeets.symm.trans hmeet
    obtain ⟨maps', hins, t', hwf, hlist⟩ := avlInsert_placed (d := ⟨nid, [r]⟩) h hmeet
    have hperm : (⟨nid, [r]⟩ :: t.toList).Perm t'.toList := by
      rw [hlist]
      exact (placeBy_perm t).symm
    have hd' : Keyed (⟨nid, [r]⟩ :: t.toList) := by
      refine List.nodup_cons.2 ⟨fun hmem => ?_, hd⟩
      obtain ⟨map, hmap, hnid⟩ := List.mem_map.1 hmem
      exact lookup_eq_none.1 hnone map hmap hnid
    refine ⟨maps', t', by rw [hins]; rfl, hwf, hd'.perm hperm, fun n => ?_⟩
    rw [← entries_perm hd' hperm, entries_cons]
    by_cases hn : n = nid
    · subst hn
      unfold entries
      rw [if_pos rfl, if_pos rfl, hnone]
      rfl
    · rw [if_neg (Ne.symm hn), if_neg hn]
  | some map =>
    obtain ⟨hmem, hnid, hlook⟩ := meetBy_nid hd hmeet
    have hentries : entries t.toList nid = map.rsvrId := by
      unfold entries
      rw [hlook]
      rfl
    rw [hentries] at hroom
    obtain ⟨maps', hwrite, t', hwf, hlist⟩ := avlWrite_met h (hd.atMostOne nid) (hmeets.trans (findBy_nid _ _).symm)
      fun map => { map with rsvrId := map.rsvrId ++ [r] }
    rw [writeBy_nid] at hlist
    refine ⟨maps', t', ?_, hwf, write_entries hd hlook (· ++ [r]) hlist⟩
    dsimp only
    rw [if_neg (by omega), hwrite]
    rfl

/-! ## Deletion -/

theorem rtmqNodeToSvrMapDel_wf (h : Wf maps t) (nid : BitVec 32) (r : Nat) :
    ∃ maps' t', rtmqNodeToSvrMapDel maps nid r = some maps' ∧ Wf maps' t' := by
  unfold rtmqNodeToSvrMapDel
  rw [avlQuery_eq h]
  cases hmeet : meetBy (rtmqNodeToSvrMapCmpCb nid) t with
  | none => exact ⟨maps, t, rfl, h⟩
  | some map =>
    dsimp only
    split
    · exact ⟨maps, t, rfl, h⟩
    · obtain ⟨maps', hdel, t', hwf, -⟩ := avlDelete_dropped h hmeet
      exact ⟨maps', t', by rw [hdel]; rfl, hwf⟩
    · rename_i rsvrId _ _
      obtain ⟨maps', hwrite, hwf⟩ := avlWrite_alter h (rtmqNodeToSvrMapCmpCb nid)
        fun map => { map with rsvrId := rsvrId }
      exact ⟨maps', _, hwrite, hwf⟩

/-- A node without an entry of the thread is left alone. -/
theorem rtmqNodeToSvrMapDel_absent (h : Wf maps t) (hd : Keyed t.toList) (hr : r ∉ entries t.toList nid) :
    rtmqNodeToSvrMapDel maps nid r = some maps := by
  unfold rtmqNodeToSvrMapDel
  rw [avlQuery_eq h]
  cases hmeet : meetBy (rtmqNodeToSvrMapCmpCb nid) t with
  | none => rfl
  | some map =>
    obtain ⟨-, -, hlook⟩ := meetBy_nid hd hmeet
    unfold entries at hr
    rw [hlook] at hr
    have hnone : delFirst (fun x => x = r) map.rsvrId = none := by
      refine delFirst_eq_none.2 fun x hx => decide_eq_false ?_
      rintro rfl
      exact hr hx
    dsimp only
    rw [hnone]

/-- An entry of the thread goes. -/
theorem rtmqNodeToSvrMapDel_spec (h : Wf maps t) (hd : Keyed t.toList) (hmeets : Meets t nid)
    (hr : r ∈ entries t.toList nid) :
    ∃ maps' t', rtmqNodeToSvrMapDel maps nid r = some maps' ∧ Wf maps' t' ∧ Keyed t'.toList ∧
      ∀ n, (entries t'.toList n).Perm (if n = nid then (entries t.toList nid).erase r else entries t.toList n) := by
  unfold rtmqNodeToSvrMapDel
  rw [avlQuery_eq h]
  cases hmeet : meetBy (rtmqNodeToSvrMapCmpCb nid) t with
  | none =>
    unfold entries at hr
    rw [← hmeets, hmeet] at hr
    cases hr
  | some map =>
    obtain ⟨hmem, hnid, hlook⟩ := meetBy_nid hd hmeet
    have hentries : entries t.toList nid = map.rsvrId := by
      unfold entries
      rw [hlook]
      rfl
    dsimp only
    cases hdelf : delFirst (fun x => x = r) map.rsvrId with
    | none =>
      rw [hentries] at hr
      have := delFirst_eq_none.1 hdelf r hr
      simp at this
    | some l =>
      obtain ⟨x, hx, hperm⟩ := delFirst_perm hdelf
      obtain rfl : x = r := by simpa using hx
      have herase : l.Perm ((entries t.toList nid).erase x) := by
        rw [hentries]
        simpa using (hperm.erase x).symm
      cases l with
      | nil =>
        obtain ⟨maps', hdel, t', hwf, hlist⟩ := avlDelete_dropped h hmeet
        obtain ⟨-, hdrop⟩ := dropBy_perm hmeet
        rw [← hlist] at hdrop
        have hd' := hd.perm hdrop
        refine ⟨maps', t', by rw [hdel]; rfl, hwf, (List.nodup_cons.1 hd').2, fun n => ?_⟩
        rw [entries_perm hd hdrop n, entries_cons]
        split
        · rename_i hn
          have hnone : lookup NodeToSvrMap.nid t'.toList n = none := by
            refine lookup_eq_none.2 fun m hm hmn => (List.nodup_cons.1 hd').1 ?_
            rw [hnid, ← hn, ← hmn]
            exact List.mem_map_of_mem hm
          unfold entries at herase ⊢
          rw [hnone]
          exact herase
        · rename_i hn
          rw [if_neg fun h' => hn (h'.symm.trans hnid)]
      | cons y l =>
        obtain ⟨maps', hwrite, t', hwf, hlist⟩ := avlWrite_met h (hd.atMostOne nid)
          (hmeets.trans (findBy_nid _ _).symm) fun map => { map with rsvrId := y :: l }
        rw [writeBy_nid] at hlist
        obtain ⟨hd', hentries'⟩ := write_entries hd hlook (fun _ => y :: l) hlist
        refine ⟨maps', t', hwrite, hwf, hd', fun n => ?_⟩
        rw [hentries']
        split
        · exact herase
        · exact .refl _

end BeehiveIm.Rtmq
