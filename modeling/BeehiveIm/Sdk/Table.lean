/-
The send table as the map of the items that are in it, each under its number. The comparison is a
signed difference: it orders numbers that lie within half of their range, and no others.
-/
import BeehiveIm.Core.RbTree.Run
import BeehiveIm.Core.RbTree.Trav
import BeehiveIm.Sdk

namespace BeehiveIm.Sdk

open BeehiveIm.Core BeehiveIm.Core.RbTree BeehiveIm.Lib

/-- The numbers lie within half of their range, from one of them on. -/
def InHalf (seqs : List Seq) : Prop := ∃ base ∈ seqs, ∀ seq ∈ seqs, (seq - base).toNat < 2 ^ 63

-- over the elements of the list: a search over all numbers would not end
instance (seqs : List Seq) : Decidable (InHalf seqs) :=
  decidable_of_iff (seqs.any fun base => seqs.all fun seq => (seq - base).toNat < 2 ^ 63) (by simp [InHalf])

/-- `sdk_send_mgr_cmp_cb` -/
abbrev cmpNode (a b : Node) : Int := sdkSendMgrCmpCb a.seq b

theorem toInt_sub (x y base : Seq) (hx : (x - base).toNat < 2 ^ 63) (hy : (y - base).toNat < 2 ^ 63) :
    (x - y).toInt = (x - base).toNat - (y - base).toNat := by
  rw [BitVec.toInt_eq_toNat_cond]
  simp only [BitVec.toNat_sub] at hx hy ⊢
  have := x.isLt
  have := y.isLt
  have := base.isLt
  split <;> omega

theorem cmpOn_of_inHalf {seqs : List Seq} (h : InHalf seqs) {S : Set Node} (hS : ∀ a ∈ S, a.seq ∈ seqs) :
    CmpOn cmpNode S := by
  obtain ⟨base, -, hbase⟩ := h
  have hcmp : ∀ a ∈ S, ∀ b ∈ S, cmpNode a b = (a.seq - base).toNat - (b.seq - base).toNat := fun a ha b hb =>
    toInt_sub a.seq b.seq base (hbase _ (hS a ha)) (hbase _ (hS b hb))
  refine ⟨fun a ha b hb => ?_, fun a ha b hb c hc hab hbc => ?_⟩
  · rw [hcmp a ha b hb, hcmp b hb a ha]
    omega
  · rw [hcmp a ha b hb] at hab
    rw [hcmp b hb c hc] at hbc
    rw [hcmp a ha c hc]
    omega

theorem sdkSendMgrCmpCb_eq_zero {seq : Seq} {node : Node} : sdkSendMgrCmpCb seq node = 0 ↔ node.seq = seq := by
  have hzero : ((0 : Seq).toInt) = 0 := rfl
  rw [sdkSendMgrCmpCb, ← hzero, BitVec.toInt_inj]
  constructor
  · intro h
    bv_omega
  · intro h
    simp [h]

/-- The tree holds these items, and its comparison orders their numbers. -/
structure Holds (T : RbTree Node) (tab : Seq → Option Nat) : Prop where
  tree : ∃ t, Wf T t ∧ Sorted cmpNode t.toList ∧ CmpOn cmpNode {n | n ∈ t.toList} ∧
    ∀ n, n ∈ t.toList ↔ tab n.seq = some n.item

variable {T : RbTree Node} {tab : Seq → Option Nat} {seq : Seq} {m : Nat}

theorem rbtCreat_holds : Holds (rbtCreat Node) fun _ => none :=
  ⟨.nil, rbtCreat_wf, List.Pairwise.nil, ⟨(fun _ h => by cases h), (fun _ h => by cases h)⟩, by simp⟩

theorem splits_insert {l : List Node} {node : Node} (hs : Sorted cmpNode l)
    (hc : CmpOn cmpNode (insert node {n | n ∈ l})) : Splits (sdkSendMgrCmpCb node.seq) l :=
  hs.splits hc

/-- A number that is in the table is compared as the element that has it. -/
theorem splits_of_mem {l : List Node} {node : Node} (hs : Sorted cmpNode l) (hc : CmpOn cmpNode {n | n ∈ l})
    (hn : node ∈ l) : Splits (sdkSendMgrCmpCb node.seq) l :=
  splits_insert hs (hc.mono (by simpa [Set.insert_subset_iff] using hn))

theorem Holds.query (h : Holds T tab) (seq : Seq) :
    T.rbtQuery (sdkSendMgrCmpCb seq) = some ((tab seq).map (⟨seq, ·⟩)) := by
  obtain ⟨t, hwf, hs, hc, hmem⟩ := h.tree
  cases hm : tab seq with
  | none =>
    refine rbtQuery_none hwf (findBy_eq_none.2 fun node hn hzero => ?_)
    rw [sdkSendMgrCmpCb_eq_zero] at hzero
    rw [hmem, hzero, hm] at hn
    cases hn
  | some m =>
    have hn : (⟨seq, m⟩ : Node) ∈ t.toList := (hmem _).2 hm
    have hsp := splits_of_mem hs hc hn
    rw [rbtQuery_spec hwf hsp, findBy_eq_some hsp hn (sdkSendMgrCmpCb_eq_zero.2 rfl)]
    rfl

theorem Holds.delete_some (h : Holds T tab) (hm : tab seq = some m) :
    ∃ T', T.rbtDelete (sdkSendMgrCmpCb seq) = some (T', some ⟨seq, m⟩) ∧ Holds T' (Function.update tab seq none) := by
  obtain ⟨t, hwf, hs, hc, hmem⟩ := h.tree
  have hn : (⟨seq, m⟩ : Node) ∈ t.toList := (hmem _).2 hm
  have hsp := splits_of_mem hs hc hn
  obtain ⟨T', hT', t', hwf', hl⟩ := rbtDelete_some hwf hsp (findBy_eq_some hsp hn (sdkSendMgrCmpCb_eq_zero.2 rfl))
  refine ⟨T', hT', t', hwf', ?_, ?_, fun n => ?_⟩
  · rw [hl]
    exact hs.sublist List.filter_sublist
  · refine hc.mono fun n (hn : n ∈ t'.toList) => ?_
    rw [hl, mem_eraseBy] at hn
    exact hn.1
  · rw [hl, mem_eraseBy, hmem, ne_eq, sdkSendMgrCmpCb_eq_zero]
    by_cases hseq : n.seq = seq
    · simp [hseq]
    · simp [hseq]

theorem Holds.trav (h : Holds T tab) : ∃ l, T.rbtTrav = some l ∧ (∀ n, n ∈ l ↔ tab n.seq = some n.item) ∧
    (l.map Node.seq).Nodup := by
  obtain ⟨t, hwf, hs, hc, hmem⟩ := h.tree
  refine ⟨t.toList, rbtTrav_eq hwf, hmem, ?_⟩
  rw [List.Nodup, List.pairwise_map]
  refine hs.imp fun {a b} hab heq => ?_
  have hzero : cmpNode a b = 0 := sdkSendMgrCmpCb_eq_zero.2 heq.symm
  omega

/-- An insertion of a number that is in the table, or without memory, leaves the table. -/
theorem Holds.add (h : Holds T tab) (node : Node) {nodes : List Node} (htrav : T.rbtTrav = some nodes)
    (hhalf : InHalf (node.seq :: nodes.map Node.seq)) (mem : Bool) :
    (∃ ret, ret ≠ .ok ∧ T.rbtInsert (sdkSendMgrCmpCb node.seq) node mem = some (T, ret)) ∨
    tab node.seq = none ∧ ∃ T', T.rbtInsert (sdkSendMgrCmpCb node.seq) node mem = some (T', .ok) ∧
      Holds T' (Function.update tab node.seq (some node.item)) := by
  obtain ⟨t, hwf, hs, hc, hmem⟩ := h.tree
  obtain rfl : t.toList = nodes := Option.some.inj ((rbtTrav_eq hwf).symm.trans htrav)
  have hc' : CmpOn cmpNode (insert node {n | n ∈ t.toList}) := by
    refine cmpOn_of_inHalf hhalf ?_
    rintro a (rfl | ha)
    · exact List.mem_cons_self
    · exact List.mem_cons_of_mem _ (List.mem_map_of_mem ha)
  have hsp := splits_insert hs hc'
  cases hf : findBy (sdkSendMgrCmpCb node.seq) t.toList with
  | some found => exact .inl ⟨.nodeExist, by decide, rbtInsert_exist hwf hsp hf⟩
  | none =>
    cases mem with
    | false => exact .inl ⟨.err, by decide, rbtInsert_err hwf hsp hf⟩
    | true =>
      have hne := findBy_eq_none.1 hf
      obtain ⟨T', hT', t', hwf', hl⟩ := rbtInsert_ok (d := node) hwf hsp hf
      have hnone : tab node.seq = none := by
        cases hm : tab node.seq with
        | none => rfl
        | some m => exact absurd (sdkSendMgrCmpCb_eq_zero.2 rfl) (hne ⟨node.seq, m⟩ ((hmem _).2 hm))
      refine .inr ⟨hnone, T', hT', t', hwf', ?_, ?_, fun n => ?_⟩
      · rw [hl]
        exact hs.insertBy hc'
      · refine hc'.mono fun n (hn : n ∈ t'.toList) => ?_
        rw [hl, mem_insertBy hne] at hn
        exact hn
      · rw [hl, mem_insertBy hne, hmem]
        by_cases hseq : n.seq = node.seq
        · rw [hseq, Function.update_self, hnone]
          constructor
          · rintro (rfl | hn)
            · rfl
            · cases hn
          · intro hn
            have hitem : n.item = node.item := (Option.some.inj hn).symm
            exact .inl (by rw [Node.mk.injEq, hseq, hitem]; exact ⟨rfl, rfl⟩)
        · rw [Function.update_of_ne hseq]
          constructor
          · rintro (rfl | hn)
            · exact absurd rfl hseq
            · exact hn
          · exact .inr

end BeehiveIm.Sdk
