/-
A message accepted goes from the queue through the vector to its acknowledgement, or out at a
timeout or a failure, as long as the numbers in the table lie within half of their range and a reply
is one to a message that was sent.
-/
import BeehiveIm.Lib.Run
import BeehiveIm.Sdk.Steps

namespace BeehiveIm.Sdk

open BeehiveIm.Core BeehiveIm.Lib

variable {w w' : World} {tab : Seq → Option Nat} {m : Nat}

/-- The items in the table. -/
def World.nodes (w : World) : List Node := w.tab.rbtTrav.getD []

/-! ## What a stage says -/

namespace Stage

variable {v : View}

/-- A message that the vector refers to is being sent. -/
theorem of_vector (h : Stage v) (hv : 0 < v.vector) : v = ⟨.sending, v.cb, true, 0, 1, [], 0, 0, none⟩ := by
  cases h with
  | sending cb => rfl
  | queued => cases hv
  | sent => cases hv
  | dropped => cases hv
  | acked => cases hv
  | gone => cases hv

theorem of_queued (h : Stage v) (hq : 0 < v.queued) : v = ⟨.inSendq, v.cb, true, 1, 0, [], 0, 0, none⟩ := by
  cases h with
  | queued cb n hn =>
    have hone : n = 1 := by
      have hpos : 0 < n := hq
      omega
    subst hone
    rfl
  | sending => cases hq
  | sent => cases hq
  | dropped => cases hq
  | acked => cases hq
  | gone => cases hq

/-- A message in the table that no handler is about to close. -/
theorem of_listed (h : Stage v) (hl : v.listed = true) (hc : v.closing = none) :
    (∃ n ≤ 1, v = ⟨.inSendq, v.cb, true, n, 0, [], 0, 0, none⟩) ∨ v = ⟨.sending, v.cb, true, 0, 1, [], 0, 0, none⟩ ∨
    v = ⟨.sendSucc, v.cb, true, 0, 0, heard v.cb [.sendSucc], 0, 0, none⟩ := by
  cases h with
  | queued cb n hn => exact .inl ⟨n, hn, rfl⟩
  | sending cb => exact .inr (.inl rfl)
  | sent cb => exact .inr (.inr rfl)
  | dropped => cases hc
  | acked => cases hl
  | gone => cases hl

/-- A message about to be closed, still in the table. -/
theorem of_dropped (h : Stage v) (hc : v.closing = some true) :
    ∃ stat, (stat = .sendTimeout ∨ stat = .sendFail) ∧
    v = ⟨stat, v.cb, true, 0, 0, heard v.cb [stat], 0, 0, some true⟩ := by
  cases h with
  | dropped cb stat hstat => exact ⟨stat, hstat, rfl⟩
  | queued => cases hc
  | sending => cases hc
  | sent => cases hc
  | acked => cases hc
  | gone => cases hc

end Stage

theorem heard_append (cb : Bool) (a b : List SendStat) : heard cb a ++ heard cb b = heard cb (a ++ b) := by
  cases cb <;> rfl

namespace Inv

theorem view_of_mem (h : Inv w tab) (hm : m ∈ w.accepted) : Stage (w.view tab m) := h.stage m hm (by simp)

theorem listed_iff : (w.view tab m).listed = true ↔ tab (w.item m).seq = some m := by simp [World.view]

/-! ## The server thread's own messages -/

theorem pushMesg (h : Inv w tab) (type length : Nat) (addr link : Bool) :
    Inv (w.pushMesg type length addr link) tab := by
  have hbase := h.toBase.pushMesg type length addr link
  have hown := Base.own_next h.toBase (w.seq + 1) ⟨type, length % 2 ^ 32, w.seq + 1⟩ w.mesgList
  rw [World.pushMesg] at hbase ⊢
  split at hbase
  · rename_i haddr
    rw [if_pos haddr]
    have hnext : ∀ mesgList, Base { w with
        seq := w.seq + 1, head := Function.update w.head w.next ⟨type, length % 2 ^ 32, w.seq + 1⟩, next := w.next + 1,
        mesgList := mesgList } → Inv { w with
        seq := w.seq + 1, head := Function.update w.head w.next ⟨type, length % 2 ^ 32, w.seq + 1⟩, next := w.next + 1,
        mesgList := mesgList } tab := fun mesgList hb =>
      { h with
        toBase := hb
        fresh := fun m hm => h.fresh m (Nat.le_of_succ_le hm) }
    simp only at hbase ⊢
    split at hbase
    · rename_i hlink
      rw [if_pos hlink]
      exact hnext _ hbase
    · rename_i hlink
      rw [if_neg hlink]
      have hpush := hnext w.mesgList (h.toBase.putMesg _ (Nat.mod_lt _ (by decide)) fun _ ha => .inl ha)
      exact hpush.freeOwn [] [w.next] (by simpa using hown)
  · rename_i haddr
    rw [if_neg haddr]
    exact h

/-! ## The calls -/

theorem hangUp (h : Inv w tab) (t : Nat) : Inv { w with calls := Function.update w.calls t none } tab :=
  { h with
    toBase := h.toBase.hangUp t
    pending := fun t' c hc => by
      rcases Base.calls_goOn hc with ⟨-, hnone⟩ | ⟨-, hc⟩
      · cases hnone
      · exact h.pending t' c hc }

/-- The message of a call that is over is in no books. -/
theorem own_hangUp (h : Inv w tab) {t : Nat} {c : Call} (hc : w.calls t = some c) :
    World.Own { w with calls := Function.update w.calls t none } c.mesg := by
  refine ⟨⟨(h.call t c hc).1, fun t' c' hc' heq => ?_⟩, fun hacc => h.ne_of_call hacc hc rfl⟩
  rcases Base.calls_goOn hc' with ⟨-, hnone⟩ | ⟨hne, hc'⟩
  · cases hnone
  · exact hne (h.calls t' t c' c hc' hc heq)

theorem sdkAsyncSend (h : Inv w tab) {t : Nat} {req : Request} (ht : w.calls t = none)
    (hs : w.sdkAsyncSend t req = some w') : Inv w' tab := by
  have hbase := h.toBase.sdkAsyncSend ht hs
  rw [World.sdkAsyncSend] at hs
  split at hs
  · cases hs
    exact { h with
      toBase := hbase
      pending := fun t' c hc => by
        rcases Base.calls_goOn hc with ⟨-, hsome⟩ | ⟨-, hc⟩
        · cases hsome
          exact ⟨h.fresh w.next (le_refl _), fun m hm => by cases hm⟩
        · exact h.pending t' c hc
      fresh := fun m hm => h.fresh m (Nat.le_of_succ_le hm) }
  · have hnext : Inv { w with next := w.next + 1 } tab :=
      { h with
        toBase := by
          have hg := h.toBase.goOn t none (Nat.le_succ _) (by simp)
          rwa [← ht, Function.update_eq_self] at hg
        fresh := fun m hm => h.fresh m (Nat.le_of_succ_le hm) }
    have hset : World.Settled { w with next := w.next + 1 } w.next :=
      ⟨Nat.lt_succ_self _, fun t c hc => Nat.ne_of_lt (h.call t c hc).1⟩
    exact hnext.callBack hset (fun hacc => absurd (h.accepted _ hacc).1.1 (Nat.lt_irrefl _)) hs

/-- The message of a call gets its number. -/
theorem number (h : Inv w tab) {t : Nat} {req : Request} (hc : w.calls t = some (.checked m req)) (seq : Seq)
    (head : MesgHead)
    (hlen : head.length < 2 ^ 32) (item : Nat → SendItem) (hitem : ∀ m', m' ≠ m → item m' = w.item m') :
    Inv { w with seq := seq, head := Function.update w.head m head, item := item } tab := by
  have hne : ∀ m' ∈ w.accepted, item m' = w.item m' := fun m' hm' => hitem m' fun heq => h.ne_of_call hm' hc heq.symm
  exact { h with
    toBase := h.toBase.number hc seq head hlen item hitem
    listed := fun seq' m' hm' => by
      have hl := h.listed seq' m' hm'
      simp only [hne m' hl.2]
      exact hl
    stage := fun m' hm' hout => by
      have hview : World.view { w with seq := seq, head := Function.update w.head m head, item := item } tab m' =
          w.view tab m' := by
        simp only [World.view, hne m' hm']
        rfl
      rw [hview]
      exact h.stage m' hm' hout
    pending := fun t' c hc' => by
      refine ⟨(h.pending t' c hc').1, fun m' hm' => ?_⟩
      have hne' : m' ≠ m := by
        rintro rfl
        have ht := h.calls t' t c _ hc' hc (by rw [hm']; rfl)
        rw [ht, hc, hm'] at hc'
        cases hc'
      simp only [hitem m' hne']
      exact (h.pending t' c hc').2 m' hm' }

theorem sdkGenSeq (h : Inv w tab) {t : Nat} {req : Request} {addr item : Bool} (hc : w.calls t = some (.checked m req))
    (hs : w.sdkGenSeq t m req addr item = some w') : Inv w' tab := by
  have hlen : req.size % 2 ^ 32 < 2 ^ 32 := Nat.mod_lt _ (by decide)
  have hbase := h.toBase.sdkGenSeq hc hs
  rw [World.sdkGenSeq] at hs
  split at hs
  · simp only at hs
    split at hs
    · cases hs
      have hn := h.number hc (w.seq + 1) ⟨req.cmd, req.size % 2 ^ 32, w.seq + 1⟩ hlen
        (Function.update w.item m ⟨w.seq + 1, .inSendq, req.cmd, req.size, w.clock + req.timeout, m, req.cb, req.param⟩)
        (fun m' hne => Function.update_of_ne hne _ _)
      exact { hn with
        toBase := hbase
        pending := fun t' c hc' => by
          rcases Base.calls_goOn hc' with ⟨-, hsome⟩ | ⟨-, hc'⟩
          · cases hsome
            refine ⟨(h.pending t _ hc).1, fun m' hm' => ?_⟩
            cases hm'
            simp
          · exact hn.pending t' c hc' }
    · obtain ⟨w₁, hcall, rfl⟩ := Option.map_eq_some_iff.1 hs
      have hn := h.number hc (w.seq + 1) ⟨req.cmd, req.size % 2 ^ 32, w.seq + 1⟩ hlen w.item (fun _ _ => rfl)
      have hown := hn.own_hangUp hc
      have hcalled := (hn.hangUp t).callBack hown.1 (fun hacc => absurd hacc hown.2) hcall
      obtain ⟨_, -, rfl⟩ := Option.map_eq_some_iff.1 hcall
      refine hcalled.freeOwn [] [m] fun addr ha => ?_
      obtain rfl := List.mem_singleton.1 ha
      exact hown
  · have hown := h.own_hangUp hc
    exact (h.hangUp t).callBack hown.1 (fun hacc => absurd hacc hown.2) hs

theorem count_vector (h : Inv w tab) {m' : Nat} (hset : ¬w.Settled m') : w.vector.count m' = 0 := by
  refine List.count_eq_zero.2 fun hin => hset ?_
  obtain ⟨orig, ho, rfl⟩ := List.mem_map.1 hin
  exact h.settled_of_entry (h.entry orig ho)

theorem count_queue (h : Inv w tab) {m' : Nat} (hset : ¬w.Settled m') : (w.pc.hand ++ w.sendq).count m' = 0 :=
  List.count_eq_zero.2 fun hin => hset (h.accepted m' (h.queue m' hin)).1

/-- A message is accepted: it is in the table, and in the queue if there was memory for it. -/
theorem accept (h : Inv w tab) {t : Nat} (hc : w.calls t = some (.ready m)) {T : RbTree Node}
    (hnone : tab (w.item m).seq = none)
    (hT : Holds T (Function.update tab (w.item m).seq (some m))) (sendq : List Nat)
    (hq : sendq = w.sendq ∨ sendq = m :: w.sendq) :
    Inv { w with calls := Function.update w.calls t none, tab := T, sendq := sendq, accepted := m :: w.accepted }
      (Function.update tab (w.item m).seq (some m)) := by
  have hnot : ¬w.Settled m := fun hset => hset.2 t _ hc rfl
  have hne : ∀ m' ∈ w.accepted, m' ≠ m := fun m' hm' heq => hnot (heq ▸ (h.accepted m' hm').1)
  obtain ⟨⟨htold, hitem, hdata⟩, hstat⟩ := h.pending t _ hc
  have hqueue : ∀ m' ∈ sendq, m' = m ∨ m' ∈ w.sendq := by
    intro m' hm'
    rcases hq with rfl | rfl
    · exact .inr hm'
    · exact List.mem_cons.1 hm'
  constructor
  · exact (h.toBase.accept hc sendq hqueue).keeps (Keeps.tab _ T)
  · exact hT
  · intro seq m' hm'
    by_cases hseq : seq = (w.item m).seq
    · subst hseq
      rw [Function.update_self] at hm'
      obtain rfl := Option.some.inj hm'
      exact ⟨rfl, List.mem_cons_self⟩
    · rw [Function.update_of_ne hseq] at hm'
      exact ⟨(h.listed seq m' hm').1, List.mem_cons_of_mem _ (h.listed seq m' hm').2⟩
  · intro m' hm' _
    rcases List.mem_cons.1 hm' with rfl | hm'
    · have hview : World.view { w with
          calls := Function.update w.calls t none, tab := T, sendq := sendq, accepted := m' :: w.accepted }
            (Function.update tab (w.item m').seq (some m')) m' =
          ⟨.inSendq, (w.item m').cb.isSome, true, (w.pc.hand ++ sendq).count m', 0, [], 0, 0, none⟩ := by
        have hclosing : w.pc.closing m' = none := by
          rw [← Option.not_isSome_iff_eq_none]
          exact fun hsome => hnot (h.accepted m' (h.closing m' hsome)).1
        have hvector := h.count_vector hnot
        have hfree := List.count_eq_zero.2 hitem
        have hfree' := List.count_eq_zero.2 hdata
        have hst := hstat m' rfl
        have ht : w.told m' = [] := htold
        simp only [Call.mesg] at hfree hfree'
        simp only [World.view, Function.update_self, hst, hfree, hfree', hclosing, decide_true]
        simp only [World.vector, World.told] at hvector ht ⊢
        simp only [hvector, ht]
      rw [hview]
      refine Stage.queued _ _ ?_
      have hzero := h.count_queue hnot
      rw [List.count_append] at hzero ⊢
      rcases hq with rfl | rfl
      · omega
      · rw [List.count_cons_self]
        omega
    · have hm := hne m' hm'
      have hview : World.view { w with
          calls := Function.update w.calls t none, tab := T, sendq := sendq, accepted := m :: w.accepted }
            (Function.update tab (w.item m).seq (some m)) m' = w.view tab m' := by
        have hcount : (w.pc.hand ++ sendq).count m' = (w.pc.hand ++ w.sendq).count m' := by
          rcases hq with rfl | rfl
          · rfl
          · rw [List.count_append, List.count_append, List.count_cons_of_ne hm.symm]
        have hlisted : (Function.update tab (w.item m).seq (some m) (w.item m').seq = some m') =
            (tab (w.item m').seq = some m') := by
          by_cases hseq : (w.item m').seq = (w.item m).seq
          · rw [hseq, Function.update_self, hnone]
            simpa using hm.symm
          · rw [Function.update_of_ne hseq]
        simp only [World.view, hcount, hlisted]
        rfl
      rw [hview]
      exact h.stage m' hm' (by simp)
  · exact fun m' hm' => List.mem_cons_of_mem _ (h.closing m' hm')
  · exact h.space
  · intro t' c hc'
    rcases Base.calls_goOn hc' with ⟨-, hnone⟩ | ⟨-, hc'⟩
    · cases hnone
    · exact h.pending t' c hc'
  · exact h.fresh
  · exact h.failed

theorem sdkSendMgrInsert (h : Inv w tab) {t : Nat} {node link : Bool} (hc : w.calls t = some (.ready m))
    (hhalf : InHalf ((w.item m).seq :: w.nodes.map Node.seq)) (hs : w.sdkSendMgrInsert t m node link = some w') :
    ∃ tab', Inv w' tab' := by
  have hdata : (w.item m).data = m := ((h.call t _ hc).2 m rfl).1
  obtain ⟨nodes, htrav, -⟩ := h.table.trav
  rw [World.sdkSendMgrInsert, hdata] at hs
  rcases h.table.add ⟨(w.item m).seq, m⟩ htrav (by rwa [World.nodes, htrav] at hhalf) node with ⟨ret, hret, hins⟩ |
    ⟨hnone, T, hins, hT⟩
  · have hown := h.own_hangUp hc
    have hfail : ∀ {w₁ : World}, World.call { w with calls := Function.update w.calls t none }
      (w.item m).cb m .sendFail = some w₁ →
        Inv ((w₁.freeData m).freeItem m) tab := by
      intro w₁ hcall
      have hcalled := (h.hangUp t).callBack hown.1 (fun hacc => absurd hacc hown.2) hcall
      obtain ⟨_, -, rfl⟩ := Option.map_eq_some_iff.1 hcall
      refine hcalled.freeOwn [m] [m] fun addr ha => ?_
      have haddr : addr = m := by simpa using ha
      subst haddr
      exact hown
    simp only [hins] at hs
    cases ret with
    | ok => exact absurd rfl hret
    | nodeExist =>
      obtain ⟨w₁, hcall, rfl⟩ := Option.map_eq_some_iff.1 hs
      exact ⟨tab, hfail hcall⟩
    | err =>
      obtain ⟨w₁, hcall, rfl⟩ := Option.map_eq_some_iff.1 hs
      exact ⟨tab, hfail hcall⟩
  · simp only [hins] at hs
    cases hs
    refine ⟨_, h.accept hc hnone hT (if link then m :: w.sendq else w.sendq) ?_⟩
    cases link with
    | false => exact .inl rfl
    | true => exact .inr rfl

/-! ## The server thread -/

/-- The vector's own messages come and go without the messages of the application. -/
theorem count_own {addrs : List Nat} (hown : ∀ addr ∈ addrs, w.Own addr) {m' : Nat} (hm' : m' ∈ w.accepted) :
    addrs.count m' = 0 :=
  List.count_eq_zero.2 fun hin => (hown m' hin).2 hm'

theorem sdkSsvrSendData (h : Inv w tab) (hidle : w.pc = .idle) : Inv w.sdkSsvrSendData tab := by
  have hbase := h.toBase.sdkSsvrSendData
  rw [World.sdkSsvrSendData] at hbase ⊢
  split at hbase
  · rename_i hfull
    rw [if_pos hfull]
    exact h.turn hbase (fun _ _ _ => by rw [hidle]; rfl) (fun _ _ _ => by rw [hidle]; rfl)
      (fun _ _ _ => by rw [World.vector, hidle]; rfl) (fun _ hc => by cases hc) (fun hne => absurd rfl hne)
  · rename_i hfull
    rw [if_neg hfull]
    obtain ⟨es, hes, -⟩ := h.send
    obtain ⟨moved, hlist, hholds, -, -, -⟩ := addMesgs_spec w.head w.mesgList hes
    have hown : ∀ addr ∈ moved, w.Own addr :=
      fun addr ha => h.mesgs addr (by rw [hlist]; exact List.mem_append_left _ ha)
    refine h.turn hbase (fun _ _ _ => by rw [hidle]; rfl) (fun _ _ _ => by rw [hidle]; rfl) (fun m' hm' _ => ?_)
      (fun _ hc => by cases hc) (fun hne => absurd rfl hne)
    have haddr : (moved.map fun addr => (ownOrig w.head addr).addr) = moved := by
      simp [ownOrig]
    rw [World.vector, hidle, origs_of_holds hholds, origs_of_holds hes]
    simp only [Ssvr.calls, List.map_nil, List.append_nil, List.map_append, List.map_map, List.count_append]
    have hzero := count_own hown hm'
    have hmoved : (WiovOrig.addr ∘ Prod.fst ∘ fun addr => (ownOrig w.head addr).whole) = id := rfl
    rw [hmoved, List.map_id, hzero, Nat.add_zero]

theorem sdkQueueLpop (h : Inv w tab) (hpc : w.pc = .fill) : Inv w.sdkQueueLpop tab := by
  have hbase := h.toBase.sdkQueueLpop
  rw [World.sdkQueueLpop] at hbase ⊢
  split at hbase
  · rename_i hfull
    rw [if_pos hfull]
    exact h.turn hbase (fun _ _ _ => by rw [hpc]; rfl) (fun _ _ _ => by rw [hpc]; rfl)
      (fun _ _ _ => by rw [World.vector, hpc]; rfl) (fun _ hc => by cases hc) (fun hne => absurd rfl hne)
  · rename_i hspace
    rw [if_neg hspace]
    split at hbase
    · exact h.turn hbase (fun _ _ _ => by rw [hpc]; rfl) (fun _ _ _ => by rw [hpc]; rfl)
        (fun _ _ _ => by rw [World.vector, hpc]; rfl) (fun _ hc => by cases hc) (fun hne => absurd rfl hne)
    · rename_i addr sendq hq
      exact h.turn hbase (fun _ _ _ => by rw [hpc, hq]; rfl) (fun _ _ _ => by rw [hpc]; rfl)
        (fun _ _ _ => by rw [World.vector, hpc]; rfl) (fun _ hc => by cases hc) (fun _ => by omega)

theorem query_head (h : Inv w tab) (hm : m ∈ w.accepted) (hl : (w.view tab m).listed = true) :
    w.query (w.head m).seq = some (some ⟨(w.head m).seq, m⟩) := by
  rw [h.query, (h.accepted m hm).2.2, listed_iff.1 hl]
  rfl

theorem tell_eq (w : World) (m : Nat) (stat : SendStat) :
    w.tell m stat = { w with called := (w.tell m stat).called } := by
  unfold World.tell
  split <;> rfl

/-- A message gets a status and is told it, and the server thread goes on. -/
theorem mark (h : Inv w tab) (hm : m ∈ w.accepted) (stat : SendStat) {pc : Ssvr} {v : View} (hv : w.view tab m = v)
    (hbase : Base { (w.setStat m stat).tell m stat with pc := pc })
    (hhand : ∀ m', m' ≠ m → (pc.hand ++ w.sendq).count m' = (w.pc.hand ++ w.sendq).count m')
    (hclosed : ∀ m', m' ≠ m → pc.closing m' = w.pc.closing m')
    (hcalls : ∀ m' ∈ w.accepted, m' ≠ m →
      ((origs w.send ++ pc.calls.map callOrig).map WiovOrig.addr).count m' = w.vector.count m')
    (hspace : pc.hand ≠ [] → w.send.iovCnt < w.send.iovMax)
    (hclosing : ∀ m', (pc.closing m').isSome → m' = m ∨ pc.closing m' = w.pc.closing m')
    (hstage : Stage ⟨stat, v.cb, v.listed, (pc.hand ++ w.sendq).count m,
      ((origs w.send ++ pc.calls.map callOrig).map WiovOrig.addr).count m, v.told ++ heard v.cb [stat], v.freedItem,
      v.freedData, pc.closing m⟩) :
    Inv { (w.setStat m stat).tell m stat with pc := pc } tab := by
  subst hv
  have htold := ((h.takeOut m).setStat hm stat).tell hm stat
  have hview := @view_tell (w.setStat m stat) tab m stat
  rw [view_setStat] at hview
  rw [tell_eq] at hbase htold hview ⊢
  have hturn := htold.turn hbase (fun m' _ hne => hhand m' fun heq => hne (by rw [heq]))
    (fun m' _ hne => hclosed m' fun heq => hne (by rw [heq]))
    (fun m' hm' hne => hcalls m' hm' fun heq => hne (by rw [heq])) (fun m' hc => by
      rcases hclosing m' hc with rfl | hpc
      · exact hm
      · rw [hpc] at hc
        exact h.closing m' hc) hspace
  refine hturn.putIn fun _ => ?_
  convert hstage using 1
  unfold World.view
  rw [View.mk.injEq]
  exact ⟨congrArg View.stat hview, congrArg View.cb hview, congrArg View.listed hview, rfl, rfl,
    congrArg View.told hview, congrArg View.freedItem hview, congrArg View.freedData hview, rfl⟩

/-- A message about to be closed is taken out of the table and freed, and the server thread goes
on. -/
theorem delete (h : Inv w tab) {addr : Nat} (hpc : w.pc.closing addr = some true) {pc : Ssvr}
    (hbase : Base { w.sdkSendMgrDelete (w.head addr).seq with pc := pc }) (hhand : pc.hand = w.pc.hand)
    (hclosing : ∀ m', pc.closing m' = none) (hold : ∀ m', m' ≠ addr → w.pc.closing m' = none)
    (hcalls : pc.calls = w.pc.calls) : ∃ tab', Inv { w.sdkSendMgrDelete (w.head addr).seq with pc := pc } tab' := by
  have hacc : addr ∈ w.accepted := h.closing addr (by rw [hpc]; rfl)
  obtain ⟨-, hdata, hseq⟩ := h.accepted addr hacc
  obtain ⟨stat, hstat, hv⟩ := (h.view_of_mem hacc).of_dropped hpc
  have hl : (w.view tab addr).listed = true := by rw [hv]
  obtain ⟨T, hdel, hT⟩ := h.table.delete_some (listed_iff.1 hl)
  have heq : w.sdkSendMgrDelete (w.head addr).seq = ({ w with tab := T }.freeData addr).freeItem addr := by
    rw [World.sdkSendMgrDelete, hseq, hdel]
    simp only [hdata]
  rw [heq] at hbase ⊢
  have hun := (h.takeOut addr).untable hT (listed_iff.1 hl)
  have hfree := (hun.freeData hacc).freeItem hacc
  have hview := @view_freeItem ({ w with tab := T }.freeData addr) (Function.update tab (w.item addr).seq none) addr
  rw [view_freeData] at hview
  have hturn := hfree.turn hbase (fun m' _ _ => by rw [hhand]; rfl)
    (fun m' _ hne => (hclosing m').trans (hold m' fun heq => hne (by rw [heq])).symm)
    (fun m' _ _ => by rw [hcalls]; rfl) (fun m' hc => by rw [hclosing] at hc; cases hc)
    (fun hne => h.space (by rw [← hhand]; exact hne))
  refine ⟨_, hturn.putIn fun _ => ?_⟩
  have hvm := hv
  unfold World.view at hvm
  rw [View.mk.injEq] at hvm
  obtain ⟨hst, -, -, hqueued, hvector, htold, hitem, hfreed, -⟩ := hvm
  have hgone : World.view { ({ w with tab := T }.freeData addr).freeItem addr with pc := pc }
      (Function.update tab (w.item addr).seq none) addr =
      ⟨stat, (w.item addr).cb.isSome, false, 0, 0, heard (w.item addr).cb.isSome [stat], 1, 1, none⟩ := by
    unfold World.view
    rw [View.mk.injEq]
    refine ⟨hst, rfl, ?_, ?_, ?_, htold, ?_, ?_, ?_⟩
    · simp [World.freeItem, World.freeData]
    · rw [hhand]
      exact hqueued
    · rw [World.vector, hcalls]
      exact hvector
    · exact (List.count_cons_self).trans (congrArg (· + 1) hitem)
    · exact (List.count_cons_self).trans (congrArg (· + 1) hfreed)
    · exact hclosing addr
  rw [hgone]
  refine Stage.gone _ _ _ ?_
  rcases hstat with rfl | rfl
  · exact List.mem_cons_self
  · exact List.mem_cons_of_mem _ List.mem_cons_self

theorem sdkSendDataIsTimeoutAndHdl (h : Inv w tab) {addr : Nat} (hpc : w.pc = .popped addr) :
    Inv (w.sdkSendDataIsTimeoutAndHdl addr) tab := by
  have hbase := h.toBase.sdkSendDataIsTimeoutAndHdl hpc
  have hacc : addr ∈ w.accepted := h.queue addr (by simp [hpc, Ssvr.hand])
  have hv := (h.view_of_mem hacc).of_queued (by simp [World.view, hpc, Ssvr.hand])
  have hq := h.query_head hacc (by rw [hv])
  have hvm := hv
  unfold World.view at hvm
  rw [View.mk.injEq] at hvm
  obtain ⟨-, -, -, hqueued, hvector, -, -, -, -⟩ := hvm
  have hzero : w.sendq.count addr = 0 := by
    rw [hpc] at hqueued
    simpa [Ssvr.hand] using hqueued
  rw [World.sdkSendDataIsTimeoutAndHdl, hq] at hbase ⊢
  simp only at hbase ⊢
  split at hbase
  · rename_i hlate
    rw [if_pos hlate]
    refine h.mark hacc .sendTimeout hv hbase (fun m' hne => ?_) (fun m' hne => ?_)
      (fun m' _ _ => by rw [World.vector, hpc]; rfl)
      (fun hne => absurd rfl hne) (fun m' hc => .inl ?_) ?_
    · rw [hpc]
      exact (List.count_cons_of_ne hne.symm).symm
    · rw [hpc]
      exact if_neg hne.symm
    · by_contra hne
      rw [Ssvr.closing, if_neg fun heq => hne heq.symm] at hc
      cases hc
    · have hvec : ((origs w.send ++ (Ssvr.timedOut addr).calls.map callOrig).map WiovOrig.addr).count addr = 0 := by
        rw [World.vector, hpc] at hvector
        exact hvector
      simp only [hvec, Ssvr.hand, Ssvr.closing, List.nil_append, hzero, if_true]
      exact Stage.dropped _ _ (.inl rfl)
  · rename_i hlate
    rw [if_neg hlate]
    have hspace := h.space (by simp [hpc, Ssvr.hand])
    obtain ⟨es, hes, -⟩ := h.send
    obtain ⟨send, hadd, hholds⟩ := hes.add
      ⟨addr, mesgHeaderSize + (w.head addr).length, 0, World.SDK_SEND_SUCC_HDL, World.SDK_SEND_FAIL_HDL⟩
      (by simpa [Wiov.wiovIsfull] using hspace.ne')
    have hadd' : (w.setStat addr .sending).send.wiovItemAdd
        ⟨addr, mesgHeaderSize + ((w.setStat addr .sending).head addr).length, 0, World.SDK_SEND_SUCC_HDL,
          World.SDK_SEND_FAIL_HDL⟩ = some send := hadd
    rw [hadd'] at hbase ⊢
    have hset := (h.takeOut addr).setStat hacc .sending
    -- the vector has the message behind what it had
    have hcount : ∀ m', ((origs send ++ Ssvr.fill.calls.map callOrig).map WiovOrig.addr).count m' = w.vector.count m' +
        [addr].count m' := by
      intro m'
      rw [World.vector, hpc, origs_of_holds hholds, origs_of_holds hes]
      simp only [Ssvr.calls, List.map_nil, List.append_nil, List.map_append, List.count_append]
      rfl
    have hturn := hset.turn hbase (fun m' _ hne => ?_) (fun m' _ _ => ?_) (fun m' _ hne => ?_) (fun _ hc => by cases hc)
      (fun hne => absurd rfl hne)
    · refine hturn.putIn fun _ => ?_
      have hview := @view_setStat w tab addr .sending
      rw [hv] at hview
      have hsend : World.view { w.setStat addr .sending with send := send, pc := .fill } tab addr =
          ⟨.sending, (w.view tab addr).cb, true, 0, 1, [], 0, 0, none⟩ := by
        unfold World.view
        rw [View.mk.injEq]
        refine ⟨congrArg View.stat hview, congrArg View.cb hview, congrArg View.listed hview, hzero, ?_,
          congrArg View.told hview, congrArg View.freedItem hview, congrArg View.freedData hview, rfl⟩
        rw [World.vector, hcount, hvector]
        simp
      rw [hsend]
      exact Stage.sending _
    · have hne' : addr ≠ m' := fun heq => hne (by rw [heq])
      simp only [World.setStat, hpc]
      exact (List.count_cons_of_ne hne').symm
    · simp only [World.setStat, hpc]
      rfl
    · rw [hcount, count_of_out hne]
      rfl

theorem wiovClean (h : Inv w tab) (hidle : w.pc.hand = [] ∧ (∀ m', w.pc.closing m' = none) ∧ w.pc.calls = [])
    (off : Bool) : Inv (w.wiovClean off) tab := by
  have hbase := h.toBase.wiovClean off
  obtain ⟨hhand, hclosing, hcalls⟩ := hidle
  obtain ⟨es, hes, -⟩ := h.send
  refine h.turn hbase (fun m' _ _ => by rw [hhand]; rfl) (fun m' _ _ => by rw [hclosing]; rfl) (fun m' _ _ => ?_)
    (fun m' hc => by cases hc) (fun hne => absurd rfl hne)
  rw [World.vector, hcalls, origs_of_holds (Wiov.wiovClean_holds _), origs_of_holds hes]
  simp only [Ssvr.calls, hes.clean, List.map_map, List.map_nil, List.nil_append, List.append_nil]
  rfl

theorem sdkSsvrWritev (h : Inv w tab) (hpc : w.pc = .write) (n : Option Nat) : Inv (w.sdkSsvrWritev n) tab := by
  have hpcs : w.pc.hand = [] ∧ (∀ m', w.pc.closing m' = none) ∧ w.pc.calls = [] := by
    rw [hpc]; exact ⟨rfl, fun _ => rfl, rfl⟩
  rw [World.sdkSsvrWritev]
  split
  · exact h.turn (h.toBase.resume rfl (by simp [Ssvr.calls])) (fun _ _ _ => by rw [hpc]; rfl)
      (fun _ _ _ => by rw [hpc]; rfl)
      (fun _ _ _ => by rw [World.vector, hpc]; rfl) (fun _ hc => by cases hc) (fun hne => absurd rfl hne)
  · split
    · exact Inv.wiovClean (w := { w with fd := false }) { h with toBase := { h.toBase with } } hpcs true
    · generalize min _ (w.send.items.map Iovec.iovLen).sum = n
      have hbase := h.toBase.write n
      refine h.turn hbase (fun _ _ _ => by rw [hpc]; rfl) (fun _ _ _ => by rw [hpc]; rfl) (fun m' _ _ => ?_)
        (fun _ hc => by cases hc) (fun hne => absurd rfl hne)
      obtain ⟨es, hes, hpart⟩ := h.send
      obtain ⟨done, rest, k, hadj, rfl, hholds, -, -⟩ :=
        hes.adjust (n := n) (h.toBase.size_lt hes hpart) fun e he => (hpart e he).1
      have hcalls : (w.send.wiovItemAdjust n).2 = done.map fun e => .succ e.1 := congrArg Prod.snd hadj
      rw [World.vector, hpc, origs_of_holds hholds, origs_of_holds hes, map_fst_cut]
      simp only [Ssvr.calls, hcalls, List.map_map, List.map_nil, List.append_nil, List.map_append, List.count_append]
      rw [Nat.add_comm]
      rfl

theorem count_notify {c : Called} {calls : List Called} {off : Bool} (hpc : w.pc = .notify (c :: calls) off)
    (m' : Nat) :
    w.vector.count m' = ((origs w.send ++ calls.map callOrig).map WiovOrig.addr).count m' +
    [(callOrig c).addr].count m' := by
  rw [World.vector, hpc]
  simp only [Ssvr.calls, List.map_append, List.map_cons, List.count_append, List.count_cons, List.count_nil]
  omega

/-- A message of the server thread's own is done with. -/
theorem notifyOwn (h : Inv w tab) {c : Called} {calls : List Called} {off : Bool}
    (hpc : w.pc = .notify (c :: calls) off)
    (hown : w.Own (callOrig c).addr) : Inv
    (World.freeData { w with pc := .notify calls off } (callOrig c).addr) tab := by
  have hstay : Inv { w with pc := .notify calls off } tab := by
    refine h.turn (h.toBase.resume rfl fun c' hc' => h.toBase.entry_of_call ?_) (fun _ _ _ => by rw [hpc]; rfl)
      (fun _ _ _ => by rw [hpc]; rfl) (fun m' hm' _ => ?_) (fun _ hc => by cases hc) (fun hne => absurd rfl hne)
    · rw [hpc]
      exact List.mem_cons_of_mem _ hc'
    · have hzero : [(callOrig c).addr].count m' = 0 := count_own (by simpa using hown) hm'
      rw [count_notify hpc, hzero]
      rfl
  refine hstay.freeOwn [] [(callOrig c).addr] fun addr ha => ?_
  obtain rfl := List.mem_singleton.1 ha
  exact hown

/-- What the vector says of a message that it has a callback for. -/
theorem view_notify (h : Inv w tab) {c : Called} {calls : List Called} {off : Bool}
    (hpc : w.pc = .notify (c :: calls) off) {addr : Nat} (haddr : (callOrig c).addr = addr) (hacc : addr ∈ w.accepted) :
    w.view tab addr = ⟨.sending, (w.view tab addr).cb, true, 0, 1, [], 0, 0, none⟩ ∧ w.sendq.count addr = 0 ∧
      ∀ m', ((origs w.send ++ calls.map callOrig).map WiovOrig.addr).count m' = if m' = addr then 0
      else w.vector.count m' := by
  have hcount := count_notify hpc
  rw [haddr] at hcount
  have hone := hcount addr
  rw [List.count_singleton_self] at hone
  have hv := (h.view_of_mem hacc).of_vector (by simp only [World.view]; omega)
  have hvm := hv
  unfold World.view at hvm
  rw [View.mk.injEq] at hvm
  obtain ⟨-, -, -, hqueued, hvector, -⟩ := hvm
  rw [hpc] at hqueued
  refine ⟨hv, hqueued, fun m' => ?_⟩
  split
  · subst addr
    subst m'
    omega
  · rename_i hne
    have hzero : [addr].count m' = 0 := List.count_eq_zero.2 (by simpa using hne)
    rw [hcount, hzero]
    rfl

theorem notify (h : Inv w tab) {c : Called} {calls : List Called} {off : Bool} (hpc : w.pc = .notify (c :: calls) off) :
    Inv (w.notify calls off c) tab := by
  have hbase := h.toBase.notify hpc
  have hentry : w.EntryOk (callOrig c) := h.toBase.entry_of_call (by rw [hpc]; exact List.mem_cons_self)
  cases c with
  | succ orig =>
    have hentry : w.EntryOk orig := hentry
    rw [World.notify] at hbase ⊢
    rcases hentry with ⟨hsucc, -, hacc⟩ | ⟨hsucc, -, hown⟩
    · have hne : ¬orig.succ = World.MEM_DEALLOC := by rw [hsucc]; decide
      rw [if_neg hne] at hbase ⊢
      have haddr : (callOrig (.succ orig)).addr = orig.addr := rfl
      obtain ⟨hv, hqueue, hvector⟩ := h.view_notify hpc haddr hacc
      have hq : World.query { w with pc := .notify calls off } (w.head orig.addr).seq =
          some (some ⟨(w.head orig.addr).seq, orig.addr⟩) := h.query_head hacc (by rw [hv])
      rw [World.sdkSendSuccHdl, hq] at hbase ⊢
      simp only at hbase ⊢
      have hpcs : World.tell (World.setStat
          { w with pc := .notify calls off } orig.addr .sendSucc) orig.addr .sendSucc =
          { (w.setStat orig.addr .sendSucc).tell orig.addr .sendSucc with pc := .notify calls off } := by
        unfold World.tell World.setStat
        split <;> rfl
      rw [hpcs] at hbase ⊢
      refine h.mark hacc .sendSucc hv hbase (fun m' _ => by rw [hpc]; rfl) (fun m' _ => by rw [hpc]; rfl)
        (fun m' _ hne' => ?_)
        (fun hne => absurd rfl hne) (fun _ hc => by cases hc) ?_
      · exact (hvector m').trans (if_neg hne')
      · have hzero := (hvector orig.addr).trans (if_pos rfl)
        simp only [Ssvr.hand, Ssvr.calls, Ssvr.closing, List.nil_append, hqueue, hzero]
        exact Stage.sent _
    · rw [if_pos hsucc] at hbase ⊢
      exact h.notifyOwn hpc hown
  | fail orig =>
    have hentry : w.EntryOk orig := hentry
    rw [World.notify] at hbase ⊢
    rcases hentry with ⟨-, hfail, hacc⟩ | ⟨-, hfail, hown⟩
    · have hne : ¬orig.fail = World.MEM_DEALLOC := by rw [hfail]; decide
      rw [if_neg hne] at hbase ⊢
      have haddr : (callOrig (.fail orig)).addr = orig.addr := rfl
      obtain ⟨hv, hqueue, hvector⟩ := h.view_notify hpc haddr hacc
      have hq : w.query (w.head orig.addr).seq = some (some ⟨(w.head orig.addr).seq, orig.addr⟩) :=
        h.query_head hacc (by rw [hv])
      rw [World.sdkSendFailHdl, hq] at hbase ⊢
      simp only at hbase ⊢
      refine h.mark hacc .sendFail hv hbase (fun m' _ => by rw [hpc]; rfl) (fun m' hne' => ?_) (fun m' _ hne' => ?_)
        (fun hne => absurd rfl hne) (fun m' hc => .inl ?_) ?_
      · rw [hpc]
        exact if_neg hne'.symm
      · exact (hvector m').trans (if_neg hne')
      · by_contra hne'
        rw [Ssvr.closing, if_neg fun heq => hne' heq.symm] at hc
        cases hc
      · have hzero := (hvector orig.addr).trans (if_pos rfl)
        simp only [Ssvr.hand, Ssvr.calls, Ssvr.closing, List.nil_append, hqueue, hzero, if_true]
        exact Stage.dropped _ _ (.inr rfl)
    · rw [if_pos hfail] at hbase ⊢
      exact h.notifyOwn hpc hown

theorem acked (h : Inv w tab) (hpc : w.pc = .acked m) {w₁ : World} (hcall : w.call (w.item m).cb m .ackSucc = some w₁) :
    Inv { (w₁.freeData (w₁.item m).data).freeItem m with pc := .idle } tab := by
  have hpcm : w.pc.closing m = some false := by rw [hpc]; exact if_pos rfl
  have hm : m ∈ w.accepted := h.closing m (by rw [hpcm]; rfl)
  obtain ⟨hset, hdata, -⟩ := h.accepted m hm
  have hbase : Base { (w₁.freeData (w₁.item m).data).freeItem m with pc := .idle } :=
    (h.toBase.keeps ((Keeps.call hcall).trans (Keeps.free _ _ _))).resume rfl (by simp [Ssvr.calls])
  obtain ⟨cb, hcb, rfl⟩ := Option.map_eq_some_iff.1 hcall
  have htold : Inv { w with called := w.called ++ [(m, .ackSucc)] } tab (some m) :=
    (h.takeOut m).told_call hset (fun _ => rfl) fun m' hne => toldOf_append_ne _ _ hne.symm
  rw [show World.item { w with called := w.called ++ [(m, .ackSucc)] } m = w.item m from rfl, hdata] at hbase ⊢
  have hfree := (htold.freeData hm).freeItem hm
  have hturn := hfree.turn hbase (fun _ _ _ => by simp only [World.freeItem, World.freeData, hpc]; rfl)
    (fun m' _ hne => by
      have hne' : m ≠ m' := fun heq => hne (by rw [heq])
      simp only [World.freeItem, World.freeData, hpc]
      exact (if_neg hne').symm)
    (fun _ _ _ => by simp only [World.freeItem, World.freeData, World.vector, hpc]; rfl) (fun _ hc => by cases hc)
    (fun hne => absurd rfl hne)
  refine hturn.putIn fun _ => ?_
  have hstage := h.view_of_mem hm
  generalize hv : w.view tab m = v at hstage
  have hclosing : v.closing = some false := by rw [← hv]; exact hpcm
  cases hstage with
  | queued => cases hclosing
  | sending => cases hclosing
  | sent => cases hclosing
  | dropped => cases hclosing
  | gone => cases hclosing
  | acked cb' stat stats hstats =>
    unfold World.view at hv
    rw [View.mk.injEq] at hv
    obtain ⟨hst, hcb', hlisted, hqueued, hvector, htolds, hitem, hfreed, -⟩ := hv
    have hsome : cb' = true := by rw [← hcb', hcb]; rfl
    have hgone : World.view { (World.freeData { w with called := w.called ++ [(m, .ackSucc)] } m).freeItem m with pc := .idle } tab m =
        ⟨stat, cb', false, 0, 0, heard cb' (stats ++ [.ackSucc]), 1, 1, none⟩ := by
      unfold World.view
      rw [View.mk.injEq]
      refine ⟨hst, hcb', hlisted, ?_, ?_, ?_, ?_, ?_, rfl⟩
      · rw [hpc] at hqueued
        exact hqueued
      · rw [World.vector, hpc] at hvector
        exact hvector
      · rw [World.told] at htolds
        rw [hsome] at htolds ⊢
        exact (toldOf_append _ _ _).trans (congrArg (· ++ [.ackSucc]) htolds)
      · exact List.count_cons_self.trans (congrArg (· + 1) hitem)
      · exact List.count_cons_self.trans (congrArg (· + 1) hfreed)
    rw [hgone]
    exact Stage.gone _ _ _ hstats

end Inv

end BeehiveIm.Sdk
