/-
The order of messages: both queues are pushed and popped at the same end, so what goes through one
keeps its order as long as it is pushed into an empty one. On the way out the numbers of one
thread's messages then grow from those that are written to those in the vector, the one in hand
and the one in the queue.
-/
import BeehiveIm.Lib.Run
import BeehiveIm.Sdk.Vector

namespace BeehiveIm.Sdk

open BeehiveIm.Core BeehiveIm.Lib

namespace World

/-- The sequence number of a message. -/
def seqOf (w : World) (m : Nat) : Nat := (w.head m).seq.toNat

/-- The messages of the application that bytes were written of, byte for byte. -/
def written (w : World) : List Nat := (w.wire.map Prod.fst).filter (· ∈ w.accepted)

/-- Messages are written in the order of their numbers, and handed to their callbacks in the
order of their reception. -/
structure InOrder (w : World) : Prop where
  written : w.written.Pairwise fun m m' => w.seqOf m ≤ w.seqOf m'
  handed : w.handed.Pairwise (· < ·)

/-- A message for the workers -/
def Ordinary (ctx : Cntx) (w : World) (mesg : Mesg) : Prop :=
  (w.sdkAckSuccHdl ctx mesg).isNone ∧ mesg.type ≠ CMD_PONG ∧ mesg.type ≠ CMD_PING ∧ mesg.type ≠ CMD_ONLINE_ACK

instance (ctx : Cntx) (w : World) (mesg : Mesg) : Decidable (w.Ordinary ctx mesg) :=
  inferInstanceAs (Decidable (_ ∧ _ ∧ _ ∧ _))

/-- A queue is empty when it is pushed into; the thread `t₀` sends; the counter does not wrap, and
an ONLINE-ACK does not set it back. -/
def OrderGuard (ctx : Cntx) (t₀ : Nat) (w : World) (e : Event) : Prop :=
  w.seq.toNat + 1 < 2 ^ 64 ∧
  match e with
  | .send t _ => t = t₀
  | .insert _ node link => node → link → w.sendq = []
  | .recv mesg addr link _ => (w.Ordinary ctx mesg → addr → link → w.recvq = []) ∧
    (mesg.type = CMD_ONLINE_ACK → ∀ ack ∈ mesg.ack, w.seq.toNat ≤ ack.seq.toNat ∧ ack.seq.toNat + 1 < 2 ^ 64)
  | _ => True

instance (ctx : Cntx) (t₀ : Nat) (w : World) : (e : Event) → Decidable (w.OrderGuard ctx t₀ e)
  | .send t _ => inferInstanceAs (Decidable (_ ∧ t = t₀))
  | .insert _ node link => inferInstanceAs (Decidable (_ ∧ (node → link → w.sendq = [])))
  | .recv mesg addr link _ => inferInstanceAs (Decidable (_ ∧ (w.Ordinary ctx mesg → addr → link → w.recvq = []) ∧
    (mesg.type = CMD_ONLINE_ACK → ∀ ack ∈ mesg.ack, w.seq.toNat ≤ ack.seq.toNat ∧ ack.seq.toNat + 1 < 2 ^ 64)))
  | .tick _ | .number _ _ _ | .sendData | .writev _ | .go | .read _ | .disconnect | .networkSwitch | .trav _
  | .reconn _ _ _ _ _ | .keepalive _ _ | .work => inferInstanceAs (Decidable (_ ∧ True))

/-- The messages of the application on their way out, in the order they are to be written. -/
def chain (w : World) : List Nat := ((w.wire ++ w.send.pending).map Prod.fst).filter (· ∈ w.accepted) ++
    (w.pc.hand ++ w.sendq)

end World

theorem rbtInsertLoop_ne_ok {T T' : RbTree Node} {ck : Node → Int} {d : Node} (fuel : Nat) :
    ∀ {node : Ptr}, T.sentinel ≠ node → RbTree.rbtInsertLoop ck d false fuel T node ≠ some (T', .ok) := by
  induction fuel with
  | zero => exact fun _ h => by cases h
  | succ fuel ih =>
    intro node hne h
    rw [RbTree.rbtInsertLoop, if_neg hne] at h
    simp only at h
    split at h
    · cases h
    · generalize (if T.cmp ck node < 0 then Side.left else Side.right) = type at h
      split at h
      · rw [RbTree.rbtInsertChild] at h
        cases h
      · rename_i hchild
        exact ih hchild h

/-- Without memory for a node nothing is inserted. -/
theorem rbtInsert_ne_ok {T T' : RbTree Node} {ck : Node → Int} {d : Node} :
    T.rbtInsert ck d false ≠ some (T', .ok) := by
  rw [RbTree.rbtInsert]
  split
  · rw [RbTree.rbtCreatNode]
    exact fun h => by cases h
  · rename_i hne
    exact rbtInsertLoop_ne_ok _ hne

/-- The messages on their way out. -/
structure Outward (t₀ : Nat) (w : World) : Prop where
  sorted : w.chain.Pairwise fun m m' => w.seqOf m ≤ w.seqOf m'
  le : ∀ m ∈ w.accepted, w.seqOf m ≤ w.seq.toNat
  one : ∀ t c, w.calls t = some c → t = t₀
  ready : ∀ t m, w.calls t = some (.ready m) → w.seqOf m ≤ w.seq.toNat ∧ ∀ m' ∈ w.accepted, w.seqOf m' < w.seqOf m

variable {w w' : World} {m t₀ : Nat}

namespace Outward

theorem mem_chain (hb : Base w) (hm : m ∈ w.chain) : m ∈ w.accepted := by
  rcases List.mem_append.1 hm with hm | hm
  · simpa using (List.mem_filter.1 hm).2
  · exact hb.queue m hm

/-- Messages go on, or are dropped. -/
theorem mono (h : Outward t₀ w) (hhead : w'.head = w.head) (hacc : w'.accepted = w.accepted)
    (hcalls : w'.calls = w.calls)
    (hseq : w.seq.toNat ≤ w'.seq.toNat) (hchain : w'.chain.Sublist w.chain) : Outward t₀ w' where
  sorted := by
    simp only [World.seqOf, hhead]
    exact h.sorted.sublist hchain
  le m hm := by
    rw [World.seqOf, hhead]
    exact (h.le m (hacc ▸ hm)).trans hseq
  one t c hc := h.one t c (hcalls ▸ hc)
  ready t m hc := by
    rw [hcalls] at hc
    rw [hacc]
    simp only [World.seqOf, hhead]
    exact ⟨(h.ready t m hc).1.trans hseq, (h.ready t m hc).2⟩

theorem keeps (h : Outward t₀ w) (hk : Keeps w w') : Outward t₀ w' := by
  obtain ⟨b, rfl, hsub, -⟩ := hk
  refine h.mono rfl rfl rfl (le_refl _) ?_
  exact List.Sublist.append_left (List.Sublist.append_left hsub _) _

/-- The server thread goes on with empty hands. -/
theorem resume (h : Outward t₀ w) {pc : Ssvr} (hhand : pc.hand = []) : Outward t₀ { w with pc := pc } := by
  refine h.mono rfl rfl rfl (le_refl _) ?_
  simp only [World.chain, hhand, List.nil_append]
  exact List.Sublist.append_left (List.sublist_append_right _ _) _

/-- What the heads of settled messages and those of calls say stays. -/
theorem later (h : Outward t₀ w) (hb : Base w) (hl : Later w w') (hacc : w'.accepted = w.accepted)
    (hcalls : w'.calls = w.calls)
    (hhead : ∀ t m, w.calls t = some (.ready m) → w'.head m = w.head m) (hseq : w.seq.toNat ≤ w'.seq.toNat)
    (hchain : w'.chain.Sublist w.chain) : Outward t₀ w' := by
  have hsame : ∀ m ∈ w.accepted, w'.seqOf m = w.seqOf m := fun m hm => by
    rw [World.seqOf, hl.head m (hb.accepted m hm).1]
    rfl
  constructor
  · refine (h.sorted.sublist hchain).imp_of_mem fun {m m'} hm hm' hle => ?_
    rw [hsame m (mem_chain hb (hchain.subset hm)), hsame m' (mem_chain hb (hchain.subset hm'))]
    exact hle
  · intro m hm
    rw [hacc] at hm
    rw [hsame m hm]
    exact (h.le m hm).trans hseq
  · exact fun t c hc => h.one t c (hcalls ▸ hc)
  · intro t m hc
    rw [hcalls] at hc
    have hm : w'.seqOf m = w.seqOf m := by
      rw [World.seqOf, hhead t m hc]
      rfl
    rw [hm, hacc]
    refine ⟨(h.ready t m hc).1.trans hseq, fun m' hm' => ?_⟩
    rw [hsame m' hm']
    exact (h.ready t m hc).2 m' hm'

theorem seq_succ (hwrap : w.seq.toNat + 1 < 2 ^ 64) : (w.seq + 1).toNat = w.seq.toNat + 1 := by
  rw [BitVec.toNat_add, Nat.mod_eq_of_lt]
  · rfl
  · exact hwrap

theorem pushMesg (h : Outward t₀ w) (hb : Base w) (hwrap : w.seq.toNat + 1 < 2 ^ 64) (type length : Nat)
    (addr link : Bool) : Outward t₀ (w.pushMesg type length addr link) := by
  rw [World.pushMesg]
  split
  · have hpush : ∀ mesgList : List Nat, Outward t₀ { w with
        seq := w.seq + 1
        head := Function.update w.head w.next ⟨type, length % 2 ^ 32, w.seq + 1⟩
        next := w.next + 1
        mesgList := mesgList } := by
      intro mesgList
      refine h.later hb (Base.later_head w (w.seq + 1) _ mesgList) rfl rfl (fun t m hc => ?_) ?_ (List.Sublist.refl _)
      · exact Function.update_of_ne (Nat.ne_of_lt (hb.call t _ hc).1) _ _
      · rw [seq_succ hwrap]
        exact Nat.le_succ _
    simp only
    split
    · exact hpush _
    · exact (hpush w.mesgList).keeps (Keeps.freeData _ _)
  · exact h

/-! ## The calls -/

theorem hangUp (h : Outward t₀ w) (t : Nat) : Outward t₀ { w with calls := Function.update w.calls t none } :=
  { h with
    one := fun t' c hc => by
      rcases Base.calls_goOn hc with ⟨-, hnone⟩ | ⟨-, hc⟩
      · cases hnone
      · exact h.one t' c hc
    ready := fun t' m hc => by
      rcases Base.calls_goOn hc with ⟨-, hnone⟩ | ⟨-, hc⟩
      · cases hnone
      · exact h.ready t' m hc }

theorem sdkAsyncSend (h : Outward t₀ w) {t : Nat} {req : Request} (ht : t = t₀) (hs : w.sdkAsyncSend t req = some w') :
    Outward t₀ w' := by
  rw [World.sdkAsyncSend] at hs
  split at hs
  · cases hs
    exact { h with
      one := fun t' c hc => by
        rcases Base.calls_goOn hc with ⟨heq, -⟩ | ⟨-, hc⟩
        · exact heq.trans ht
        · exact h.one t' c hc
      ready := fun t' m hc => by
        rcases Base.calls_goOn hc with ⟨-, hsome⟩ | ⟨-, hc⟩
        · cases hsome
        · exact h.ready t' m hc }
  · exact Outward.keeps (w := { w with next := w.next + 1 }) { h with } (Keeps.call hs)

theorem sdkGenSeq (h : Outward t₀ w) (hb : Base w) (hwrap : w.seq.toNat + 1 < 2 ^ 64) {t : Nat} {req : Request}
    {addr item : Bool}
    (hc : w.calls t = some (.checked m req)) (hs : w.sdkGenSeq t m req addr item = some w') : Outward t₀ w' := by
  -- no other message is ready, as no other thread is in a call
  have hnone : ∀ t' c, t' ≠ t → w.calls t' ≠ some c :=
    fun t' c hne hc' => hne ((h.one t' c hc').trans (h.one t _ hc).symm)
  have hnum : ∀ item : Nat → SendItem, Outward t₀ { w with
      seq := w.seq + 1, head := Function.update w.head m ⟨req.cmd, req.size % 2 ^ 32, w.seq + 1⟩, item := item } := by
    intro item
    refine h.later hb (Base.later_number hc (w.seq + 1) _ item) rfl rfl (fun t' m' hc' => ?_) ?_ (List.Sublist.refl _)
    · by_cases ht : t' = t
      · subst ht
        rw [hc] at hc'
        cases hc'
      · exact absurd hc' (hnone t' _ ht)
    · rw [seq_succ hwrap]
      exact Nat.le_succ _
  rw [World.sdkGenSeq] at hs
  split at hs
  · simp only at hs
    split at hs
    · cases hs
      have hn := hnum (Function.update w.item m
        ⟨w.seq + 1, .inSendq, req.cmd, req.size, w.clock + req.timeout, m, req.cb, req.param⟩)
      exact { hn with
        one := fun t' c hc' => by
          rcases Base.calls_goOn hc' with ⟨heq, -⟩ | ⟨-, hc'⟩
          · rw [heq]
            exact h.one t _ hc
          · exact h.one t' c hc'
        ready := fun t' m' hc' => by
          rcases Base.calls_goOn hc' with ⟨-, hsome⟩ | ⟨hne, hc'⟩
          · cases hsome
            have hm : World.seqOf { w with
                seq := w.seq + 1, head :=
                  Function.update w.head m ⟨req.cmd, req.size % 2 ^ 32, w.seq + 1⟩ } m = w.seq.toNat + 1 := by
              rw [World.seqOf]
              simp only [Function.update_self]
              exact seq_succ hwrap
            refine ⟨hm.le.trans (seq_succ hwrap).ge, fun m'' hm'' => ?_⟩
            have hne : m'' ≠ m := fun heq => (hb.accepted m'' hm'').1.2 t _ hc heq.symm
            have hle := h.le m'' hm''
            refine Nat.lt_of_le_of_lt (m := w.seq.toNat) ?_ (hm.symm ▸ Nat.lt_succ_self _)
            simpa [World.seqOf, hne] using hle
          · exact absurd hc' (hnone t' _ hne) }
    · obtain ⟨w₁, hcall, rfl⟩ := Option.map_eq_some_iff.1 hs
      exact ((hnum w.item).hangUp t).keeps ((Keeps.call hcall).trans (Keeps.freeData _ _))
  · exact (h.hangUp t).keeps (Keeps.call hs)

/-- A message accepted goes to the end of the chain, as the queue is empty. -/
theorem accept (h : Outward t₀ w) (hb : Base w) {t : Nat} (hc : w.calls t = some (.ready m)) (sendq : List Nat)
    (hq : sendq = w.sendq ∨ w.sendq = [] ∧ sendq = [m]) :
    Outward t₀ { w with calls := Function.update w.calls t none, sendq := sendq, accepted := m :: w.accepted } := by
  have hnone : ∀ t' c, Function.update w.calls t none t' ≠ some c := fun t' c hc' => by
    rcases Base.calls_goOn hc' with ⟨-, hnone⟩ | ⟨hne, hc'⟩
    · cases hnone
    · exact hne ((h.one t' c hc').trans (h.one t _ hc).symm)
  have hset : ∀ b ∈ w.wire ++ w.send.pending, b.1 ≠ m := by
    intro b hb' heq
    have hsettled : w.Settled b.1 := (List.mem_append.1 hb').elim (hb.wire b) hb.settled_of_pending
    exact hsettled.2 t _ hc heq.symm
  have hfilter : ((w.wire ++ w.send.pending).map Prod.fst).filter (· ∈ m :: w.accepted) =
      ((w.wire ++ w.send.pending).map Prod.fst).filter (· ∈ w.accepted) := by
    refine List.filter_congr fun a ha => ?_
    obtain ⟨b, hb', rfl⟩ := List.mem_map.1 ha
    simp [hset b hb']
  have hlt := (h.ready t m hc).2
  constructor
  · rcases hq with rfl | ⟨hnil, rfl⟩
    · simp only [World.chain, hfilter]
      exact h.sorted
    · have hchain : World.chain { w with calls := Function.update w.calls t none, sendq := [m], accepted := m :: w.accepted } =
          w.chain ++ [m] := by
        simp only [World.chain, hfilter, hnil, List.append_nil, List.append_assoc]
      rw [hchain]
      refine List.pairwise_append.2 ⟨h.sorted, List.pairwise_singleton _ _, fun m' hm' m'' hm'' => ?_⟩
      rw [List.mem_singleton.1 hm'']
      exact (hlt m' (mem_chain hb hm')).le
  · intro m' hm'
    rcases List.mem_cons.1 hm' with rfl | hm'
    · exact (h.ready t _ hc).1
    · exact h.le m' hm'
  · exact fun t' c hc' => absurd hc' (hnone t' c)
  · exact fun t' m' hc' => absurd hc' (hnone t' _)

theorem sdkSendMgrInsert (h : Outward t₀ w) (hb : Base w) {t : Nat} {node link : Bool}
    (hc : w.calls t = some (.ready m))
    (hq : node = true → link = true → w.sendq = []) (hs : w.sdkSendMgrInsert t m node link = some w') :
    Outward t₀ w' := by
  have hdata : (w.item m).data = m := ((hb.call t _ hc).2 m rfl).1
  rw [World.sdkSendMgrInsert] at hs
  simp only at hs
  split at hs
  · cases hs
    exact (h.hangUp t).keeps (Keeps.fault _)
  · rename_i T hT
    cases hs
    rw [hdata]
    refine (h.accept hb hc (if link then m :: w.sendq else w.sendq) ?_).keeps (Keeps.tab _ _)
    have hnode : node = true := by
      by_contra hfalse
      rw [Bool.not_eq_true] at hfalse
      subst hfalse
      exact rbtInsert_ne_ok hT
    cases link with
    | false => exact .inl rfl
    | true =>
      have hnil := hq hnode rfl
      exact .inr ⟨hnil, by rw [hnil]; rfl⟩
  · obtain ⟨w₁, hcall, rfl⟩ := Option.map_eq_some_iff.1 hs
    exact (h.hangUp t).keeps (((Keeps.tab _ _).trans (Keeps.call hcall)).trans (Keeps.free _ _ _))

/-! ## The server thread -/

theorem sdkSsvrSendData (h : Outward t₀ w) (hb : Base w) (hidle : w.pc = .idle) : Outward t₀ w.sdkSsvrSendData := by
  rw [World.sdkSsvrSendData]
  split
  · exact h.resume rfl
  · obtain ⟨es, hes, -⟩ := hb.send
    obtain ⟨moved, hlist, -, -, hpend, -⟩ := addMesgs_spec w.head w.mesgList hes
    refine h.mono rfl rfl rfl (le_refl _) ?_
    have hown : ((moved.flatMap (mesgBytes w.head)).map Prod.fst).filter (· ∈ w.accepted) = [] := by
      refine List.filter_eq_nil_iff.2 fun a ha => ?_
      obtain ⟨b, hb', rfl⟩ := List.mem_map.1 ha
      obtain ⟨m, hm, hbm⟩ := List.mem_flatMap.1 hb'
      obtain ⟨_, -, rfl⟩ := List.mem_map.1 hbm
      have hnot := (hb.mesgs m (by rw [hlist]; exact List.mem_append_left _ hm)).2
      simpa using hnot
    simp only [World.chain, hpend, ← List.append_assoc, List.map_append, List.filter_append, hown, List.append_nil,
      hidle, Ssvr.hand]
    exact List.Sublist.refl _

theorem sdkQueueLpop (h : Outward t₀ w) : Outward t₀ w.sdkQueueLpop := by
  rw [World.sdkQueueLpop]
  split
  · exact h.resume rfl
  · split
    · exact h.resume rfl
    · rename_i addr sendq hq
      refine h.mono rfl rfl rfl (le_refl _) ?_
      simp only [World.chain, Ssvr.hand, hq]
      exact List.Sublist.append_left (List.sublist_append_right _ _) _

theorem pairwise_replicate {α : Type} {R : α → α → Prop} {l r : List α} {a : α} (h : (l ++ a :: r).Pairwise R)
    (ha : R a a) (n : Nat) : (l ++ (List.replicate n a ++ r)).Pairwise R := by
  obtain ⟨hl, har, hcross⟩ := List.pairwise_append.1 h
  obtain ⟨hra, hr⟩ := List.pairwise_cons.1 har
  refine List.pairwise_append.2 ⟨hl, List.pairwise_append.2 ⟨List.pairwise_replicate.2 (.inr ha), hr, ?_⟩, ?_⟩
  · intro b hb c hc
    obtain rfl := List.eq_of_mem_replicate hb
    exact hra c hc
  · intro b hb c hc
    rcases List.mem_append.1 hc with hc | hc
    · obtain rfl := List.eq_of_mem_replicate hc
      exact hcross b hb _ List.mem_cons_self
    · exact hcross b hb c (List.mem_cons_of_mem _ hc)

/-- A message popped goes into the vector, behind what is there and before what is in the queue. -/
theorem wiovAdd (h : Outward t₀ w) {addr : Nat} (hacc : addr ∈ w.accepted) (hpc : w.pc = .popped addr) {send : Wiov}
    {n : Nat}
    (hpend : send.pending = w.send.pending ++ wholeBytes addr n) : Outward t₀ { w with send := send, pc := .fill } := by
  have hfst : (wholeBytes addr n).map Prod.fst = List.replicate n addr := by
    simp only [wholeBytes, List.map_map]
    exact List.eq_replicate_iff.2 ⟨by simp, by simp⟩
  have hchain : World.chain { w with send := send, pc := .fill } =
      ((w.wire ++ w.send.pending).map Prod.fst).filter (· ∈ w.accepted) ++ (List.replicate n addr ++ w.sendq) := by
    have hfilter : (List.replicate n addr).filter (· ∈ w.accepted) = List.replicate n addr := by
      refine List.filter_eq_self.2 fun a ha => ?_
      rw [List.eq_of_mem_replicate ha]
      simpa using hacc
    simp only [World.chain, hpend, ← List.append_assoc, List.map_append, List.filter_append, hfst, hfilter, Ssvr.hand,
      List.nil_append]
  have hsorted := h.sorted
  simp only [World.chain, hpc, Ssvr.hand, List.singleton_append] at hsorted
  refine { h with sorted := ?_ }
  rw [hchain]
  exact pairwise_replicate hsorted (le_refl (w.seqOf addr)) n

theorem sdkSendDataIsTimeoutAndHdl (h : Outward t₀ w) (hb : Base w) {addr : Nat} (hpc : w.pc = .popped addr) :
    Outward t₀ (w.sdkSendDataIsTimeoutAndHdl addr) := by
  have hacc : addr ∈ w.accepted := hb.queue addr (by simp [hpc, Ssvr.hand])
  rw [World.sdkSendDataIsTimeoutAndHdl]
  split
  · exact h.keeps (Keeps.fault w)
  · exact h.resume rfl
  · rename_i node _
    split
    · exact (h.keeps ((Keeps.setStat w node.item _).trans (Keeps.tell _ _ _))).resume rfl
    · have hs := h.keeps (Keeps.setStat w node.item .sending)
      have hbs := hb.keeps (Keeps.setStat w node.item .sending)
      simp only
      split
      · exact hs.keeps (Keeps.fault _)
      · rename_i send hadd
        obtain ⟨es, hes, -⟩ := hbs.send
        exact hs.wiovAdd hacc hpc (hes.pending_add hadd)

theorem wiovClean (h : Outward t₀ w) (off : Bool) : Outward t₀ (w.wiovClean off) := by
  refine h.mono rfl rfl rfl (le_refl _) ?_
  simp only [World.chain, World.wiovClean, Wiov.pending_clean, List.append_nil, Ssvr.hand, List.nil_append,
    List.map_append, List.filter_append, List.append_assoc]
  refine List.Sublist.append_left ?_ _
  exact (List.sublist_append_right _ _).trans (List.sublist_append_right _ _)

/-- A `writev` that has written `n` bytes. -/
theorem write (h : Outward t₀ w) (hb : Base w) (n : Nat) :
    Outward t₀ { w with
      send := (w.send.wiovItemAdjust n).1
      wire := w.wire ++ w.send.pending.take n
      pc := .notify (w.send.wiovItemAdjust n).2 false } := by
  obtain ⟨-, -, -, hpend, -⟩ := hb.written n
  refine h.mono rfl rfl rfl (le_refl _) ?_
  simp only [World.chain, hpend, List.append_assoc, List.take_append_drop, Ssvr.hand, List.nil_append]
  exact List.Sublist.append_left (List.sublist_append_right _ _) _

theorem sdkSsvrWritev (h : Outward t₀ w) (hb : Base w) (n : Option Nat) : Outward t₀ (w.sdkSsvrWritev n) := by
  rw [World.sdkSsvrWritev]
  split
  · exact h.resume rfl
  · split
    · exact Outward.wiovClean (w := { w with fd := false }) { h with } true
    · exact h.write hb _

theorem notify (h : Outward t₀ w) (c : Called) (calls : List Called) (off : Bool) :
    Outward t₀ (w.notify calls off c) := by
  have hstay : Outward t₀ { w with pc := .notify calls off } := h.resume rfl
  cases c with
  | succ orig =>
    rw [World.notify]
    split
    · exact hstay.keeps (Keeps.freeData _ _)
    · exact hstay.keeps (Keeps.sdkSendSuccHdl _ _)
  | fail orig =>
    rw [World.notify]
    split
    · exact hstay.keeps (Keeps.freeData _ _)
    · exact (h.keeps (Keeps.sdkSendFailHdl w _)).resume rfl

theorem go (h : Outward t₀ w) (hb : Base w) (hs : w.go = some w') : Outward t₀ w' := by
  rw [World.go] at hs
  split at hs
  · cases hs
  · cases hs
    exact h.sdkQueueLpop
  · rename_i hpc
    cases hs
    exact h.sdkSendDataIsTimeoutAndHdl hb hpc
  · cases hs
    exact (h.keeps (Keeps.sdkSendMgrDelete w _)).resume rfl
  · cases hs
  · cases hs
    have hidle : Outward t₀ { w with pc := .idle } := h.resume rfl
    exact { hidle with }
  · cases hs
    exact h.notify _ _ _
  · cases hs
    exact (h.keeps (Keeps.sdkSendMgrDelete w _)).resume rfl
  · obtain ⟨w₁, hcall, rfl⟩ := Option.map_eq_some_iff.1 hs
    exact (h.keeps ((Keeps.call hcall).trans (Keeps.free _ _ _))).resume rfl
  · cases hs
    have hidle : Outward t₀ { w with pc := .idle } := h.resume rfl
    exact { hidle with }

theorem sdkMesgSendPingReq (h : Outward t₀ w) (hb : Base w) (hwrap : w.seq.toNat + 1 < 2 ^ 64) (addr link : Bool) :
    Outward t₀ (w.sdkMesgSendPingReq addr link) := by
  rw [World.sdkMesgSendPingReq]
  split
  · exact Outward.wiovClean (w := { w with fd := false }) { h with } false
  · have hpush := h.pushMesg hb hwrap CMD_PING 0 addr link
    simp only
    split
    · exact { hpush with }
    · exact hpush

theorem sdkMesgOnlineAckHandler (h : Outward t₀ w) (hb : Base w) {ack : Option OnlineAck} (addr link : Bool)
    (length : Nat) (hseq : ∀ a ∈ ack, w.seq.toNat ≤ a.seq.toNat ∧ a.seq.toNat + 1 < 2 ^ 64) :
    Outward t₀ (w.sdkMesgOnlineAckHandler ack addr link length) := by
  cases ack with
  | none => exact { h with }
  | some ack =>
    obtain ⟨hle, hwrap⟩ := hseq ack rfl
    have hset : ∀ online, Outward t₀ { w with seq := ack.seq, online := online } := fun _ =>
      h.mono rfl rfl rfl hle (List.Sublist.refl _)
    rw [World.sdkMesgOnlineAckHandler]
    split
    · exact (hset true).pushMesg { hb with } hwrap _ _ _ _
    · exact { hset false with }

theorem sdkSysMesgProc (h : Outward t₀ w) (hb : Base w) (hwrap : w.seq.toNat + 1 < 2 ^ 64) {mesg : Mesg}
    (addr link : Bool)
    (length : Nat) (hseq : mesg.type = CMD_ONLINE_ACK → ∀ a ∈ mesg.ack, w.seq.toNat ≤ a.seq.toNat ∧
    a.seq.toNat + 1 < 2 ^ 64) : Outward t₀ (w.sdkSysMesgProc mesg addr link length) := by
  rw [World.sdkSysMesgProc]
  split
  · exact { h with }
  · split
    · have hping : Outward t₀ { w with kpaliveTimes := 0 } := { h with }
      exact hping.sdkMesgSendPingReq { hb with } hwrap _ _
    · split
      · rename_i htype
        exact h.sdkMesgOnlineAckHandler hb addr link length (hseq htype)
      · rw [World.sdkExpMesgProc]
        simp only
        split
        · exact { h with }
        · exact { h with }

theorem sdkAckSuccHdl (h : Outward t₀ w) {ctx : Cntx} {mesg : Mesg} (hs : w.sdkAckSuccHdl ctx mesg = some w') :
    Outward t₀ w' := by
  have hacked : ∀ m, Outward t₀ { w with pc := .acked m } := fun m => h.resume rfl
  rw [World.sdkAckSuccHdl] at hs
  split at hs
  · cases hs
  · split at hs
    · rename_i node _
      split at hs
      · split at hs
        · cases hs
          exact h.keeps (Keeps.fault w)
        · cases hs
          exact { hacked node.item with }
      · cases hs
        exact hacked _
    · cases hs
    · cases hs
      exact h.keeps (Keeps.fault w)

theorem sdkSsvrReconn (h : Outward t₀ w) (hb : Base w) (hwrap : w.seq.toNat + 1 < 2 ^ 64) (info conn addr link : Bool)
    (length : Nat) : Outward t₀ (w.sdkSsvrReconn info conn addr link length) := by
  rw [World.sdkSsvrReconn]
  simp only
  split
  · split
    · have hconn : Outward t₀ { w with
          kpaliveTimes := 0, freedData := w.mesgList.reverse ++ w.freedData, mesgList := [], fd := true, wire :=
            [] } := by
        refine h.mono rfl rfl rfl (le_refl _) ?_
        simp only [World.chain, List.nil_append]
        refine List.Sublist.append_right (List.Sublist.filter _ (List.Sublist.map _ ?_)) _
        exact List.sublist_append_right _ _
      have hpush := hconn.pushMesg { hb with mesgs := by simp, wire := by simp } hwrap CMD_ONLINE length addr link
      have hpc : Outward t₀ { World.pushMesg { w with
          kpaliveTimes := 0, freedData := w.mesgList.reverse ++ w.freedData, mesgList := [], fd := true, wire := [] }
            CMD_ONLINE length addr link with pc := .connected } := hpush.resume rfl
      exact { hpc with }
    · exact { h with }
  · exact { h with }

theorem init (t₀ sendqLen : Nat) (clock : Int) : Outward t₀ (World.init sendqLen clock) where
  sorted := by simp [World.chain, World.init, Wiov.pending, Wiov.wiovInit, Ssvr.hand]
  le _ hm := by cases hm
  one _ _ hc := by cases hc
  ready _ _ hc := by cases hc

theorem step {ctx : Cntx} {e : Event} (h : Outward t₀ w) (hb : Base w) (hg : w.OrderGuard ctx t₀ e)
    (hs : w.step ctx e = some w') : Outward t₀ w' := by
  obtain ⟨hwrap, hg⟩ := hg
  cases e with
  | tick secs =>
    cases hs
    exact { h with }
  | send t req =>
    simp only [World.step] at hs
    split at hs
    · exact h.sdkAsyncSend hg hs
    · cases hs
  | number t addr item =>
    simp only [World.step] at hs
    split at hs
    · exact h.sdkGenSeq hb hwrap ‹_› hs
    · cases hs
  | insert t node link =>
    simp only [World.step] at hs
    split at hs
    · exact h.sdkSendMgrInsert hb ‹_› hg hs
    · cases hs
  | sendData =>
    obtain ⟨hidle, rfl⟩ := Base.of_onIdle hs
    exact h.sdkSsvrSendData hb hidle
  | writev n =>
    simp only [World.step] at hs
    split at hs
    · cases hs
      exact h.sdkSsvrWritev hb n
    · cases hs
  | go => exact h.go hb hs
  | read n =>
    simp only [World.step] at hs
    split at hs
    · obtain ⟨-, rfl⟩ := Base.of_onIdle hs
      exact { h with }
    · cases hs
  | recv mesg addr link length =>
    simp only [World.step] at hs
    split at hs
    · obtain ⟨-, rfl⟩ := Base.of_onIdle hs
      have hread : Outward t₀ { w with unread := w.unread - mesg.mesgLen } := { h with }
      rw [World.sdkSsvrDataProc]
      split
      · rename_i hack
        exact hread.sdkAckSuccHdl hack
      · exact hread.sdkSysMesgProc { hb with } hwrap addr link length hg.2
    · cases hs
  | disconnect =>
    obtain ⟨-, rfl⟩ := Base.of_onIdle hs
    exact { h with }
  | networkSwitch =>
    obtain ⟨-, rfl⟩ := Base.of_onIdle hs
    exact Outward.wiovClean (w := { w with fd := false }) { h with } true
  | trav mem =>
    obtain ⟨-, rfl⟩ := Base.of_onIdle hs
    exact h.keeps (Keeps.sdkSendMgrTrav w mem)
  | reconn info conn addr link length =>
    simp only [World.step] at hs
    split at hs
    · cases hs
    · obtain ⟨-, rfl⟩ := Base.of_onIdle hs
      exact h.sdkSsvrReconn hb hwrap _ _ _ _ _
  | keepalive addr link =>
    simp only [World.step] at hs
    split at hs
    · obtain ⟨-, rfl⟩ := Base.of_onIdle hs
      exact h.sdkMesgSendPingReq hb hwrap _ _
    · cases hs
  | work =>
    cases hs
    rw [World.sdkWorkerCmdProcReqHdl]
    split
    · exact h
    · simp only
      split
      · exact { h with }
      · exact { h with }

end Outward

end BeehiveIm.Sdk
