/-
What comes in for a message that was sent, its reply or its timeout, and what this makes of every
run.
-/
import BeehiveIm.Sdk.Lifecycle

namespace BeehiveIm.Sdk

open BeehiveIm.Core BeehiveIm.Lib

/-- A status after which there is no other. -/
def SendStat.Terminal : SendStat → Prop
  | .sendFail => True
  | .sendTimeout => True
  | .ackSucc => True
  | .ackTimeout => True
  | _ => False

instance (stat : SendStat) : Decidable stat.Terminal := by
  cases stat <;> unfold SendStat.Terminal <;> infer_instance

namespace World

def InTable (w : World) (m : Nat) : Prop := ⟨(w.item m).seq, m⟩ ∈ w.nodes

instance (w : World) (m : Nat) : Decidable (w.InTable m) := inferInstanceAs (Decidable (_ ∈ _))

/-- A message told a terminal status at most once and nothing after it, in the table until
then, and freed once, when nothing refers to it. A handler that is about to be done with it
may be between the two. -/
structure Handled (w : World) (m : Nat) : Prop where
  last : ∀ stat ∈ (w.told m).dropLast, ¬stat.Terminal
  inTable : (w.item m).cb.isSome → w.pc.closing m = none → (w.InTable m ↔ ∀ stat ∈ w.told m, ¬stat.Terminal)
  freedItem : w.freedItem.count m = if w.InTable m ∨ (w.pc.closing m).isSome then 0 else 1
  freedData : w.freedData.count m = if w.InTable m ∨ (w.pc.closing m).isSome then 0 else 1
  unused : m ∈ w.freedItem ∨ m ∈ w.freedData → ¬w.InTable m ∧ m ∉ w.pc.hand ++ w.sendq ∧ m ∉ w.vector

def AllHandled (w : World) : Prop := w.failed = false ∧ ∀ m ∈ w.accepted, w.Handled m

/-- A message is sent with a callback, which not every handler looks for before the call. The
numbers in the table lie within half of their range, and a reply is one to the request its type
acknowledges, of which all has been written. -/
def LifeGuard (ctx : Cntx) (w : World) : Event → Prop
  | .send _ req => req.cb.isSome
  | .insert t _ _ => ∀ c ∈ w.calls t, InHalf ((w.item c.mesg).seq :: w.nodes.map Node.seq)
  | .recv mesg _ _ _ => ∀ cmd ∈ ctx.cmd mesg.type, ∀ node ∈ (w.query mesg.seq).join,
    (w.item node.item).cmd = cmd ∧ node.item ∉ w.sendq ∧ node.item ∉ w.vector
  | _ => True

instance (ctx : Cntx) (w : World) : (e : Event) → Decidable (w.LifeGuard ctx e)
  | .send _ req => inferInstanceAs (Decidable (req.cb.isSome = true))
  | .insert t _ _ => inferInstanceAs (Decidable (∀ c ∈ w.calls t, InHalf ((w.item c.mesg).seq :: w.nodes.map Node.seq)))
  | .recv mesg _ _ _ => inferInstanceAs (Decidable (∀ cmd ∈ ctx.cmd mesg.type, ∀ node ∈ (w.query mesg.seq).join,
    (w.item node.item).cmd = cmd ∧ node.item ∉ w.sendq ∧ node.item ∉ w.vector))
  | .tick _ | .number _ _ _ | .sendData | .writev _ | .go | .read _ | .disconnect | .networkSwitch | .trav _
  | .reconn _ _ _ _ _ | .keepalive _ _ | .work => inferInstanceAs (Decidable True)

end World

/-! ## What a stage says of a message -/

structure View.Handled (v : View) : Prop where
  last : ∀ stat ∈ v.told.dropLast, ¬stat.Terminal
  inTable : v.cb = true → v.closing = none → (v.listed = true ↔ ∀ stat ∈ v.told, ¬stat.Terminal)
  freedItem : v.freedItem = if v.listed = true ∨ v.closing.isSome then 0 else 1
  freedData : v.freedData = if v.listed = true ∨ v.closing.isSome then 0 else 1
  unused : 0 < v.freedItem ∨ 0 < v.freedData → v.listed = false ∧ v.queued = 0 ∧ v.vector = 0

theorem ends_last : ∀ stats ∈ ends, (∀ stat ∈ stats.dropLast, ¬stat.Terminal) ∧ ∃ stat ∈ stats, stat.Terminal := by
    decide

theorem heard_nil (cb : Bool) : heard cb [] = [] := by cases cb <;> rfl

theorem mem_heard {cb : Bool} {stats : List SendStat} {stat : SendStat} (h : stat ∈ heard cb stats) : stat ∈ stats := by
  cases cb with
  | false => cases h
  | true => exact h

theorem mem_dropLast_heard {cb : Bool} {stats : List SendStat} {stat : SendStat}
    (h : stat ∈ (heard cb stats).dropLast) : stat ∈ stats.dropLast := by
  cases cb with
  | false => cases h
  | true => exact h

/-- A message in the table that was told nothing terminal. -/
theorem Stage.handled_listed {v : View} (hl : v.listed = true) (ht : ∀ stat ∈ v.told, ¬stat.Terminal)
    (hi : v.freedItem = 0) (hd : v.freedData = 0) : v.Handled where
  last stat hs := ht stat (List.mem_of_mem_dropLast hs)
  inTable _ _ := ⟨fun _ => ht, fun _ => hl⟩
  freedItem := by rw [hi, if_pos (.inl hl)]
  freedData := by rw [hd, if_pos (.inl hl)]
  unused hf := by omega

/-- A message that a handler is about to be done with. -/
theorem Stage.handled_closing {v : View} (hc : v.closing.isSome) (ht : ∀ stat ∈ v.told.dropLast, ¬stat.Terminal)
    (hi : v.freedItem = 0) (hd : v.freedData = 0) : v.Handled where
  last := ht
  inTable _ hn := by rw [hn] at hc; cases hc
  freedItem := by rw [hi, if_pos (.inr hc)]
  freedData := by rw [hd, if_pos (.inr hc)]
  unused hf := by omega

theorem Stage.handled {v : View} (h : Stage v) : v.Handled := by
  cases h with
  | queued cb n hn => exact Stage.handled_listed rfl (by simp) rfl rfl
  | sending cb => exact Stage.handled_listed rfl (by simp) rfl rfl
  | sent cb =>
    refine Stage.handled_listed rfl (fun stat hs => ?_) rfl rfl
    obtain rfl := List.mem_singleton.1 (mem_heard hs)
    decide
  | dropped cb stat hstat =>
    exact Stage.handled_closing rfl (fun _ hs => by cases mem_dropLast_heard hs) rfl rfl
  | acked cb stat stats hstats =>
    refine Stage.handled_closing rfl (fun stat hs => ?_) rfl rfl
    have hlast := (ends_last _ hstats).1 stat
    rw [List.dropLast_concat] at hlast
    exact hlast (mem_heard (List.mem_of_mem_dropLast hs))
  | gone cb stat stats hstats =>
    obtain ⟨hlast, term, hterm, hisTerm⟩ := ends_last stats hstats
    constructor
    · exact fun stat hs => hlast stat (mem_dropLast_heard hs)
    · intro hcb _
      simp only at hcb
      subst hcb
      exact ⟨fun hl => (by cases hl), fun hall => absurd hisTerm (hall term hterm)⟩
    · rfl
    · rfl
    · exact fun _ => ⟨rfl, rfl, rfl⟩

variable {w w' : World} {tab : Seq → Option Nat} {m : Nat}

namespace Inv

theorem inTable_iff (h : Inv w tab) : w.InTable m ↔ tab (w.item m).seq = some m := by
  obtain ⟨nodes, htrav, hmem, -⟩ := h.table.trav
  rw [World.InTable, World.nodes, htrav]
  exact hmem _

theorem handled (h : Inv w tab) (hm : m ∈ w.accepted) : w.Handled m := by
  have hv := (h.view_of_mem hm).handled
  have hin : w.InTable m ↔ (w.view tab m).listed = true := h.inTable_iff.trans listed_iff.symm
  have hclosing : (w.view tab m).closing = w.pc.closing m := rfl
  constructor
  · exact hv.last
  · intro hcb hc
    rw [hin]
    exact hv.inTable hcb hc
  · simp only [hin, ← hclosing]
    exact hv.freedItem
  · simp only [hin, ← hclosing]
    exact hv.freedData
  · intro hfree
    obtain ⟨hl, hq, hvec⟩ := hv.unused (hfree.imp List.count_pos_iff.2 List.count_pos_iff.2)
    refine ⟨?_, List.count_eq_zero.1 hq, List.count_eq_zero.1 hvec⟩
    rw [hin, hl]
    exact Bool.false_ne_true

/-! ## Replies -/

theorem sdkAckSuccHdl (h : Inv w tab) (hidle : w.pc = .idle) {ctx : Cntx} {mesg : Mesg}
    (hg : ∀ cmd ∈ ctx.cmd mesg.type, ∀ node ∈ (w.query mesg.seq).join,
      (w.item node.item).cmd = cmd ∧ node.item ∉ w.sendq ∧ node.item ∉ w.vector)
    (hs : w.sdkAckSuccHdl ctx mesg = some w') : ∃ tab', Inv w' tab' := by
  have hbase := h.toBase.sdkAckSuccHdl hs
  rw [World.sdkAckSuccHdl] at hs
  split at hs
  · cases hs
  · rename_i cmd hcmd
    split at hs
    · rename_i node hq
      obtain ⟨hcmd', hsendq, hvector⟩ := hg cmd hcmd node (by rw [hq]; rfl)
      obtain ⟨htab, hacc, hseq⟩ := h.of_query hq
      rw [if_pos hcmd'] at hs
      rw [← hseq] at htab hs
      obtain ⟨T, hdel, hT⟩ := h.table.delete_some htab
      rw [hdel] at hs
      cases hs
      have hun := (h.takeOut node.item).untable hT htab
      have hturn := hun.turn hbase (fun _ _ _ => by simp only [hidle]; rfl)
        (fun m' _ hne => by
          have hne' : node.item ≠ m' := fun heq => hne (by rw [heq])
          simp only [hidle]
          exact if_neg hne')
        (fun _ _ _ => by simp only [World.vector, hidle]; rfl)
        (fun m' hc => by
          by_contra hnot
          have hne : node.item ≠ m' := fun heq => hnot (heq ▸ hacc)
          rw [Ssvr.closing, if_neg hne] at hc
          cases hc)
        (fun hne => absurd rfl hne)
      refine ⟨_, hturn.putIn fun _ => ?_⟩
      have hl : (w.view tab node.item).listed = true := listed_iff.2 htab
      have hclosing : (w.view tab node.item).closing = none := by
        rw [World.view, hidle]
        rfl
      have hqueue : (w.pc.hand ++ w.sendq).count node.item = 0 := by
        rw [hidle]
        exact List.count_eq_zero.2 hsendq
      have hvec : w.vector.count node.item = 0 := List.count_eq_zero.2 hvector
      -- the message is in the queue's books but not in the queue, or sent
      have hack : ∀ {stat : SendStat} {stats : List SendStat} {n : Nat}, stats ++ [.ackSucc] ∈ ends →
          w.view tab node.item = ⟨stat, (w.view tab node.item).cb, true, n, 0, heard (w.view tab node.item).cb stats, 0,
          0, none⟩ →
          Stage (World.view { w with tab := T, pc := .acked node.item }
          (Function.update tab (w.item node.item).seq none) node.item) := by
        intro stat stats n hends hv
        have hacked : World.view { w with tab := T, pc := .acked node.item }
          (Function.update tab (w.item node.item).seq none) node.item =
            ⟨stat, (w.view tab node.item).cb, false, 0, 0, heard (w.view tab node.item).cb stats, 0, 0,
            some false⟩ := by
          unfold World.view
          rw [View.mk.injEq]
          refine ⟨congrArg View.stat hv, rfl, by simp, ?_, ?_, congrArg View.told hv, congrArg View.freedItem hv,
            congrArg View.freedData hv, if_pos rfl⟩
          · rw [hidle] at hqueue
            exact hqueue
          · rw [World.vector, hidle] at hvec
            exact hvec
        rw [hacked]
        exact Stage.acked _ _ _ hends
      rcases (h.view_of_mem hacc).of_listed hl hclosing with ⟨n, -, hv⟩ | hv | hv
      · rw [← heard_nil (w.view tab node.item).cb] at hv
        exact hack (by decide) hv
      · have hone : w.vector.count node.item = 1 := congrArg View.vector hv
        omega
      · exact hack (by decide) hv
    · cases hs
    · rename_i hq
      rw [h.query] at hq
      cases hq

/-! ## The server thread's own messages -/

theorem sdkMesgSendPingReq (h : Inv w tab) (hidle : w.pc = .idle) (addr link : Bool) :
    Inv (w.sdkMesgSendPingReq addr link) tab := by
  rw [World.sdkMesgSendPingReq]
  split
  · refine Inv.wiovClean (w := { w with fd := false }) { h with toBase := { h.toBase with } } ?_ false
    rw [show World.pc { w with fd := false } = .idle from hidle]
    exact ⟨rfl, fun _ => rfl, rfl⟩
  · have hpush := h.pushMesg CMD_PING 0 addr link
    simp only
    split
    · exact { hpush with toBase := { hpush.toBase with } }
    · exact hpush

theorem sdkSysMesgProc (h : Inv w tab) (hidle : w.pc = .idle) (mesg : Mesg) (addr link : Bool) (length : Nat) :
    Inv (w.sdkSysMesgProc mesg addr link length) tab := by
  rw [World.sdkSysMesgProc]
  split
  · exact { h with toBase := { h.toBase with } }
  · split
    · have hping : Inv { w with kpaliveTimes := 0 } tab := { h with toBase := { h.toBase with } }
      exact hping.sdkMesgSendPingReq hidle _ _
    · split
      · cases mesg.ack with
        | none => exact { h with toBase := { h.toBase with } }
        | some ack =>
          rw [World.sdkMesgOnlineAckHandler]
          split
          · have hon : Inv { w with seq := ack.seq, online := true } tab := { h with toBase := { h.toBase with } }
            exact hon.pushMesg _ _ _ _
          · exact { h with toBase := { h.toBase with } }
      · rw [World.sdkExpMesgProc]
        simp only
        split
        · exact { h with toBase := { h.toBase with } }
        · exact { h with toBase := { h.toBase with } }

theorem sdkSsvrReconn (h : Inv w tab) (hidle : w.pc = .idle) (info conn addr link : Bool) (length : Nat) :
    Inv (w.sdkSsvrReconn info conn addr link length) tab := by
  rw [World.sdkSsvrReconn]
  simp only
  split
  · have hfree := h.freeOwn [] w.mesgList.reverse fun addr ha => h.mesgs addr (List.mem_reverse.1 ha)
    have hclear : ∀ (fd : Bool) (wire : List (Nat × Nat)), (∀ b ∈ wire, w.Settled b.1) → Inv { w with
        kpaliveTimes := 0, freedData := w.mesgList.reverse ++ w.freedData, mesgList := [], fd := fd, wire :=
          wire } tab :=
      fun _ _ hwire => { hfree with toBase := { hfree.toBase with mesgs := by simp, wire := hwire } }
    split
    · have hpush := (hclear true [] (by simp)).pushMesg CMD_ONLINE length addr link
      have hpcp : (World.pushMesg { w with
          kpaliveTimes := 0, freedData := w.mesgList.reverse ++ w.freedData, mesgList := [], fd := true, wire := [] }
            CMD_ONLINE length addr link).pc = .idle := by
        rw [World.pushMesg]
        split
        · simp only
          split
          · exact hidle
          · exact hidle
        · exact hidle
      have hbase : Base { World.pushMesg { w with
          kpaliveTimes := 0, freedData := w.mesgList.reverse ++ w.freedData, mesgList := [], fd := true, wire := [] }
            CMD_ONLINE length addr link with pc := .connected } := hpush.toBase.resume rfl (by simp [Ssvr.calls])
      have hturn := hpush.turn hbase (fun _ _ _ => by rw [hpcp]; rfl) (fun _ _ _ => by rw [hpcp]; rfl)
        (fun _ _ _ => by rw [World.vector, hpcp]; rfl) (fun _ hc => by cases hc) (fun hne => absurd rfl hne)
      exact { hturn with toBase := { hturn.toBase with } }
    · have hfail := hclear w.fd w.wire h.wire
      exact { hfail with toBase := { hfail.toBase with } }
  · exact { h with toBase := { h.toBase with } }

/-! ## Timeouts -/

/-- An item out of the table, told its status and freed. -/
theorem cleanItem (h : Inv w tab (some m)) (hm : m ∈ w.accepted) (htab : tab (w.item m).seq = some m)
    {stat stat' : SendStat}
    {stats : List SendStat} (hv : w.view tab m =
    ⟨stat', (w.view tab m).cb, true, 0, 0, heard (w.view tab m).cb stats, 0, 0, none⟩)
    (hends : stats ++ [stat] ∈ ends) : Inv (w.cleanItem m stat) (Function.update tab (w.item m).seq none) := by
  obtain ⟨T, hdel, hT⟩ := h.table.delete_some htab
  have hdata := (h.accepted m hm).2.1
  rw [World.cleanItem, hdel]
  simp only
  rw [hdata]
  have hun := h.untable hT htab
  have hset := hun.setStat hm stat
  have htold := hset.tell hm stat
  have hacc : m ∈ (World.tell (World.setStat { w with tab := T } m stat) m stat).accepted := by
    rw [tell_eq]
    exact hm
  refine ((htold.freeData hacc).freeItem hacc).putIn fun _ => ?_
  have hview : World.view { w with tab := T } (Function.update tab (w.item m).seq none) m =
      ⟨stat', (w.view tab m).cb, false, 0, 0, heard (w.view tab m).cb stats, 0, 0, none⟩ := by
    unfold World.view
    rw [View.mk.injEq]
    exact ⟨congrArg View.stat hv, rfl, by simp, congrArg View.queued hv, congrArg View.vector hv, congrArg View.told hv,
      congrArg View.freedItem hv, congrArg View.freedData hv, congrArg View.closing hv⟩
  rw [view_freeItem, view_freeData, view_tell, view_setStat, hview]
  simp only [heard_append, Nat.zero_add]
  exact Stage.gone _ _ _ hends

theorem sdkSendItemCleanTimeoutHdl (h : Inv w tab) (hidle : w.pc = .idle) (hacc : m ∈ w.accepted)
    (htab : tab (w.item m).seq = some m)
    (hsend : (w.item m).stat ≠ .sending) :
    Inv (w.sdkSendItemCleanTimeoutHdl m) (Function.update tab (w.item m).seq none) := by
  have hclosing : (w.view tab m).closing = none := by
    rw [World.view, hidle]
    rfl
  rw [World.sdkSendItemCleanTimeoutHdl]
  rcases (h.view_of_mem hacc).of_listed (listed_iff.2 htab) hclosing with ⟨n, hn, hv⟩ | hv | hv
  · have hstat : (w.item m).stat = .inSendq := congrArg View.stat hv
    have hdata : (w.item m).data = m := (h.accepted m hacc).2.1
    have hqueued : (w.pc.hand ++ w.sendq).count m = n := congrArg View.queued hv
    rw [hidle] at hqueued
    have hone : w.sendq.count m ≤ 1 := hqueued.trans_le hn
    rw [hstat]
    simp only
    rw [hdata]
    have hbase : Base { w with sendq := w.sendq.erase m } := h.toBase.keeps
      ⟨⟨_, _, _, _, _, _, _, _, _, _⟩, rfl, List.erase_sublist, fun _ => ⟨rfl, rfl⟩⟩
    have hturn : Inv { w with sendq := w.sendq.erase m } tab (some m) := by
      refine (h.takeOut m).turn hbase (fun m' _ hne => ?_) (fun _ _ _ => rfl) (fun _ _ _ => rfl) h.closing h.space
      have hne' : m ≠ m' := fun heq => hne (by rw [heq])
      rw [List.count_append, List.count_append, List.count_erase_of_ne hne'.symm]
    have hzero : (w.sendq.erase m).count m = 0 := by
      rw [List.count_erase_self]
      omega
    have hview : World.view { w with sendq := w.sendq.erase m } tab m =
        ⟨.inSendq, (w.view tab m).cb, true, 0, 0, heard (w.view tab m).cb [], 0, 0, none⟩ := by
      unfold World.view
      rw [View.mk.injEq]
      refine ⟨hstat, rfl, congrArg View.listed hv, ?_, congrArg View.vector hv, ?_, congrArg View.freedItem hv,
        congrArg View.freedData hv, congrArg View.closing hv⟩
      · rw [hidle]
        exact hzero
      · rw [heard_nil]
        exact congrArg View.told hv
    exact hturn.cleanItem hacc htab hview (by decide)
  · exact absurd (congrArg View.stat hv) hsend
  · have hstat : (w.item m).stat = .sendSucc := congrArg View.stat hv
    rw [hstat]
    exact (h.takeOut m).cleanItem hacc htab hv (by decide)

/-- Another item is not touched. -/
theorem item_clean {m' : Nat} (hne : m' ≠ m) : (w.sdkSendItemCleanTimeoutHdl m).item m' = w.item m' := by
  have hclean : ∀ (w : World) (stat : SendStat), (w.cleanItem m stat).item m' = w.item m' := by
    intro w stat
    rw [World.cleanItem]
    split
    · rfl
    · rw [tell_eq]
      exact Function.update_of_ne hne _ _
  rw [World.sdkSendItemCleanTimeoutHdl]
  split
  · exact hclean _ _
  · rfl
  · exact hclean _ _
  · exact hclean _ _

theorem cleanAll (nodes : List Node) : ∀ {w : World} {tab : Seq → Option Nat}, Inv w tab → w.pc = .idle →
    (nodes.map Node.seq).Nodup → (∀ node ∈ nodes, tab node.seq = some node.item ∧ (w.item node.item).stat ≠ .sending) →
    ∃ tab', Inv (nodes.foldl (fun w node => w.sdkSendItemCleanTimeoutHdl node.item) w) tab' := by
  induction nodes with
  | nil => exact fun h _ _ _ => ⟨_, h⟩
  | cons node nodes ih =>
    intro w tab h hidle hnodup hall
    obtain ⟨hnot, hnodup⟩ := List.nodup_cons.1 hnodup
    obtain ⟨htab, hstat⟩ := hall node List.mem_cons_self
    obtain ⟨hseq, hacc⟩ := h.listed _ _ htab
    have hclean := h.sdkSendItemCleanTimeoutHdl hidle hacc (by rw [hseq]; exact htab) hstat
    refine ih hclean ?_ hnodup fun node' hn' => ?_
    · obtain ⟨b, hb, -⟩ := Keeps.sdkSendItemCleanTimeoutHdl w node.item
      exact (congrArg World.pc hb).trans hidle
    · obtain ⟨htab', hstat'⟩ := hall node' (List.mem_cons_of_mem _ hn')
      have hne : node'.seq ≠ node.seq := fun heq => hnot (heq ▸ List.mem_map_of_mem hn')
      have hitem : node'.item ≠ node.item := by
        intro heq
        have hseq' := (h.listed _ _ htab').1
        rw [heq, hseq] at hseq'
        exact hne hseq'.symm
      have hsame := item_clean (w := w) hitem
      rw [hseq, Function.update_of_ne hne]
      simp only [hsame]
      exact ⟨htab', hstat'⟩

theorem sdkSendMgrTrav (h : Inv w tab) (hidle : w.pc = .idle) (mem : Nat → Bool) :
    ∃ tab', Inv (w.sdkSendMgrTrav mem) tab' := by
  obtain ⟨nodes, htrav, hmem, hnodup⟩ := h.table.trav
  rw [World.sdkSendMgrTrav, htrav]
  refine h.cleanAll _ hidle (hnodup.sublist (List.filter_sublist.map _)) fun node hn => ?_
  obtain ⟨hn, hlate⟩ := List.mem_filter.1 hn
  exact ⟨(hmem node).1 hn, (of_decide_eq_true hlate).2.1⟩

/-! ## Runs -/

theorem go (h : Inv w tab) (hs : w.go = some w') : ∃ tab', Inv w' tab' := by
  have hbase := h.toBase.go hs
  rw [World.go] at hs
  split at hs
  · cases hs
  · rename_i hpc
    cases hs
    exact ⟨tab, h.sdkQueueLpop hpc⟩
  · rename_i hpc
    cases hs
    exact ⟨tab, h.sdkSendDataIsTimeoutAndHdl hpc⟩
  · rename_i addr hpc
    cases hs
    have hclosing : w.pc.closing addr = some true := by rw [hpc]; exact if_pos rfl
    exact h.delete hclosing hbase (by rw [hpc]; rfl) (fun _ => rfl) (fun m' hne => by rw [hpc]; exact if_neg hne.symm)
      (by rw [hpc]; rfl)
  · cases hs
  · rename_i hpc
    cases hs
    have hidle : Inv { w with pc := .idle } tab :=
      h.turn (h.toBase.resume rfl (by simp [Ssvr.calls])) (fun _ _ _ => by rw [hpc]; rfl)
        (fun _ _ _ => by rw [hpc]; rfl)
        (fun _ _ _ => by rw [World.vector, hpc]; rfl) (fun _ hc => by cases hc) (fun hne => absurd rfl hne)
    exact ⟨tab, { hidle with toBase := { hidle.toBase with } }⟩
  · rename_i hpc
    cases hs
    exact ⟨tab, h.notify hpc⟩
  · rename_i addr calls off hpc
    cases hs
    have hclosing : w.pc.closing addr = some true := by rw [hpc]; exact if_pos rfl
    exact h.delete hclosing hbase (by rw [hpc]; rfl) (fun _ => rfl) (fun m' hne => by rw [hpc]; exact if_neg hne.symm)
      (by rw [hpc]; rfl)
  · rename_i m hpc
    obtain ⟨w₁, hcall, rfl⟩ := Option.map_eq_some_iff.1 hs
    exact ⟨tab, h.acked hpc hcall⟩
  · rename_i hpc
    cases hs
    have hidle : Inv { w with pc := .idle } tab :=
      h.turn (h.toBase.resume rfl (by simp [Ssvr.calls])) (fun _ _ _ => by rw [hpc]; rfl)
        (fun _ _ _ => by rw [hpc]; rfl)
        (fun _ _ _ => by rw [World.vector, hpc]; rfl) (fun _ hc => by cases hc) (fun hne => absurd rfl hne)
    exact ⟨tab, { hidle with toBase := { hidle.toBase with } }⟩

theorem init (sendqLen : Nat) (clock : Int) : Inv (World.init sendqLen clock) fun _ => none where
  toBase := Base.init sendqLen clock
  table := rbtCreat_holds
  listed _ _ hm := by cases hm
  stage _ hm := by cases hm
  closing _ hc := by cases hc
  space hne := absurd rfl hne
  pending _ _ hc := by cases hc
  fresh _ _ := ⟨rfl, by simp [World.init], by simp [World.init]⟩
  failed := rfl

theorem step {ctx : Cntx} {e : Event} (h : Inv w tab) (hg : w.LifeGuard ctx e) (hs : w.step ctx e = some w') :
    ∃ tab', Inv w' tab' := by
  have hbase := h.toBase.step hs
  cases e with
  | tick secs =>
    cases hs
    exact ⟨tab, { h with toBase := hbase }⟩
  | send t req =>
    simp only [World.step] at hs
    split at hs
    · exact ⟨tab, h.sdkAsyncSend ‹_› hs⟩
    · cases hs
  | number t addr item =>
    simp only [World.step] at hs
    split at hs
    · exact ⟨tab, h.sdkGenSeq ‹_› hs⟩
    · cases hs
  | insert t node link =>
    simp only [World.step] at hs
    split at hs
    · rename_i m hc
      exact h.sdkSendMgrInsert hc (hg _ hc) hs
    · cases hs
  | sendData =>
    obtain ⟨hidle, rfl⟩ := Base.of_onIdle hs
    exact ⟨tab, h.sdkSsvrSendData hidle⟩
  | writev n =>
    simp only [World.step] at hs
    split at hs
    · rename_i hpc
      cases hs
      exact ⟨tab, h.sdkSsvrWritev hpc n⟩
    · cases hs
  | go => exact h.go hs
  | read n =>
    simp only [World.step] at hs
    split at hs
    · obtain ⟨-, rfl⟩ := Base.of_onIdle hs
      exact ⟨tab, { h with toBase := hbase }⟩
    · cases hs
  | recv mesg addr link length =>
    simp only [World.step] at hs
    split at hs
    · obtain ⟨hidle, rfl⟩ := Base.of_onIdle hs
      have hread : Inv { w with unread := w.unread - mesg.mesgLen } tab := { h with toBase := { h.toBase with } }
      rw [World.sdkSsvrDataProc]
      split
      · rename_i hack
        exact hread.sdkAckSuccHdl hidle hg hack
      · exact ⟨tab, hread.sdkSysMesgProc hidle _ _ _ _⟩
    · cases hs
  | disconnect =>
    obtain ⟨-, rfl⟩ := Base.of_onIdle hs
    exact ⟨tab, { h with toBase := hbase }⟩
  | networkSwitch =>
    obtain ⟨hidle, rfl⟩ := Base.of_onIdle hs
    refine ⟨tab, Inv.wiovClean (w := { w with fd := false }) { h with toBase := { h.toBase with } } ?_ true⟩
    rw [show World.pc { w with fd := false } = .idle from hidle]
    exact ⟨rfl, fun _ => rfl, rfl⟩
  | trav mem =>
    obtain ⟨hidle, rfl⟩ := Base.of_onIdle hs
    exact h.sdkSendMgrTrav hidle mem
  | reconn info conn addr link length =>
    simp only [World.step] at hs
    split at hs
    · cases hs
    · obtain ⟨hidle, rfl⟩ := Base.of_onIdle hs
      exact ⟨tab, h.sdkSsvrReconn hidle _ _ _ _ _⟩
  | keepalive addr link =>
    simp only [World.step] at hs
    split at hs
    · obtain ⟨hidle, rfl⟩ := Base.of_onIdle hs
      exact ⟨tab, h.sdkMesgSendPingReq hidle _ _⟩
    · cases hs
  | work =>
    cases hs
    refine ⟨tab, ?_⟩
    rw [World.sdkWorkerCmdProcReqHdl] at hbase ⊢
    split at hbase
    · exact h
    · simp only at hbase ⊢
      split at hbase
      · rename_i hreg
        rw [if_pos hreg]
        exact { h with toBase := hbase }
      · rename_i hreg
        rw [if_neg hreg]
        exact { h with toBase := hbase }

end Inv

/-- Over every run in which the numbers are apart and the replies are to messages that were sent. -/
theorem messages_handled (ctx : Cntx) (sendqLen : Nat) (clock : Int) (es : List Event) (w : World)
    (hg : Guarded (fun w e => (w.step ctx e).getD w) (World.LifeGuard ctx) (World.init sendqLen clock) es)
    (hrun : es.foldlM (World.step ctx) (World.init sendqLen clock) = some w) : w.AllHandled := by
  obtain ⟨tab, h⟩ := run_kept (World.step ctx) (World.LifeGuard ctx) (fun w => ∃ tab, Inv w tab)
    (fun w e w' ⟨_, h⟩ hok hs => h.step hok hs) es _ _ ⟨_, Inv.init sendqLen clock⟩ hg hrun
  exact ⟨h.failed, fun m hm => h.handled hm⟩

/-- Type 0x301 acknowledges 0x300, and 0x401 acknowledges 0x400. -/
def ackCntx : Cntx := ⟨fun type => if type = 0x301 then some 0x300 else if type = 0x401 then some 0x400 else none,
    fun _ => false⟩

/-- A message is sent and acknowledged. -/
theorem messages_handled_one : ∃ w, ([.reconn true true true true 8, .go, .send 7 ⟨0x300, 0, 10, some 0, 0⟩,
    .number 7 true true,
      .insert 7 true true, .sendData, .go, .go, .go, .writev (some 112), .go, .go, .go, .read 52,
      .recv ⟨0x301, 0, 2, none⟩ true true 0, .go] :
      List Event).foldlM (World.step ackCntx) (World.init 2 0) = some w ∧ w.AllHandled := by
  obtain ⟨w, hw⟩ := Option.isSome_iff_exists.1 (by decide : (([.reconn true true true true 8, .go,
    .send 7 ⟨0x300, 0, 10, some 0, 0⟩, .number 7 true true, .insert 7 true true, .sendData, .go, .go, .go,
    .writev (some 112), .go, .go, .go, .read 52, .recv ⟨0x301, 0, 2, none⟩ true true 0, .go] :
      List Event).foldlM (World.step ackCntx) (World.init 2 0)).isSome)
  exact ⟨w, hw, messages_handled ackCntx 2 0 _ w (by decide) hw⟩

/-- The server answers with the acknowledgement of another request before the message has left its
queue: the item is freed. -/
theorem wrong_reply_frees : ∃ w, ([.reconn true true true true 8, .go, .send 7 ⟨0x300, 0, 10, some 0, 0⟩,
    .number 7 true true,
      .insert 7 true true, .read 52, .recv ⟨0x401, 0, 2, none⟩ true true 0, .go] :
      List Event).foldlM (World.step ackCntx) (World.init 2 0) = some w ∧ ¬w.AllHandled := by
  obtain ⟨w, hw, hfreed⟩ := Option.map_eq_some_iff.1 (by decide : (([.reconn true true true true 8, .go,
    .send 7 ⟨0x300, 0, 10, some 0, 0⟩, .number 7 true true, .insert 7 true true, .read 52,
    .recv ⟨0x401, 0, 2, none⟩ true true 0, .go] :
      List Event).foldlM (World.step ackCntx) (World.init 2 0)).map
        (fun w => decide (1 ∈ w.accepted ∧ 1 ∈ w.freedItem ∧ 1 ∈ w.sendq)) = some true)
  obtain ⟨hacc, hitem, hq⟩ := of_decide_eq_true hfreed
  exact ⟨w, hw, fun h => ((h.2 1 hacc).unused (.inl hitem)).2.1 (List.mem_append_right _ hq)⟩

end BeehiveIm.Sdk
