/-
What every run keeps of the messages on their way, whatever their numbers and whatever the table
finds: what is in the queue and in the write vector, which memory is the server thread's own,
and what a call is about.
-/
import BeehiveIm.Core.Iovec.Sent
import BeehiveIm.Sdk

namespace BeehiveIm.Sdk

open BeehiveIm.Core

/-- The item of the write vector that a callback is for. -/
def callOrig : Called → WiovOrig
  | .succ orig => orig
  | .fail orig => orig

/-- The message popped and not yet looked at. -/
def Ssvr.hand : Ssvr → List Nat
  | .popped addr => [addr]
  | _ => []

/-- The callbacks of the write vector still to come. -/
def Ssvr.calls : Ssvr → List Called
  | .notify calls _ => calls
  | .failed _ calls _ => calls
  | _ => []

/-- The items that the write vector refers to. -/
def origs (send : Wiov) : List WiovOrig := (List.range' send.iovIdx (send.iovCnt - send.iovIdx)).map send.orig

/-- The most bytes of an item. -/
def mesgMax : Nat := mesgHeaderSize + 2 ^ 32

namespace World

/-- A number that was given out, and that no call is about any more. -/
def Settled (w : World) (m : Nat) : Prop := m < w.next ∧ ∀ t c, w.calls t = some c → c.mesg ≠ m

/-- Memory of the server thread's own messages -/
def Own (w : World) (addr : Nat) : Prop := w.Settled addr ∧ addr ∉ w.accepted

/-- An item of the write vector: an accepted message with the callbacks of one, or one of its
own. -/
def EntryOk (w : World) (orig : WiovOrig) : Prop :=
  orig.succ = SDK_SEND_SUCC_HDL ∧ orig.fail = SDK_SEND_FAIL_HDL ∧ orig.addr ∈ w.accepted ∨
  orig.succ = MEM_DEALLOC ∧ orig.fail = MEM_DEALLOC ∧ w.Own orig.addr

/-- An entry of the write vector: the end of a message. -/
def PartOk (w : World) (e : Entry) : Prop := e.Part ∧ e.1.len = mesgHeaderSize + (w.head e.1.addr).length

end World

structure Base (w : World) : Prop where
  accepted : ∀ m ∈ w.accepted, w.Settled m ∧ (w.item m).data = m ∧ (w.head m).seq = (w.item m).seq
  queue : ∀ m ∈ w.pc.hand ++ w.sendq, m ∈ w.accepted
  send : ∃ es, w.send.Holds es ∧ ∀ e ∈ es, w.PartOk e
  max : w.send.iovMax ≤ Wiov.IOV_MAX
  length : ∀ m, (w.head m).length < 2 ^ 32
  entry : ∀ orig ∈ origs w.send ++ w.pc.calls.map callOrig, w.EntryOk orig
  mesgs : ∀ addr ∈ w.mesgList, w.Own addr
  call : ∀ t c, w.calls t = some c → c.mesg < w.next ∧
    ∀ m, c = .ready m → (w.item m).data = m ∧ (w.head m).seq = (w.item m).seq
  calls : ∀ t t' c c', w.calls t = some c → w.calls t' = some c' → c.mesg = c'.mesg → t = t'
  wire : ∀ b ∈ w.wire, w.Settled b.1

/-! ## The books -/

/-- The part of a world that is about what becomes of a message. -/
structure Books where
  clock : Int
  online : Bool
  kpaliveTimes : Nat
  tab : RbTree Node
  sendq : List Nat
  item : Nat → SendItem
  called : List (Nat × SendStat)
  freedItem : List Nat
  freedData : List Nat
  failed : Bool

def World.put (w : World) (b : Books) : World :=
  { w with
    clock := b.clock
    online := b.online
    kpaliveTimes := b.kpaliveTimes
    tab := b.tab
    sendq := b.sendq
    item := b.item
    called := b.called
    freedItem := b.freedItem
    freedData := b.freedData
    failed := b.failed }

/-- Only the books change: the queue may lose messages, an item keeps its number and its data. -/
def Keeps (w w' : World) : Prop := ∃ b : Books, w' = w.put b ∧ b.sendq.Sublist w.sendq ∧
  ∀ m, (b.item m).seq = (w.item m).seq ∧ (b.item m).data = (w.item m).data

variable {w w' w'' : World} {m : Nat} {stat : SendStat}

namespace Keeps

theorem refl (w : World) : Keeps w w :=
  ⟨⟨_, _, _, _, _, _, _, _, _, _⟩, rfl, List.Sublist.refl _, fun _ => ⟨rfl, rfl⟩⟩

theorem trans (h : Keeps w w') (h' : Keeps w' w'') : Keeps w w'' := by
  obtain ⟨b, rfl, hsub, hitem⟩ := h
  obtain ⟨b', rfl, hsub', hitem'⟩ := h'
  exact ⟨b', rfl, hsub'.trans hsub, fun m => ⟨(hitem' m).1.trans (hitem m).1, (hitem' m).2.trans (hitem m).2⟩⟩

theorem fault (w : World) : Keeps w w.fault :=
  ⟨⟨_, _, _, _, _, _, _, _, _, _⟩, rfl, List.Sublist.refl _, fun _ => ⟨rfl, rfl⟩⟩

theorem tab (w : World) (T : RbTree Node) : Keeps w { w with tab := T } :=
  ⟨⟨_, _, _, _, _, _, _, _, _, _⟩, rfl, List.Sublist.refl _, fun _ => ⟨rfl, rfl⟩⟩

theorem freeItem (w : World) (m : Nat) : Keeps w (w.freeItem m) :=
  ⟨⟨_, _, _, _, _, _, _, _, _, _⟩, rfl, List.Sublist.refl _, fun _ => ⟨rfl, rfl⟩⟩

theorem freeData (w : World) (m : Nat) : Keeps w (w.freeData m) :=
  ⟨⟨_, _, _, _, _, _, _, _, _, _⟩, rfl, List.Sublist.refl _, fun _ => ⟨rfl, rfl⟩⟩

theorem free (w : World) (m m' : Nat) : Keeps w ((w.freeData m).freeItem m') := (freeData w m).trans (freeItem _ m')

theorem called (w : World) (called : List (Nat × SendStat)) : Keeps w { w with called := called } :=
  ⟨⟨_, _, _, _, _, _, _, _, _, _⟩, rfl, List.Sublist.refl _, fun _ => ⟨rfl, rfl⟩⟩

theorem setStat (w : World) (m : Nat) (stat : SendStat) : Keeps w (w.setStat m stat) := by
  have hitem : ∀ m', ((w.setStat m stat).item m').seq = (w.item m').seq ∧
      ((w.setStat m stat).item m').data = (w.item m').data := by
    intro m'
    by_cases hne : m' = m
    · subst hne
      simp [World.setStat]
    · simp [World.setStat, hne]
  exact ⟨⟨_, _, _, _, _, (w.setStat m stat).item, _, _, _, _⟩, rfl, List.Sublist.refl _, hitem⟩

theorem tell (w : World) (m : Nat) (stat : SendStat) : Keeps w (w.tell m stat) := by
  rw [World.tell]
  split
  · exact called w _
  · exact refl w

theorem call {cb : Option Nat} (h : w.call cb m stat = some w') : Keeps w w' := by
  obtain ⟨_, -, rfl⟩ := Option.map_eq_some_iff.1 h
  exact called w _

theorem sdkSendMgrDelete (w : World) (seq : Seq) : Keeps w (w.sdkSendMgrDelete seq) := by
  rw [World.sdkSendMgrDelete]
  split
  · exact fault w
  · exact tab w _
  · exact (tab w _).trans (free _ _ _)

theorem cleanItem (w : World) (m : Nat) (stat : SendStat) : Keeps w (w.cleanItem m stat) := by
  rw [World.cleanItem]
  split
  · exact fault w
  · exact (((tab w _).trans (setStat _ m stat)).trans (tell _ m stat)).trans (free _ _ _)

theorem sdkSendItemCleanTimeoutHdl (w : World) (m : Nat) : Keeps w (w.sdkSendItemCleanTimeoutHdl m) := by
  rw [World.sdkSendItemCleanTimeoutHdl]
  split
  · refine Keeps.trans (?_ : Keeps w { w with sendq := w.sendq.erase (w.item m).data }) (cleanItem _ m _)
    exact ⟨⟨_, _, _, _, _, _, _, _, _, _⟩, rfl, List.erase_sublist, fun _ => ⟨rfl, rfl⟩⟩
  · exact refl w
  · exact cleanItem w m _
  · exact cleanItem w m _

theorem clean (nodes : List Node) : ∀ w :
    World, Keeps w (nodes.foldl (fun w node => w.sdkSendItemCleanTimeoutHdl node.item) w) := by
  induction nodes with
  | nil => exact refl
  | cons node nodes ih => exact fun w => (sdkSendItemCleanTimeoutHdl w node.item).trans (ih _)

theorem sdkSendMgrTrav (w : World) (mem : Nat → Bool) : Keeps w (w.sdkSendMgrTrav mem) := by
  rw [World.sdkSendMgrTrav]
  split
  · exact fault w
  · exact clean _ w

theorem sdkSendSuccHdl (w : World) (addr : Nat) : Keeps w (w.sdkSendSuccHdl addr) := by
  rw [World.sdkSendSuccHdl]
  split
  · exact (setStat w _ _).trans (tell _ _ _)
  · exact fault w

theorem sdkSendFailHdl (w : World) (addr : Nat) : Keeps w (w.sdkSendFailHdl addr) := by
  rw [World.sdkSendFailHdl]
  split
  · exact (setStat w _ _).trans (tell _ _ _)
  · exact fault w

end Keeps

/-! ## What a step leaves of the messages before it -/

/-- A settled message stays settled and is not written again, and stays accepted or of
the server thread's own. -/
structure Later (w w' : World) : Prop where
  settled : ∀ m, w.Settled m → w'.Settled m
  head : ∀ m, w.Settled m → w'.head m = w.head m
  accepted : ∀ m ∈ w.accepted, m ∈ w'.accepted
  new : ∀ m ∈ w'.accepted, w.Settled m → m ∈ w.accepted

namespace Later

theorem own (h : Later w w') (hown : w.Own m) : w'.Own m :=
  ⟨h.settled m hown.1, fun hacc => hown.2 (h.new m hacc hown.1)⟩

theorem entryOk (h : Later w w') {orig : WiovOrig} (ho : w.EntryOk orig) : w'.EntryOk orig := by
  rcases ho with ⟨hsucc, hfail, hacc⟩ | ⟨hsucc, hfail, hown⟩
  · exact .inl ⟨hsucc, hfail, h.accepted _ hacc⟩
  · exact .inr ⟨hsucc, hfail, h.own hown⟩

end Later

theorem origs_of_holds {send : Wiov} {es : List Entry} (h : send.Holds es) : origs send = es.map Prod.fst := by
  have hnum : send.iovCnt - send.iovIdx = es.length := by have := h.cnt; omega
  rw [origs, hnum]
  refine List.ext_getElem (by simp) fun i h₁ h₂ => ?_
  rw [List.length_map] at h₂
  have hi := h.get i es[i] (List.getElem?_eq_getElem h₂)
  simp [← hi]

namespace Base

theorem settled_of_entry (h : Base w) {orig : WiovOrig} (ho : w.EntryOk orig) : w.Settled orig.addr := by
  rcases ho with ⟨-, -, hacc⟩ | ⟨-, -, hown⟩
  · exact (h.accepted _ hacc).1
  · exact hown.1

theorem settled_of_send (h : Base w) {es : List Entry} (hes : w.send.Holds es) {e : Entry} (he : e ∈ es) :
    w.Settled e.1.addr := by
  refine h.settled_of_entry (h.entry e.1 (List.mem_append_left _ ?_))
  rw [origs_of_holds hes]
  exact List.mem_map_of_mem he

theorem send_later (h : Base w) (hl : Later w w') : ∃ es, w.send.Holds es ∧ ∀ e ∈ es, w'.PartOk e := by
  obtain ⟨es, hes, hpart⟩ := h.send
  refine ⟨es, hes, fun e he => ⟨(hpart e he).1, ?_⟩⟩
  rw [hl.head _ (h.settled_of_send hes he)]
  exact (hpart e he).2

/-- The vector has fewer bytes than a count can hold. -/
theorem size_lt (h : Base w) {es : List Entry} (hes : w.send.Holds es) (hpart : ∀ e ∈ es, w.PartOk e) :
    size es < 2 ^ 64 := by
  have hlen : es.length ≤ 1024 := by
    have := hes.cnt
    have := hes.cnt_le
    have hmax := h.max
    rw [Wiov.IOV_MAX] at hmax
    omega
  have hle : ∀ e ∈ es, e.2.iovLen ≤ mesgMax := by
    intro e he
    obtain ⟨⟨hbase, hend⟩, hwhole⟩ := hpart e he
    have := h.length e.1.addr
    unfold mesgMax
    omega
  have hmul : es.length * mesgMax ≤ 1024 * mesgMax := Nat.mul_le_mul_right _ hlen
  have hmax : 1024 * mesgMax < 2 ^ 64 := by decide
  exact ((size_le hle).trans hmul).trans_lt hmax

/-! ## The books and the messages of the server thread -/

theorem keeps (h : Base w) (hk : Keeps w w') : Base w' := by
  obtain ⟨b, rfl, hsub, hitem⟩ := hk
  exact { h with
    accepted := fun m hm => ⟨(h.accepted m hm).1, (hitem m).2.trans (h.accepted m hm).2.1,
      (h.accepted m hm).2.2.trans (hitem m).1.symm⟩
    queue := fun m hm => by
      rcases List.mem_append.1 hm with hm | hm
      · exact h.queue m (List.mem_append_left _ hm)
      · exact h.queue m (List.mem_append_right _ (hsub.subset hm))
    call := fun t c hc => ⟨(h.call t c hc).1, fun m hm =>
      ⟨(hitem m).2.trans ((h.call t c hc).2 m hm).1, ((h.call t c hc).2 m hm).2.trans (hitem m).1.symm⟩⟩ }

/-- A message of the server thread's own gets the next number. -/
theorem later_head (w : World) (seq : Seq) (head : MesgHead) (mesgList : List Nat) :
    Later w { w with seq := seq, head := Function.update w.head w.next head, next := w.next + 1, mesgList := mesgList } where
  settled _ hm := ⟨Nat.lt_succ_of_lt hm.1, hm.2⟩
  head _ hm := Function.update_of_ne (Nat.ne_of_lt hm.1) _ _
  accepted _ hm := hm
  new _ hm _ := hm

theorem own_next (h : Base w) (seq : Seq) (head : MesgHead) (mesgList : List Nat) :
    World.Own { w with seq := seq, head := Function.update w.head w.next head, next := w.next + 1, mesgList := mesgList } w.next := by
  refine ⟨⟨Nat.lt_succ_self _, fun t c hc => Nat.ne_of_lt (h.call t c hc).1⟩, fun hacc => ?_⟩
  exact Nat.lt_irrefl _ (h.accepted _ hacc).1.1

theorem putMesg (h : Base w) (seq : Seq) {head : MesgHead} (hlen : head.length < 2 ^ 32) {mesgList : List Nat}
    (hlist : ∀ addr ∈ mesgList, addr ∈ w.mesgList ∨ addr = w.next) :
    Base { w with seq := seq, head := Function.update w.head w.next head, next := w.next + 1, mesgList := mesgList } := by
  have hl := later_head w seq head mesgList
  exact { h with
    accepted := fun m hm => ⟨hl.settled m (h.accepted m hm).1, (h.accepted m hm).2.1, by
      rw [hl.head m (h.accepted m hm).1]; exact (h.accepted m hm).2.2⟩
    send := h.send_later hl
    length := fun m => by
      by_cases hm : m = w.next
      · subst hm
        simpa using hlen
      · simpa [hm] using h.length m
    entry := fun orig ho => hl.entryOk (h.entry orig ho)
    wire := fun b hb => hl.settled _ (h.wire b hb)
    mesgs := fun addr ha => by
      rcases hlist addr ha with ha | rfl
      · exact hl.own (h.mesgs addr ha)
      · exact h.own_next seq head mesgList
    call := fun t c hc => ⟨Nat.lt_succ_of_lt (h.call t c hc).1, fun m hm => by
      have hne : m ≠ w.next := by
        have hlt := (h.call t c hc).1
        rw [hm] at hlt
        exact Nat.ne_of_lt hlt
      simpa [hne] using (h.call t c hc).2 m hm⟩ }

theorem pushMesg (h : Base w) (type length : Nat) (addr link : Bool) : Base (w.pushMesg type length addr link) := by
  have hlen : length % 2 ^ 32 < 2 ^ 32 := Nat.mod_lt _ (by decide)
  rw [World.pushMesg]
  split
  · simp only
    split
    · exact h.putMesg _ hlen fun addr ha => (List.mem_append.1 ha).imp_right List.mem_singleton.1
    · exact (h.putMesg _ hlen fun addr ha => .inl ha).keeps (Keeps.freeData _ _)
  · exact h

/-! ## The calls -/

theorem calls_goOn {t t' : Nat} {call : Option Call} {c : Call} (hc : Function.update w.calls t call t' = some c) :
    t' = t ∧ c ∈ call ∨ t' ≠ t ∧ w.calls t' = some c := by
  by_cases ht : t' = t
  · subst ht
    rw [Function.update_self] at hc
    exact .inl ⟨rfl, hc⟩
  · rw [Function.update_of_ne ht] at hc
    exact .inr ⟨ht, hc⟩

theorem later_goOn (w : World) (t : Nat) (call : Option Call) {next : Nat} (hnext : w.next ≤ next)
    (hcall : ∀ c ∈ call, w.next ≤ c.mesg ∨ ∃ c', w.calls t = some c' ∧ c'.mesg = c.mesg) :
    Later w { w with calls := Function.update w.calls t call, next := next } := by
  refine ⟨fun m hm => ⟨Nat.lt_of_lt_of_le hm.1 hnext, fun t' c hc => ?_⟩, fun _ _ => rfl, fun _ hm => hm,
    fun _ hm _ => hm⟩
  rcases calls_goOn hc with ⟨-, hc⟩ | ⟨-, hc⟩
  · rcases hcall c hc with hge | ⟨c', hc', hmesg⟩
    · exact fun heq => by have := hm.1; omega
    · exact hmesg ▸ hm.2 t c' hc'
  · exact hm.2 t' c hc

/-- A thread goes on: its call is about the same message, a new one, or over. -/
theorem goOn (h : Base w) (t : Nat) (call : Option Call) {next : Nat} (hnext : w.next ≤ next)
    (hcall : ∀ c ∈ call, c.mesg < next ∧ (w.next ≤ c.mesg ∨ ∃ c', w.calls t = some c' ∧ c'.mesg = c.mesg) ∧
      ∀ m, c = .ready m → (w.item m).data = m ∧ (w.head m).seq = (w.item m).seq) :
    Base { w with calls := Function.update w.calls t call, next := next } := by
  -- another thread's call is about another message than this one's
  have hother : ∀ t' c c', c ∈ call → t' ≠ t → w.calls t' = some c' → c'.mesg ≠ c.mesg := by
    intro t' c c' hc ht hc' heq
    rcases (hcall c hc).2.1 with hge | ⟨c'', hc'', hm⟩
    · have := (h.call t' c' hc').1
      omega
    · exact ht (h.calls t' t c' c'' hc' hc'' (heq.trans hm.symm))
  have hl := later_goOn w t call hnext fun c hc => (hcall c hc).2.1
  exact { h with
    accepted := fun m hm => ⟨hl.settled m (h.accepted m hm).1, (h.accepted m hm).2⟩
    send := h.send_later hl
    entry := fun orig ho => hl.entryOk (h.entry orig ho)
    wire := fun b hb => hl.settled _ (h.wire b hb)
    mesgs := fun addr ha => hl.own (h.mesgs addr ha)
    call := fun t' c hc => by
      rcases calls_goOn hc with ⟨-, hc⟩ | ⟨-, hc⟩
      · exact ⟨(hcall c hc).1, (hcall c hc).2.2⟩
      · exact ⟨Nat.lt_of_lt_of_le (h.call t' c hc).1 hnext, (h.call t' c hc).2⟩
    calls := fun t' t'' c c' hc hc' heq => by
      rcases calls_goOn hc with ⟨ht, hc⟩ | ⟨ht, hc⟩
      · rcases calls_goOn hc' with ⟨ht', -⟩ | ⟨ht', hc'⟩
        · rw [ht, ht']
        · exact absurd heq.symm (hother t'' c c' hc ht' hc')
      · rcases calls_goOn hc' with ⟨-, hc'⟩ | ⟨-, hc'⟩
        · exact absurd heq (hother t' c' c hc' ht hc)
        · exact h.calls t' t'' c c' hc hc' heq }

theorem hangUp (h : Base w) (t : Nat) : Base { w with calls := Function.update w.calls t none } :=
  h.goOn t none (le_refl _) (by simp)

theorem sdkAsyncSend (h : Base w) {t : Nat} {req : Request} (ht : w.calls t = none)
    (hs : w.sdkAsyncSend t req = some w') : Base w' := by
  rw [World.sdkAsyncSend] at hs
  split at hs
  · cases hs
    exact h.goOn t (some (.checked w.next req)) (Nat.le_succ _) (by simp [Call.mesg])
  · have hcall : Base { w with next := w.next + 1 } := by
      have hg := h.goOn t none (Nat.le_succ _) (by simp)
      rwa [← ht, Function.update_eq_self] at hg
    exact hcall.keeps (Keeps.call hs)

/-- The message of a call gets its number. -/
theorem later_number {t : Nat} {c : Call} (hc : w.calls t = some c) (seq : Seq) (head : MesgHead)
    (item : Nat → SendItem) :
    Later w { w with seq := seq, head := Function.update w.head c.mesg head, item := item } where
  settled _ hm := hm
  head _ hm := Function.update_of_ne (fun heq => hm.2 t c hc heq.symm) _ _
  accepted _ hm := hm
  new _ hm _ := hm

theorem number (h : Base w) {t : Nat} {req : Request} (hc : w.calls t = some (.checked m req)) (seq : Seq)
    (head : MesgHead)
    (hlen : head.length < 2 ^ 32) (item : Nat → SendItem) (hitem : ∀ m', m' ≠ m → item m' = w.item m') :
    Base { w with seq := seq, head := Function.update w.head m head, item := item } := by
  have hl := later_number hc seq head item
  exact { h with
    accepted := fun m' hm => by
      have hne : m' ≠ m := fun heq => (h.accepted m' hm).1.2 t _ hc heq.symm
      refine ⟨(h.accepted m' hm).1, ?_⟩
      simp only [hitem m' hne, Function.update_of_ne hne]
      exact (h.accepted m' hm).2
    send := h.send_later hl
    length := fun m' => by
      by_cases hm : m' = m
      · subst hm
        simpa using hlen
      · simpa [hm] using h.length m'
    call := fun t' c hc' => ⟨(h.call t' c hc').1, fun m' hm => by
      have hne : m' ≠ m := by
        rintro rfl
        have ht := h.calls t' t c _ hc' hc (by rw [hm]; rfl)
        rw [ht, hc, hm] at hc'
        cases hc'
      simp only [hitem m' hne, Function.update_of_ne hne]
      exact (h.call t' c hc').2 m' hm⟩ }

theorem sdkGenSeq (h : Base w) {t : Nat} {req : Request} {addr item : Bool} (hc : w.calls t = some (.checked m req))
    (hs : w.sdkGenSeq t m req addr item = some w') : Base w' := by
  have hlen : req.size % 2 ^ 32 < 2 ^ 32 := Nat.mod_lt _ (by decide)
  have hlt : m < w.next := (h.call t _ hc).1
  rw [World.sdkGenSeq] at hs
  split at hs
  · simp only at hs
    split at hs
    · cases hs
      have hn := h.number hc (w.seq + 1) ⟨req.cmd, req.size % 2 ^ 32, w.seq + 1⟩ hlen
        (Function.update w.item m ⟨w.seq + 1, .inSendq, req.cmd, req.size, w.clock + req.timeout, m, req.cb, req.param⟩)
        (fun m' hne => Function.update_of_ne hne _ _)
      refine hn.goOn t (some (.ready m)) (le_refl _) fun c hcall => ?_
      obtain rfl := Option.some.inj hcall
      refine ⟨hlt, .inr ⟨_, hc, rfl⟩, fun m' hm => ?_⟩
      cases hm
      simp
    · obtain ⟨w₁, hcall, rfl⟩ := Option.map_eq_some_iff.1 hs
      have hn := (h.number hc (w.seq + 1) ⟨req.cmd, req.size % 2 ^ 32, w.seq + 1⟩ hlen w.item (fun _ _ => rfl)).hangUp t
      exact hn.keeps ((Keeps.call hcall).trans (Keeps.freeData _ _))
  · exact (h.hangUp t).keeps (Keeps.call hs)

theorem later_accept {t : Nat} (hc : w.calls t = some (.ready m)) (sendq : List Nat) :
    Later w { w with calls := Function.update w.calls t none, sendq := sendq, accepted := m :: w.accepted } := by
  refine ⟨fun m' hm => ⟨hm.1, fun t' c hc' => ?_⟩, fun _ _ => rfl, fun _ hm => List.mem_cons_of_mem _ hm,
    fun m' hm hset => ?_⟩
  · rcases calls_goOn hc' with ⟨-, hnone⟩ | ⟨-, hc'⟩
    · cases hnone
    · exact hm.2 t' c hc'
  · rcases List.mem_cons.1 hm with rfl | hm
    · exact absurd rfl (hset.2 t _ hc)
    · exact hm

/-- A message that is ready is accepted. -/
theorem accept (h : Base w) {t : Nat} (hc : w.calls t = some (.ready m)) (sendq : List Nat)
    (hq : ∀ m' ∈ sendq, m' = m ∨ m' ∈ w.sendq) :
    Base { w with calls := Function.update w.calls t none, sendq := sendq, accepted := m :: w.accepted } := by
  have hg := h.hangUp t
  have hnew : World.Settled { w with calls := Function.update w.calls t none } m := by
    refine ⟨(h.call t _ hc).1, fun t' c hc' heq => ?_⟩
    rcases calls_goOn hc' with ⟨-, hnone⟩ | ⟨ht, hc'⟩
    · cases hnone
    · exact ht (h.calls t' t c _ hc' hc heq)
  have hl := later_accept hc sendq
  exact { hg with
    accepted := fun m' hm => by
      rcases List.mem_cons.1 hm with rfl | hm
      · exact ⟨hnew, (h.call t _ hc).2 _ rfl⟩
      · exact hg.accepted m' hm
    queue := fun m' hm => by
      rcases List.mem_append.1 hm with hm | hm
      · exact List.mem_cons_of_mem _ (h.queue m' (List.mem_append_left _ hm))
      · rcases hq m' hm with rfl | hm
        · exact List.mem_cons_self
        · exact List.mem_cons_of_mem _ (h.queue m' (List.mem_append_right _ hm))
    send := h.send_later hl
    entry := fun orig ho => hl.entryOk (h.entry orig ho)
    mesgs := fun addr ha => hl.own (h.mesgs addr ha) }

theorem sdkSendMgrInsert (h : Base w) {t : Nat} {node link : Bool} (hc : w.calls t = some (.ready m))
    (hs : w.sdkSendMgrInsert t m node link = some w') : Base w' := by
  have hdata : (w.item m).data = m := ((h.call t _ hc).2 m rfl).1
  rw [World.sdkSendMgrInsert] at hs
  simp only at hs
  split at hs
  · cases hs
    exact (h.hangUp t).keeps (Keeps.fault _)
  · cases hs
    rw [hdata]
    refine (h.accept hc (if link then m :: w.sendq else w.sendq) fun m' hm => ?_).keeps (Keeps.tab _ _)
    split at hm
    · exact List.mem_cons.1 hm
    · exact .inr hm
  · obtain ⟨w₁, hcall, rfl⟩ := Option.map_eq_some_iff.1 hs
    exact (h.hangUp t).keeps (((Keeps.tab _ _).trans (Keeps.call hcall)).trans (Keeps.free _ _ _))

end Base

/-! ## What a call leaves of the server thread -/

structure Beside (w w' : World) : Prop where
  later : Later w w'
  fd : w'.fd = w.fd
  wire : w'.wire = w.wire
  send : w'.send = w.send
  unread : w'.unread = w.unread
  pc : w'.pc = w.pc
  mesgList : w'.mesgList = w.mesgList
  recvq : w'.recvq = w.recvq
  received : w'.received = w.received
  handed : w'.handed = w.handed

namespace Beside

theorem trans (h : Beside w w') (h' : Beside w' w'') : Beside w w'' where
  later := ⟨fun m hm => h'.later.settled m (h.later.settled m hm),
    fun m hm => (h'.later.head m (h.later.settled m hm)).trans (h.later.head m hm),
    fun m hm => h'.later.accepted m (h.later.accepted m hm),
    fun m hm hset => h.later.new m (h'.later.new m hm (h.later.settled m hset)) hset⟩
  fd := h'.fd.trans h.fd
  wire := h'.wire.trans h.wire
  send := h'.send.trans h.send
  unread := h'.unread.trans h.unread
  pc := h'.pc.trans h.pc
  mesgList := h'.mesgList.trans h.mesgList
  recvq := h'.recvq.trans h.recvq
  received := h'.received.trans h.received
  handed := h'.handed.trans h.handed

theorem of_keeps (hk : Keeps w w') : Beside w w' := by
  obtain ⟨b, rfl, -⟩ := hk
  exact ⟨⟨fun _ hm => hm, fun _ _ => rfl, fun _ hm => hm, fun _ hm _ => hm⟩, rfl, rfl, rfl, rfl, rfl, rfl, rfl, rfl,
    rfl⟩

theorem hangUp (w : World) (t : Nat) : Beside w { w with calls := Function.update w.calls t none } :=
  ⟨Base.later_goOn w t none (le_refl _) (by simp), rfl, rfl, rfl, rfl, rfl, rfl, rfl, rfl, rfl⟩

theorem sdkAsyncSend {t : Nat} {req : Request} (ht : w.calls t = none) (hs : w.sdkAsyncSend t req = some w') :
    Beside w w' := by
  rw [World.sdkAsyncSend] at hs
  split at hs
  · cases hs
    exact ⟨Base.later_goOn w t (some (.checked w.next req)) (Nat.le_succ _) (by simp [Call.mesg]),
      rfl, rfl, rfl, rfl, rfl, rfl, rfl, rfl, rfl⟩
  · have hl := Base.later_goOn w t none (Nat.le_succ _) (by simp)
    rw [← ht, Function.update_eq_self] at hl
    exact Beside.trans ⟨hl, rfl, rfl, rfl, rfl, rfl, rfl, rfl, rfl, rfl⟩ (of_keeps (Keeps.call hs))

theorem sdkGenSeq {t : Nat} {req : Request} {addr item : Bool} (hc : w.calls t = some (.checked m req))
    (hs : w.sdkGenSeq t m req addr item = some w') : Beside w w' := by
  have hnum : ∀ item : Nat → SendItem, Beside w { w with
      seq := w.seq + 1, head := Function.update w.head m ⟨req.cmd, req.size % 2 ^ 32, w.seq + 1⟩, item := item } :=
        fun item =>
    ⟨Base.later_number hc _ _ item, rfl, rfl, rfl, rfl, rfl, rfl, rfl, rfl, rfl⟩
  rw [World.sdkGenSeq] at hs
  split at hs
  · simp only at hs
    split at hs
    · cases hs
      have hgo := Base.later_goOn { w with
        seq := w.seq + 1
        head := Function.update w.head m ⟨req.cmd, req.size % 2 ^ 32, w.seq + 1⟩
        item := Function.update w.item m
          ⟨w.seq + 1, .inSendq, req.cmd, req.size, w.clock + req.timeout, m, req.cb, req.param⟩ }
          t (some (.ready m)) (le_refl _) fun c hcall => by
            obtain rfl := Option.some.inj hcall
            exact .inr ⟨_, hc, rfl⟩
      exact (hnum _).trans ⟨by simpa only [Function.update_idem] using hgo, rfl, rfl, rfl, rfl, rfl, rfl, rfl, rfl, rfl⟩
    · obtain ⟨w₁, hcall, rfl⟩ := Option.map_eq_some_iff.1 hs
      exact ((hnum w.item).trans (hangUp _ t)).trans (of_keeps ((Keeps.call hcall).trans (Keeps.freeData _ _)))
  · exact (hangUp w t).trans (of_keeps (Keeps.call hs))

theorem sdkSendMgrInsert {t : Nat} {node link : Bool} (hc : w.calls t = some (.ready m))
    (hs : w.sdkSendMgrInsert t m node link = some w') : Beside w w' := by
  rw [World.sdkSendMgrInsert] at hs
  simp only at hs
  split at hs
  · cases hs
    exact (hangUp w t).trans (of_keeps (Keeps.fault _))
  · cases hs
    exact Beside.trans ⟨Base.later_accept hc _, rfl, rfl, rfl, rfl, rfl, rfl, rfl, rfl, rfl⟩ (of_keeps (Keeps.tab _ _))
  · obtain ⟨w₁, hcall, rfl⟩ := Option.map_eq_some_iff.1 hs
    exact (hangUp w t).trans (of_keeps (((Keeps.tab _ _).trans (Keeps.call hcall)).trans (Keeps.free _ _ _)))

end Beside

end BeehiveIm.Sdk
