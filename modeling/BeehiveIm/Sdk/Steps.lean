/-
What there is to know of a message that was accepted, and the stages it goes through: in the
send queue, in the write vector, sent, and gone. A handler that has let go of the lock in its
middle is about to close one.

Most steps leave every message where it is, the others take one out of its stage, change it, and
leave it in its next stage.
-/
import BeehiveIm.Sdk.Base
import BeehiveIm.Sdk.Table
import BeehiveIm.Sdk.Vector

namespace BeehiveIm.Sdk

open BeehiveIm.Core BeehiveIm.Lib

/-- Whether the server thread is about to be done with a message, and whether that is still in the
table. -/
def Ssvr.closing : Ssvr → Nat → Option Bool
  | .timedOut addr, m => if addr = m then some true else none
  | .failed addr _ _, m => if addr = m then some true else none
  | .acked addr, m => if addr = m then some false else none
  | _, _ => none

/-- What a message was told, in order. -/
def toldOf (called : List (Nat × SendStat)) (m : Nat) : List SendStat :=
  called.filterMap fun c => if c.1 = m then some c.2 else none

namespace World

/-- The data that the write vector refers to, be it for a callback. -/
def vector (w : World) : List Nat := (origs w.send ++ w.pc.calls.map callOrig).map WiovOrig.addr

def told (w : World) (m : Nat) : List SendStat := toldOf w.called m

end World

/-- A message, as the table, the queue, the vector and the memory show it. -/
structure View where
  stat : SendStat
  cb : Bool
  listed : Bool
  queued : Nat
  vector : Nat
  told : List SendStat
  freedItem : Nat
  freedData : Nat
  closing : Option Bool

def World.view (w : World) (tab : Seq → Option Nat) (m : Nat) : View where
  stat := (w.item m).stat
  cb := (w.item m).cb.isSome
  listed := tab (w.item m).seq = some m
  queued := (w.pc.hand ++ w.sendq).count m
  vector := w.vector.count m
  told := w.told m
  freedItem := w.freedItem.count m
  freedData := w.freedData.count m
  closing := w.pc.closing m

/-- What a callback hears, if there is one. -/
def heard (cb : Bool) (stats : List SendStat) : List SendStat := if cb then stats else []

/-- What a message may have been told when it is gone. -/
def ends : List (List SendStat) :=
  [[.sendTimeout], [.sendFail], [.sendSucc, .ackTimeout], [.sendSucc, .ackSucc], [.ackSucc]]

inductive Stage : View → Prop
  | queued (cb : Bool) (n : Nat) (hn : n ≤ 1) : Stage ⟨.inSendq, cb, true, n, 0, [], 0, 0, none⟩
  | sending (cb : Bool) : Stage ⟨.sending, cb, true, 0, 1, [], 0, 0, none⟩
  | sent (cb : Bool) : Stage ⟨.sendSucc, cb, true, 0, 0, heard cb [.sendSucc], 0, 0, none⟩
  | dropped (cb : Bool) (stat : SendStat) (hstat : stat = .sendTimeout ∨ stat = .sendFail) :
    Stage ⟨stat, cb, true, 0, 0, heard cb [stat], 0, 0, some true⟩
  | acked (cb : Bool) (stat : SendStat) (stats : List SendStat) (hstats : stats ++ [.ackSucc] ∈ ends) :
    Stage ⟨stat, cb, false, 0, 0, heard cb stats, 0, 0, some false⟩
  | gone (cb : Bool) (stat : SendStat) (stats : List SendStat) (hstats : stats ∈ ends) :
    Stage ⟨stat, cb, false, 0, 0, heard cb stats, 1, 1, none⟩

/-- Nothing has happened to the message yet. -/
def World.Fresh (w : World) (m : Nat) : Prop := w.told m = [] ∧ m ∉ w.freedItem ∧ m ∉ w.freedData

/-- `tab` is what the table holds; `out` is a message that is between two stages. -/
structure Inv (w : World) (tab : Seq → Option Nat) (out : Option Nat := none) : Prop extends Base w where
  table : Holds w.tab tab
  listed : ∀ seq m, tab seq = some m → (w.item m).seq = seq ∧ m ∈ w.accepted
  stage : ∀ m ∈ w.accepted, out ≠ some m → Stage (w.view tab m)
  closing : ∀ m, (w.pc.closing m).isSome → m ∈ w.accepted
  space : w.pc.hand ≠ [] → w.send.iovCnt < w.send.iovMax
  pending : ∀ t c, w.calls t = some c → w.Fresh c.mesg ∧ ∀ m, c = .ready m → (w.item m).stat = .inSendq
  fresh : ∀ m, w.next ≤ m → w.Fresh m
  failed : w.failed = false

variable {w : World} {tab : Seq → Option Nat} {m m' : Nat}

/-! ## Lookups -/

theorem toldOf_append (called : List (Nat × SendStat)) (m : Nat) (stat : SendStat) :
    toldOf (called ++ [(m, stat)]) m = toldOf called m ++ [stat] := by
  simp [toldOf]

theorem toldOf_append_ne (called : List (Nat × SendStat)) (stat : SendStat) (h : m' ≠ m) :
    toldOf (called ++ [(m', stat)]) m = toldOf called m := by
  simp [toldOf, h]

variable {out : Option Nat}

/-! ## What a change does to the message it is about -/

section View

variable {stat : SendStat}

theorem view_setStat : (w.setStat m stat).view tab m = { w.view tab m with stat := stat } := by
  simp only [World.view, World.setStat, Function.update_self]
  rfl

theorem view_setStat_ne (hne : m' ≠ m) : (w.setStat m stat).view tab m' = w.view tab m' := by
  simp only [World.view, World.setStat, Function.update_of_ne hne]
  rfl

theorem view_tell : (w.tell m stat).view tab m =
    { w.view tab m with told := (w.view tab m).told ++ heard (w.view tab m).cb [stat] } := by
  by_cases hcb : (w.item m).cb.isSome
  · simp [World.view, World.tell, World.vector, World.told, hcb, toldOf_append, heard]
  · simp [World.view, World.tell, World.vector, World.told, hcb, heard]

theorem view_freeItem : (w.freeItem m).view tab m =
    { w.view tab m with freedItem := (w.view tab m).freedItem + 1 } := by
  simp only [World.view, World.freeItem, List.count_cons_self]
  rfl

theorem view_freeData : (w.freeData m).view tab m =
    { w.view tab m with freedData := (w.view tab m).freedData + 1 } := by
  simp only [World.view, World.freeData, List.count_cons_self]
  rfl

end View

namespace Inv

/-- Any message may be taken out of its stage. -/
theorem takeOut (h : Inv w tab) (m : Nat) : Inv w tab (some m) :=
  { h with stage := fun m hm _ => h.stage m hm (by simp) }

theorem putIn (h : Inv w tab (some m)) (hm : m ∈ w.accepted → Stage (w.view tab m)) : Inv w tab where
  __ := h
  stage m' hm' _ := by
    by_cases hne : m = m'
    · subst hne
      exact hm hm'
    · exact h.stage m' hm' (by simpa using hne)

/-! ## Changes that no other message takes part in -/

theorem ne_of_call (h : Inv w tab out) (hm : m ∈ w.accepted) {t : Nat} {c : Call} (hc : w.calls t = some c) :
    c.mesg ≠ m :=
  (h.accepted m hm).1.2 t c hc

theorem setStat (h : Inv w tab (some m)) (hm : m ∈ w.accepted) (stat : SendStat) :
    Inv (w.setStat m stat) tab (some m) where
  toBase := h.toBase.keeps (Keeps.setStat w m stat)
  table := h.table
  listed seq m' hm' := by
    by_cases hne : m' = m
    · subst hne
      simpa [World.setStat] using h.listed seq m' hm'
    · simpa [World.setStat, hne] using h.listed seq m' hm'
  stage m' hm' hne := by
    have hne' : m' ≠ m := fun heq => hne (by rw [heq])
    rw [view_setStat_ne hne']
    exact h.stage m' hm' hne
  closing := h.closing
  space := h.space
  pending t c hc := by
    obtain ⟨hfresh, hready⟩ := h.pending t c hc
    refine ⟨hfresh, fun m' hm' => ?_⟩
    have hne : m' ≠ m := by
      rintro rfl
      exact h.ne_of_call hm hc (by rw [hm']; rfl)
    have hstat := hready m' hm'
    simpa [World.setStat, hne] using hstat
  fresh := h.fresh
  failed := h.failed

/-- A settled message is told something; it is no message in its stage. -/
theorem told_call {called : List (Nat × SendStat)} (h : Inv w tab out) (hset : w.Settled m)
    (hout : m ∈ w.accepted → out = some m)
    (hcalled : ∀ m', m' ≠ m → toldOf called m' = w.told m') : Inv { w with called := called } tab out where
  toBase := { h.toBase with }
  table := h.table
  listed := h.listed
  stage m' hm' hne := by
    have hne' : m' ≠ m := fun heq => hne (by rw [heq]; exact hout (heq ▸ hm'))
    have hview : World.view { w with called := called } tab m' = w.view tab m' := by
      simp only [World.view, World.told, hcalled m' hne']
      rfl
    rw [hview]
    exact h.stage m' hm' hne
  closing := h.closing
  space := h.space
  pending t c hc := by
    obtain ⟨⟨htold, hfreed⟩, hready⟩ := h.pending t c hc
    exact ⟨⟨(hcalled _ (hset.2 t c hc)).trans htold, hfreed⟩, hready⟩
  fresh m' hm' := by
    have hm' : w.next ≤ m' := hm'
    have hne : m' ≠ m := by
      have := hset.1
      omega
    exact ⟨(hcalled _ hne).trans (h.fresh m' hm').1, (h.fresh m' hm').2⟩
  failed := h.failed

theorem tell (h : Inv w tab (some m)) (hm : m ∈ w.accepted) (stat : SendStat) : Inv (w.tell m stat) tab (some m) := by
  rw [World.tell]
  split
  · exact h.told_call (h.accepted m hm).1 (fun _ => rfl) fun m' hne => toldOf_append_ne _ _ hne.symm
  · exact h

theorem callBack {w' : World} {cb : Option Nat} {stat : SendStat} (h : Inv w tab out) (hset : w.Settled m)
    (hout : m ∈ w.accepted → out = some m) (hs : w.call cb m stat = some w') : Inv w' tab out := by
  obtain ⟨_, -, rfl⟩ := Option.map_eq_some_iff.1 hs
  exact h.told_call hset hout fun m' hne => toldOf_append_ne _ _ hne.symm

/-- Memory of settled messages is freed, none of it of a message in its stage. -/
theorem freed (h : Inv w tab out) (item data : List Nat) (hitem : ∀ m' ∈ w.accepted, out ≠ some m' → item.count m' = 0)
    (hdata : ∀ m' ∈ w.accepted, out ≠ some m' → data.count m' = 0) (hset : ∀ m' ∈ item ++ data, w.Settled m') :
    Inv { w with freedItem := item ++ w.freedItem, freedData := data ++ w.freedData } tab out where
  toBase := { h.toBase with }
  table := h.table
  listed := h.listed
  stage m' hm' hne := by
    have hview : World.view { w with freedItem := item ++ w.freedItem, freedData := data ++ w.freedData } tab m' =
        w.view tab m' := by
      simp only [World.view, List.count_append, hitem m' hm' hne, hdata m' hm' hne, Nat.zero_add]
      rfl
    rw [hview]
    exact h.stage m' hm' hne
  closing := h.closing
  space := h.space
  pending t c hc := by
    obtain ⟨⟨htold, hi, hd⟩, hready⟩ := h.pending t c hc
    refine ⟨⟨htold, ?_, ?_⟩, hready⟩
    · rw [List.mem_append, not_or]
      exact ⟨fun hin => (hset _ (List.mem_append_left _ hin)).2 t c hc rfl, hi⟩
    · rw [List.mem_append, not_or]
      exact ⟨fun hin => (hset _ (List.mem_append_right _ hin)).2 t c hc rfl, hd⟩
  fresh m' hm' := by
    have hm' : w.next ≤ m' := hm'
    obtain ⟨htold, hi, hd⟩ := h.fresh m' hm'
    refine ⟨htold, ?_, ?_⟩
    · rw [List.mem_append, not_or]
      exact ⟨fun hin => by have := (hset _ (List.mem_append_left _ hin)).1; omega, hi⟩
    · rw [List.mem_append, not_or]
      exact ⟨fun hin => by have := (hset _ (List.mem_append_right _ hin)).1; omega, hd⟩
  failed := h.failed

theorem count_of_out {m' : Nat} (hne : some m ≠ some m') : List.count m' [m] = 0 := by
  have hne' : m ≠ m' := fun heq => hne (by rw [heq])
  simp [hne']

theorem freeItem (h : Inv w tab (some m)) (hm : m ∈ w.accepted) : Inv (w.freeItem m) tab (some m) :=
  h.freed [m] [] (fun _ _ hne => count_of_out hne) (by simp) (by simpa using (h.accepted m hm).1)

theorem freeData (h : Inv w tab (some m)) (hm : m ∈ w.accepted) : Inv (w.freeData m) tab (some m) :=
  h.freed [] [m] (by simp) (fun _ _ hne => count_of_out hne) (by simpa using (h.accepted m hm).1)

/-- Memory that no message in the books has is freed. -/
theorem freeOwn (h : Inv w tab out) (item data : List Nat) (hown : ∀ addr ∈ item ++ data, w.Own addr) :
    Inv { w with freedItem := item ++ w.freedItem, freedData := data ++ w.freedData } tab out := by
  refine h.freed item data (fun m' hm' _ => ?_) (fun m' hm' _ => ?_) fun m' hm' => (hown m' hm').1
  · rw [List.count_eq_zero]
    exact fun hin => (hown m' (List.mem_append_left _ hin)).2 hm'
  · rw [List.count_eq_zero]
    exact fun hin => (hown m' (List.mem_append_right _ hin)).2 hm'

/-! ## The table, the queue, the vector and the server thread -/

theorem query (h : Inv w tab out) (seq : Seq) : w.query seq = some ((tab seq).map (⟨seq, ·⟩)) := h.table.query seq

/-- The item that a number finds. -/
theorem of_query (h : Inv w tab) {seq : Seq} {node : Node} (hq : w.query seq = some (some node)) :
    tab seq = some node.item ∧ node.item ∈ w.accepted ∧ (w.item node.item).seq = seq := by
  rw [h.query] at hq
  obtain ⟨m, hm, rfl⟩ := Option.map_eq_some_iff.1 (Option.some.inj hq)
  obtain ⟨hseq, hacc⟩ := h.listed seq m hm
  exact ⟨hm, hacc, hseq⟩

/-- An item is taken out of the table. -/
theorem untable (h : Inv w tab (some m)) {T : RbTree Node} (hT : Holds T (Function.update tab (w.item m).seq none))
    (hm : tab (w.item m).seq = some m) :
    Inv { w with tab := T } (Function.update tab (w.item m).seq none) (some m) where
  toBase := { h.toBase with }
  table := hT
  listed seq m' hm' := by
    by_cases hseq : seq = (w.item m).seq
    · rw [hseq, Function.update_self] at hm'
      cases hm'
    · rw [Function.update_of_ne hseq] at hm'
      exact h.listed seq m' hm'
  stage m' hm' hne := by
    have hne' : m ≠ m' := fun heq => hne (by rw [heq])
    have hview : World.view { w with tab := T } (Function.update tab (w.item m).seq none) m' = w.view tab m' := by
      have hlisted : (Function.update tab (w.item m).seq none (w.item m').seq = some m') =
          (tab (w.item m').seq = some m') := by
        by_cases hseq : (w.item m').seq = (w.item m).seq
        · rw [hseq, Function.update_self, hm]
          simpa using hne'
        · rw [Function.update_of_ne hseq]
      simp only [World.view, hlisted]
      rfl
    rw [hview]
    exact h.stage m' hm' hne
  closing := h.closing
  space := h.space
  pending := h.pending
  fresh := h.fresh
  failed := h.failed

/-- The queue, the vector and the server thread go on; all the messages but one are where they
were. -/
theorem turn {sendq mesgList : List Nat} {send : Wiov} {wire : List (Nat × Nat)} {fd : Bool} {pc : Ssvr}
    (h : Inv w tab out)
    (hbase : Base { w with fd := fd, wire := wire, sendq := sendq, mesgList := mesgList, send := send, pc := pc })
    (hqueued : ∀ m' ∈ w.accepted, out ≠ some m' → (pc.hand ++ sendq).count m' = (w.pc.hand ++ w.sendq).count m')
    (hclosed : ∀ m' ∈ w.accepted, out ≠ some m' → pc.closing m' = w.pc.closing m')
    (hvector : ∀ m' ∈ w.accepted, out ≠ some m' →
      ((origs send ++ pc.calls.map callOrig).map WiovOrig.addr).count m' = w.vector.count m')
    (hclosing : ∀ m', (pc.closing m').isSome → m' ∈ w.accepted) (hspace : pc.hand ≠ [] → send.iovCnt < send.iovMax) :
    Inv { w with fd := fd, wire := wire, sendq := sendq, mesgList := mesgList, send := send, pc := pc } tab out where
  toBase := hbase
  table := h.table
  listed := h.listed
  stage m' hm' hne := by
    have hview : World.view { w with fd := fd, wire := wire, sendq := sendq, mesgList := mesgList, send := send, pc := pc } tab m' =
        w.view tab m' := by
      simp only [World.view, hqueued m' hm' hne, hclosed m' hm' hne, World.vector, hvector m' hm' hne]
      rfl
    rw [hview]
    exact h.stage m' hm' hne
  closing := hclosing
  space := hspace
  pending := h.pending
  fresh := h.fresh
  failed := h.failed

end Inv

end BeehiveIm.Sdk
