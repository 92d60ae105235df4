/-
Kicking connections (`acc_comm.c`, `acc_rsvr.c`): `acc_async_kick` puts a block with
the connection's id on the kick queue of the receiver, which takes batches off it and
notes the connections it has.

The blocks of a kick queue that are free, queued or being processed, and those that the receiver is
through with, are all there are. The receiver gives none back.
-/
import BeehiveIm.Core.Ring
import BeehiveIm.Core.Ring.Fifo
import BeehiveIm.Lib.Run

namespace BeehiveIm.Access

open BeehiveIm.Lib BeehiveIm.Core

/-- `AGT_RSVR_DIST_POP_NUM` -/
def agtRsvrDistPopNum : BitVec 32 := 1024

/-- `sizeof(acc_kick_req_t)` -/
def accKickReqSize : Nat := 8

structure AccCntx where
  rsvrNum : Nat
  kickq : Nat → Queue
  /-- `kick->cid` of the blocks. -/
  cid : Ptr → BitVec 64
  /-- What a receiver has left of its `addr`. -/
  addr : Nat → List Ptr
  kickList : Nat → List (BitVec 64)
  /-- The connections of `conn_cid_tab`. -/
  conns : List (BitVec 64)

namespace AccCntx

/-- `ACC_GET_RID_BY_CID` -/
def ridOf (ctx : AccCntx) (cid : BitVec 64) : Nat := cid.toNat % ctx.rsvrNum

/-- `acc_async_kick`; answers whether it succeeds. -/
def accAsyncKick (ctx : AccCntx) (cid : BitVec 64) : Option (AccCntx × Bool) :=
  let rid := ctx.ridOf cid
  match (ctx.kickq rid).queueMalloc accKickReqSize with
  | none => none
  | some (kickq, kick) =>
    if kick = 0 then some ({ ctx with kickq := Function.update ctx.kickq rid kickq }, false)
    else
      (kickq.queuePush kick).map fun (kickq, _) =>
        ({ ctx with cid := Function.update ctx.cid kick cid, kickq := Function.update ctx.kickq rid kickq }, true)

/-- A turn of the outer loop of `acc_rsvr_kick_conn`:
`MIN(queue_used(kickq), AGT_RSVR_DIST_POP_NUM)` blocks are popped. -/
def popKicks (ctx : AccCntx) (rid : Nat) : Option AccCntx :=
  let kickq := ctx.kickq rid
  let num := if kickq.queueUsed < agtRsvrDistPopNum then kickq.queueUsed else agtRsvrDistPopNum
  if num = 0 then some ctx
  else
    (kickq.queueMpop num).map fun (kickq, addr) =>
      { ctx with kickq := Function.update ctx.kickq rid kickq, addr := Function.update ctx.addr rid addr }

/-- `acc_rsvr_kick_add` -/
def accRsvrKickAdd (ctx : AccCntx) (rid : Nat) (cid : BitVec 64) : AccCntx :=
  if cid ∈ ctx.kickList rid then ctx
  else { ctx with kickList := Function.update ctx.kickList rid (cid :: ctx.kickList rid) }

/-- A turn of the inner loop of `acc_rsvr_kick_conn`. -/
def kickOne (ctx : AccCntx) (rid : Nat) (kick : Ptr) : AccCntx :=
  if ctx.cid kick ∈ ctx.conns then ctx.accRsvrKickAdd rid (ctx.cid kick) else ctx

inductive Act where
  /-- A call of `acc_async_kick`. -/
  | kick (cid : BitVec 64)
  /-- A receiver that has no batch fetches one. -/
  | pop (rid : Nat)
  /-- A receiver goes on with its batch. -/
  | next (rid : Nat)
  deriving DecidableEq

def step (ctx : AccCntx) : Act → Option AccCntx
  | .kick cid => (ctx.accAsyncKick cid).map Prod.fst
  | .pop rid => if ctx.addr rid = [] then ctx.popKicks rid else none
  | .next rid =>
    match ctx.addr rid with
    | [] => none
    | kick :: rest => some { ctx.kickOne rid kick with addr := Function.update ctx.addr rid rest }

/-- A step there can be: what a receiver does next. -/
def Enabled (ctx : AccCntx) : Act → Prop
  | .kick _ => True
  | .pop rid => rid < ctx.rsvrNum ∧ ctx.addr rid = []
  | .next rid => rid < ctx.rsvrNum ∧ ctx.addr rid ≠ []

instance (ctx : AccCntx) : DecidablePred ctx.Enabled
  | .kick _ => inferInstanceAs (Decidable True)
  | .pop rid => inferInstanceAs (Decidable (rid < ctx.rsvrNum ∧ ctx.addr rid = []))
  | .next rid => inferInstanceAs (Decidable (rid < ctx.rsvrNum ∧ ctx.addr rid ≠ []))

/-- The blocks that are free, queued or being processed are all there are. -/
def Conserved (ctx : AccCntx) (max rid : Nat) : Prop :=
  (ctx.kickq rid).slot.ring.num.toNat + (ctx.kickq rid).queueUsed.toNat + (ctx.addr rid).length = max

/-- The kicks that are queued or being processed. -/
def outstanding (ctx : AccCntx) (rid : Nat) : Nat := (ctx.kickq rid).queueUsed.toNat + (ctx.addr rid).length

/-- `acc_async_kick` succeeds while there are fewer than `max` kicks outstanding. -/
def Accepts (ctx : AccCntx) (max rid : Nat) : Prop :=
  ∀ cid, ctx.ridOf cid = rid → ctx.outstanding rid < max → (ctx.accAsyncKick cid).map Prod.snd = some true

/-- The kick queues as `acc_creat_queue` makes them, of `max` blocks each. -/
structure Started (ctx : AccCntx) (base : Nat → Ptr) (max : BitVec 32) : Prop where
  pos : 0 < ctx.rsvrNum
  memory : ∀ rid < ctx.rsvrNum, base rid ≠ 0
  kickq : ∀ rid < ctx.rsvrNum, Queue.queueCreat (base rid) max accKickReqSize = some (ctx.kickq rid)
  addr : ∀ rid < ctx.rsvrNum, ctx.addr rid = []

/-! ## The blocks -/

open Queue

variable {ctx ctx' : AccCntx} {n max rid : Nat} {lost : Nat → Nat}

/-- Of the `max` blocks of each of `n` queues `lost` are neither free nor queued nor being
processed. -/
structure Blocks (ctx : AccCntx) (n max : Nat) (lost : Nat → Nat) : Prop where
  pos : 0 < n
  num : ctx.rsvrNum = n
  kickq : ∀ rid < n, ∃ free queued, (ctx.kickq rid).Keeps max accKickReqSize free queued ∧
    0 ∉ free ∧ free.length + queued.length + (ctx.addr rid).length + lost rid = max

theorem Started.blocks {base : Nat → Ptr} {max : BitVec 32} (h : Started ctx base max) (hmax : max.toNat ≤ 2 ^ 30)
    (h0 : max ≠ 0) : Blocks ctx ctx.rsvrNum max.toNat fun _ => 0 where
  pos := h.pos
  num := rfl
  kickq rid hrid := by
    obtain ⟨q, hq, hk⟩ := queueCreat_keeps (base rid) hmax h0 (show accKickReqSize ≠ 0 by decide)
    obtain rfl : q = ctx.kickq rid := Option.some.inj (hq.symm.trans (h.kickq rid hrid))
    refine ⟨_, _, hk, ?_, by simp [Slot.blocks, h.addr rid hrid]⟩
    simp only [Slot.blocks, List.mem_map, not_exists, not_and]
    exact fun i _ h0 => h.memory rid hrid (Nat.eq_zero_of_add_eq_zero_right h0)

theorem Blocks.ridOf_lt (h : Blocks ctx n max lost) (cid : BitVec 64) : ctx.ridOf cid < n := by
  rw [ridOf, h.num]
  exact Nat.mod_lt _ h.pos

/-! ## Steps -/

/-- A kick takes a free block, if there is one. -/
theorem Blocks.kick (h : Blocks ctx n max lost) (cid : BitVec 64) :
    ∃ ctx' ok, ctx.accAsyncKick cid = some (ctx', ok) ∧ Blocks ctx' n max lost ∧
      (ok = true ↔ ctx.outstanding (ctx.ridOf cid) + lost (ctx.ridOf cid) < max) := by
  obtain ⟨free, queued, hk, h0, hsum⟩ := h.kickq _ (h.ridOf_lt cid)
  obtain ⟨q, hmalloc, hk₁⟩ := hk.malloc
  have hused := hk.used
  unfold accAsyncKick outstanding
  simp only
  rw [hused]
  cases free with
  | nil =>
    change _ = some (q, 0) at hmalloc
    rw [hmalloc]
    simp only [if_true]
    refine ⟨_, false, rfl, ⟨h.pos, h.num, fun rid hrid => ?_⟩, by simp at hsum ⊢; omega⟩
    by_cases heq : rid = ctx.ridOf cid
    · subst heq
      exact ⟨[], queued, by simpa using hk₁, by simp, hsum⟩
    · simpa only [Function.update_of_ne heq] using h.kickq rid hrid
  | cons p free =>
    have hp : p ≠ 0 := by rintro rfl; simp at h0
    simp only [List.length_cons] at hsum
    obtain ⟨q', hpush, hk'⟩ := hk₁.push p (by omega)
    change _ = some (q, p) at hmalloc
    rw [hmalloc]
    simp only [if_neg hp]
    rw [hpush]
    refine ⟨_, true, rfl, ⟨h.pos, h.num, fun rid hrid => ?_⟩, iff_of_true rfl (by omega)⟩
    by_cases heq : rid = ctx.ridOf cid
    · subst heq
      refine ⟨free, queued ++ [p], by simpa using hk', fun hmem => h0 (List.mem_cons_of_mem _ hmem), ?_⟩
      show free.length + (queued ++ [p]).length + (ctx.addr (ctx.ridOf cid)).length + _ = max
      rw [List.length_append, List.length_singleton]
      omega
    · simpa only [Function.update_of_ne heq] using h.kickq rid hrid

/-- A batch moves from the queue to the receiver. -/
theorem Blocks.pop (h : Blocks ctx n max lost) (hrid : rid < n) (hidle : ctx.addr rid = []) :
    ∃ ctx', ctx.popKicks rid = some ctx' ∧ Blocks ctx' n max lost := by
  obtain ⟨free, queued, hk, h0, hsum⟩ := h.kickq rid hrid
  have hused := hk.used
  unfold popKicks
  simp only
  generalize hnum : (if (ctx.kickq rid).queueUsed < agtRsvrDistPopNum then _ else _) = num
  have hle : num.toNat ≤ queued.length := by
    subst hnum
    split
    · exact hused.le
    · rename_i hge
      rw [← hused]
      exact BitVec.le_def.1 (BitVec.not_lt.1 hge)
  split
  · exact ⟨ctx, rfl, h⟩
  · obtain ⟨q', hpop, hk'⟩ := hk.mpop hle
    rw [BitVec.ofNat_toNat, BitVec.setWidth_eq] at hpop
    rw [hpop]
    refine ⟨_, rfl, ⟨h.pos, h.num, fun r hr => ?_⟩⟩
    by_cases heq : r = rid
    · subst heq
      refine ⟨free, queued.drop num.toNat, by simpa using hk', h0, ?_⟩
      rw [hidle] at hsum
      simp only [List.length_nil] at hsum
      simp only [Function.update_self, List.length_drop, List.length_take]
      omega
    · simpa only [Function.update_of_ne heq] using h.kickq r hr

theorem kickOne_frame (ctx : AccCntx) (rid : Nat) (kick : Ptr) :
    (ctx.kickOne rid kick).rsvrNum = ctx.rsvrNum ∧ (ctx.kickOne rid kick).kickq = ctx.kickq := by
  unfold kickOne accRsvrKickAdd
  split
  · split <;> exact ⟨rfl, rfl⟩
  · exact ⟨rfl, rfl⟩

/-- The block the receiver is through with is lost. -/
theorem Blocks.next (h : Blocks ctx n max lost) (hrid : rid < n) (hbusy : ctx.addr rid ≠ []) :
    ∃ ctx', ctx.step (.next rid) = some ctx' ∧ Blocks ctx' n max (Function.update lost rid (lost rid + 1)) := by
  obtain ⟨kick, rest, haddr⟩ := List.exists_cons_of_ne_nil hbusy
  obtain ⟨hnum, hkickq⟩ := kickOne_frame ctx rid kick
  unfold step
  simp only [haddr]
  refine ⟨_, rfl, ⟨h.pos, hnum.trans h.num, fun r hr => ?_⟩⟩
  obtain ⟨free, queued, hk, h0, hsum⟩ := h.kickq r hr
  refine ⟨free, queued, by rw [hkickq]; exact hk, h0, ?_⟩
  by_cases heq : r = rid
  · subst heq
    rw [haddr] at hsum
    simp only [List.length_cons] at hsum
    simp only [Function.update_self]
    omega
  · simpa only [Function.update_of_ne heq] using hsum

/-! ## Runs -/

theorem Blocks.step (h : Blocks ctx n max lost) {o : Act} (ho : ctx.Enabled o) :
    ∃ ctx', ctx.step o = some ctx' ∧ Blocks ctx' n max fun rid => lost rid + [o].count (.next rid) := by
  cases o with
  | kick cid =>
    obtain ⟨ctx', ok, hkick, h', -⟩ := h.kick cid
    exact ⟨ctx', by rw [AccCntx.step, hkick]; rfl, by simpa using h'⟩
  | pop rid =>
    obtain ⟨ctx', hpop, h'⟩ := h.pop (h.num ▸ ho.1) ho.2
    exact ⟨ctx', by rw [AccCntx.step, if_pos ho.2, hpop], by simpa using h'⟩
  | next rid =>
    obtain ⟨ctx', hnext, h'⟩ := h.next (h.num ▸ ho.1) ho.2
    refine ⟨ctx', hnext, ?_⟩
    convert h' using 2 with r
    by_cases heq : r = rid
    · subst heq; simp
    · rw [Function.update_of_ne heq]
      simp [Ne.symm heq]

/-- After a run, as many blocks are lost as the receivers went through. -/
theorem Blocks.run : ∀ (ops : List Act) {ctx : AccCntx} {lost : Nat → Nat}, Blocks ctx n max lost →
    Guarded (fun ctx o => (ctx.step o).getD ctx) Enabled ctx ops →
      ∃ ctx', ops.foldlM AccCntx.step ctx = some ctx' ∧
        Blocks ctx' n max fun rid => lost rid + ops.count (.next rid)
  | [], ctx, lost, h, _ => ⟨ctx, rfl, h⟩
  | o :: ops, ctx, lost, h, hops => by
    obtain ⟨ctx₁, h₁, hb₁⟩ := h.step hops.1
    obtain ⟨ctx', h', hb'⟩ := Blocks.run ops hb₁ (by simpa [h₁] using hops.2)
    refine ⟨ctx', by rw [List.foldlM_cons, h₁]; exact h', ?_⟩
    convert hb' using 2 with rid
    rw [List.count_singleton, List.count_cons]
    omega

/-- A queue whose blocks are all accounted for has lost none, and the other way round. -/
theorem Blocks.conserved_iff (h : Blocks ctx n max lost) (hrid : rid < n) :
    ctx.Conserved max rid ∧ ctx.Accepts max rid ↔ lost rid = 0 := by
  obtain ⟨free, queued, hk, h0, hsum⟩ := h.kickq rid hrid
  have hfree : (ctx.kickq rid).slot.ring.num.toNat = free.length := by
    obtain ⟨c, hc, hnum⟩ := hk.free
    have := hc.le
    have := hc.sized.le
    rw [hnum, BitVec.toNat_ofNat, Nat.mod_eq_of_lt (by omega)]
  have hcons : ctx.Conserved max rid ↔ lost rid = 0 := by
    rw [Conserved, hfree, hk.used]
    omega
  rw [hcons]
  refine ⟨And.left, fun hlost => ⟨hlost, fun cid hcid hlt => ?_⟩⟩
  obtain ⟨ctx', ok, hkick, -, hok⟩ := h.kick cid
  rw [hcid, hlost] at hok
  obtain rfl : ok = true := hok.2 (by simpa using hlt)
  rw [hkick]
  rfl

/-- In every run of kicks and receivers, the blocks of the kick queues are conserved, and kicks
succeed while there are fewer than the configured number outstanding, exactly as long as no receiver
has gone through a block. -/
theorem kick_blocks_conserved_iff {base : Nat → Ptr} {max : BitVec 32} (h : Started ctx base max)
    (hmax : max.toNat ≤ 2 ^ 30) (h0 : max ≠ 0) (ops : List Act)
    (hops : Guarded (fun ctx o => (ctx.step o).getD ctx) Enabled ctx ops) :
    ∃ ctx', ops.foldlM AccCntx.step ctx = some ctx' ∧
      ∀ rid < ctx.rsvrNum, (ctx'.Conserved max.toNat rid ∧ ctx'.Accepts max.toNat rid ↔ .next rid ∉ ops) := by
  obtain ⟨ctx', hrun, hb⟩ := (h.blocks hmax h0).run ops hops
  refine ⟨ctx', hrun, fun rid hrid => ?_⟩
  rw [hb.conserved_iff hrid, Nat.zero_add, List.count_eq_zero]

/-- Two receivers, whose kick queues have one block each; connection 5 is the second's. -/
def twoReceivers (q : Queue) : AccCntx := ⟨2, fun _ => q, fun _ => 0, fun _ => [], fun _ => [], [5]⟩

theorem oneBlock_isSome : (Queue.queueCreat 4096 1 accKickReqSize).isSome := by decide

theorem kick_blocks_conserved_iff_two :
    ∃ ctx', [Act.kick 5, .kick 4, .pop 1, .next 1].foldlM AccCntx.step
        (twoReceivers ((Queue.queueCreat 4096 1 accKickReqSize).get oneBlock_isSome)) = some ctx' ∧
      ∀ rid < 2, (ctx'.Conserved 1 rid ∧ ctx'.Accepts 1 rid ↔
        .next rid ∉ [Act.kick 5, .kick 4, .pop 1, .next 1]) :=
  have started : Started (twoReceivers ((Queue.queueCreat 4096 1 accKickReqSize).get oneBlock_isSome))
      (fun _ => 4096) 1 := ⟨by decide, fun _ _ => by decide, fun _ _ => (Option.some_get oneBlock_isSome).symm,
      fun _ _ => rfl⟩
  kick_blocks_conserved_iff started (by decide) (by decide) _ (by decide)

/-- With one block, a kick of connection 5 that the receiver went through is the last that
succeeds. -/
theorem kick_second_fails :
    ([Act.kick 5, .pop 1, .next 1].foldlM AccCntx.step
        (twoReceivers ((Queue.queueCreat 4096 1 accKickReqSize).get oneBlock_isSome))).map
      (fun ctx => (ctx.outstanding 1, (ctx.accAsyncKick 5).map Prod.snd)) = some (0, some false) := by
  decide

end AccCntx

end BeehiveIm.Access
