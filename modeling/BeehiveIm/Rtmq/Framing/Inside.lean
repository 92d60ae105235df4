/-
Whether the messages that the server and the proxy hand on lie in what has been received. Both keep
the length of a message, header included, in 32 bits: a message is there as a whole exactly when its
length does not go beyond these.
-/
import BeehiveIm.Rtmq.Framing

namespace BeehiveIm.Rtmq

open BeehiveIm.Lib

namespace Recv

variable {σ : Type} {H : Handlers σ} {mem : Blocks} {s : σ} {S S' : Recv σ} {r : Option Ret}

/-- The length of the message ahead, header included. -/
def mesgLen (S : Recv σ) : Nat := HEADER_LEN + (S.ntohl 3).toNat

/-- The message ahead lies in what has been received. -/
def Inside (S : Recv σ) : Prop := S.mesgLen ≤ S.iptr - S.optr

instance (S : Recv σ) : Decidable S.Inside := inferInstanceAs (Decidable (_ ≤ _))

/-- The states of `rtmq_rsvr_recv_proc`, call after call: before a `read` and, with `true`, where
the loop of `rtmq_rsvr_data_proc` takes a turn. -/
inductive Reached (H : Handlers σ) (mem : Blocks) (s : σ) : Bool → Recv σ → Prop
  | init : Reached H mem s false (.init mem s)
  | read {S : Recv σ} {chunk : List Byte} : Reached H mem s false S → chunk ≠ [] →
      chunk.length ≤ RTMQ_BUFF_SIZE - S.iptr → Reached H mem s true (S.readChunk chunk)
  | turn {S S' : Recv σ} : Reached H mem s true S → S.dataProcTurn H = some (S', none) → Reached H mem s true S'
  | ret {S S' : Recv σ} : Reached H mem s true S → S.dataProcTurn H = some (S', some .ok) → Reached H mem s false S'

/-- A turn from the state hands a message on. -/
def Hands (H : Handlers σ) (S : Recv σ) : Prop := ∃ r ∈ S.dataProcTurn H, r.1.handed ≠ S.handed

instance (H : Handlers σ) (S : Recv σ) : Decidable (Hands H S) :=
  inferInstanceAs (Decidable (∃ r ∈ S.dataProcTurn H, _))

/-! ### One turn -/

theorem sysMesgProc_iptr (H : Handlers σ) (S : Recv σ) : (S.rtmqRsvrSysMesgProc H).1.iptr = S.iptr := by
  simp only [rtmqRsvrSysMesgProc, rtmqRsvrLinkAuthReqHdl, rtmqRsvrSubReqHdl, rtmqRsvrKeepaliveReqHdl, swapWord]
  repeat' split
  all_goals rfl

theorem expMesgProc_iptr (H : Handlers σ) (S : Recv σ) : (S.rtmqRsvrExpMesgProc H).iptr = S.iptr := by
  simp only [rtmqRsvrExpMesgProc]
  repeat' split
  all_goals rfl

theorem handOn_iptr (H : Handlers σ) (S : Recv σ) (n : Nat) : (S.handOn H n).1.iptr = S.iptr := by
  simp only [handOn]
  split_ifs
  · exact sysMesgProc_iptr H S
  · exact sysMesgProc_iptr H S
  · exact expMesgProc_iptr H S

/-- A turn hands on the message that its wrapped length finds, or none. -/
theorem turn_spec (h : S.dataProcTurn H = some (S', r)) :
    S'.iptr ≤ S.iptr ∧
      (S'.handed ≠ S.handed → HEADER_LEN ≤ S.iptr - S.optr ∧ S.mesgLen % 2 ^ 32 ≤ S.iptr - S.optr) := by
  simp only [dataProcTurn] at h
  split_ifs at h with hcheck hlen hsum hend hfit
  · cases h
    exact ⟨le_rfl, fun _ => hlen⟩
  · have hS' := congrArg Prod.fst (Option.some.inj h)
    constructor
    · exact ((congrArg Recv.iptr hS').symm.trans (handOn_iptr H _ _)).le
    · exact fun _ => hlen
  · cases h
    exact ⟨le_rfl, fun h => absurd rfl h⟩
  · cases h
    unfold rtmqRsvrSwitchRecvBuff
    split
    · exact ⟨Nat.sub_le _ _, fun h => absurd rfl h⟩
    · exact ⟨le_rfl, fun h => absurd rfl h⟩
  · cases h
    exact ⟨le_rfl, fun h => absurd rfl h⟩

/-! ### Runs -/

theorem Reached.iptr_le {b : Bool} (h : Reached H mem s b S) : S.iptr ≤ RTMQ_BUFF_SIZE := by
  induction h with
  | init => exact Nat.zero_le _
  | @read S chunk _ _ hchunk ih =>
    show S.iptr + chunk.length ≤ RTMQ_BUFF_SIZE
    omega
  | turn _ hturn ih => exact (turn_spec hturn).1.trans ih
  | ret _ hturn ih => exact (turn_spec hturn).1.trans ih

/-- The buffer is shorter than 32 bits can count. -/
theorem Reached.inside_iff (h : Reached H mem s true S) (hh : Hands H S) : S.Inside ↔ S.mesgLen < 2 ^ 32 := by
  obtain ⟨⟨S', r⟩, hturn, hne⟩ := hh
  have hlen := (turn_spec hturn).2 hne
  have hiptr := h.iptr_le
  unfold Inside
  constructor
  · intro hin
    have hbuff : RTMQ_BUFF_SIZE < 2 ^ 32 := by decide
    omega
  · intro hlt
    rw [Nat.mod_eq_of_lt hlt] at hlen
    exact hlen.2

end Recv

namespace ProxyRecv

variable {σ : Type} {H : ProxyHandlers σ} {size : Nat} {mem : Blocks} {s : σ} {S S' : Recv σ} {r : Option Ret}

/-- A turn of the proxy from the state hands a message on. -/
def Hands (H : ProxyHandlers σ) (size : Nat) (S : Recv σ) : Prop := (dataProcTurn H size S).1.handed ≠ S.handed

instance (H : ProxyHandlers σ) (S : Recv σ) : Decidable (Hands H size S) := inferInstanceAs (Decidable (_ ≠ _))

theorem sysMesgProc_iptr (H : ProxyHandlers σ) (S : Recv σ) : (rtmqProxyTsvrSysMesgProc H S).iptr = S.iptr := by
  unfold rtmqProxyTsvrSysMesgProc
  split
  · rfl
  · rfl

theorem expMesgProc_iptr (H : ProxyHandlers σ) (S : Recv σ) : (rtmqProxyTsvrExpMesgProc H S).iptr = S.iptr := by
  simp only [rtmqProxyTsvrExpMesgProc]
  split
  · rfl
  · rfl

theorem turn_spec (h : dataProcTurn H size S = (S', r)) :
    S'.iptr ≤ S.iptr ∧ (S'.handed ≠ S.handed →
      HEADER_LEN ≤ (S.iptr - S.optr) % 2 ^ 32 ∧ S.mesgLen % 2 ^ 32 ≤ (S.iptr - S.optr) % 2 ^ 32) := by
  simp only [dataProcTurn] at h
  split_ifs at h with hlen hend hfit hsum hflag
  · cases h
    exact ⟨le_rfl, fun h => absurd rfl h⟩
  · cases h
    exact ⟨(Nat.mod_le _ _).trans (Nat.sub_le _ _), fun h => absurd rfl h⟩
  · cases h
    exact ⟨le_rfl, fun h => absurd rfl h⟩
  · cases h
    exact ⟨le_rfl, fun h => absurd rfl h⟩
  · cases h
    rw [not_or, not_lt, not_lt] at hlen
    exact ⟨(sysMesgProc_iptr H _).le, fun _ => hlen⟩
  · cases h
    rw [not_or, not_lt, not_lt] at hlen
    exact ⟨(expMesgProc_iptr H _).le, fun _ => hlen⟩

theorem Reached.iptr_le {b : Bool} (h : Reached H size mem s b S) : S.iptr ≤ size := by
  induction h with
  | init => exact Nat.zero_le _
  | read _ _ hchunk _ _ => exact hchunk
  | turn _ hturn ih => exact (turn_spec hturn).1.trans ih
  | ret _ hturn ih => exact (turn_spec hturn).1.trans ih

/-- A message that 32 bits can count is there as a whole; one that they cannot is not, in a
buffer that they can count. -/
theorem Reached.inside (h : Reached H size mem s true S) (hh : Hands H size S) :
    (S.mesgLen < 2 ^ 32 → S.Inside) ∧ (size < 2 ^ 32 → S.Inside → S.mesgLen < 2 ^ 32) := by
  have hlen := (turn_spec rfl).2 hh
  have hiptr := h.iptr_le
  unfold Recv.Inside
  constructor
  · intro hlt
    rw [Nat.mod_eq_of_lt hlt] at hlen
    exact hlen.2.trans (Nat.mod_le _ _)
  · intro hsize hin
    omega

end ProxyRecv

/-- Wherever a run has got to, a message that is handed on lies in what has been received if its
length, header included, is below 2^32. At the server, and at a proxy with a buffer of less than 4
GB, it does only then. -/
theorem handed_inside_iff {σ τ : Type} (H : Handlers σ) (P : ProxyHandlers τ) (size : Nat) (mem pmem : Blocks) (s : σ)
    (t : τ) (S : Recv σ) (T : Recv τ) :
    (Recv.Reached H mem s true S → Recv.Hands H S → (S.Inside ↔ S.mesgLen < 2 ^ 32)) ∧
      (ProxyRecv.Reached P size pmem t true T → ProxyRecv.Hands P size T →
        (T.mesgLen < 2 ^ 32 → T.Inside) ∧ (size < 2 ^ 32 → T.Inside → T.mesgLen < 2 ^ 32)) := by
  constructor
  · exact fun h hh => h.inside_iff hh
  · exact fun h hh => h.inside hh

/-- A message with a payload of three bytes has arrived. -/
theorem header_inside :
    ∃ S : Recv Unit, (Recv.Hands ⟨fun _ => false, fun _ => 0, fun s _ _ _ => (s, true), fun s => (s, true),
    fun s _ => (s, true), fun s => (s, true), fun _ => true⟩ S ∧ (S.Inside ↔ S.mesgLen < 2 ^ 32)) ∧
      ProxyRecv.Hands ⟨id, fun _ _ => true, fun s _ => s, id⟩ 64 S ∧ (S.mesgLen < 2 ^ 32 → S.Inside) := by
  let H : Handlers Unit := ⟨fun _ => false, fun _ => 0, fun s _ _ _ => (s, true), fun s => (s, true),
    fun s _ => (s, true), fun s => (s, true), fun _ => true⟩
  let P : ProxyHandlers Unit := ⟨id, fun _ _ => true, fun s _ => s, id⟩
  let chunk : List Byte := [0x0201, 1, 1, 3, RTMQ_CHKSUM_VAL].flatMap beBytes ++ [0x61, 0x62, 0x63]
  let S : Recv Unit := (Recv.init (fun _ _ => 0) ()).readChunk chunk
  have hserver : Recv.Hands H S := by decide
  have hproxy : ProxyRecv.Hands P 64 S := by decide
  have h := handed_inside_iff H P 64 (fun _ _ => 0) (fun _ _ => 0) () () S S
  exact ⟨S, ⟨hserver, h.1 (.read .init (by decide) (by decide)) hserver⟩, hproxy,
    (h.2 (.read .init (by decide) (by decide) (by decide)) hproxy).1⟩

/-- A header alone has arrived, of a message whose length comes to four bytes in 32 bits. -/
theorem header_outside :
    (¬∀ (H : Handlers Unit) (mem : Blocks) (S : Recv Unit), Recv.Reached H mem () true S → Recv.Hands H S → S.Inside) ∧
      ¬∀ (P : ProxyHandlers Unit) (size : Nat) (mem : Blocks) (S : Recv Unit),
        ProxyRecv.Reached P size mem () true S → ProxyRecv.Hands P size S → S.Inside := by
  let chunk : List Byte := [0x0201, 1, 1, 0xFFFFFFF0, RTMQ_CHKSUM_VAL].flatMap beBytes
  let S : Recv Unit := (Recv.init (fun _ _ => 0) ()).readChunk chunk
  have hout : ¬S.Inside := by decide
  constructor
  · intro h
    let H : Handlers Unit := ⟨fun _ => false, fun _ => 0, fun s _ _ _ => (s, true), fun s => (s, true),
      fun s _ => (s, true), fun s => (s, true), fun _ => true⟩
    exact hout (h H (fun _ _ => 0) S (.read .init (by decide) (by decide)) (by decide))
  · intro h
    let P : ProxyHandlers Unit := ⟨id, fun _ _ => true, fun s _ => s, id⟩
    exact hout (h P 64 (fun _ _ => 0) S (.read .init (by decide) (by decide) (by decide)) (by decide))

end BeehiveIm.Rtmq
