/-
A connection starts clean when nothing is left of the one before it. The handlers of a
failed read forget what they have read and keep the write vector, those of a failed write
and of a lost heartbeat clean the vector and keep what was read; so it does as long as the
part that a handler keeps is empty.
-/
import BeehiveIm.Lib.Run
import BeehiveIm.Sdk.Vector

namespace BeehiveIm.Sdk

open BeehiveIm.Core BeehiveIm.Lib

namespace World

/-- What is written on a connection: whole frames up to where it stands, the first of them an
ONLINE; and nothing has been read when it starts. -/
structure StartsClean (w : World) : Prop where
  wire : ∃ frames : List Nat, w.wire <+: frames.flatMap (mesgBytes w.head) ∧
    ∀ m ∈ frames.head?, (w.head m).type = CMD_ONLINE
  unread : w.pc = .connected → w.unread = 0

/-- A handler that ends the connection leaves nothing of it, and there is memory for
the ONLINE of the next. -/
def CleanGuard (ctx : Cntx) (w : World) : Event → Prop
  | .writev n => w.fd = true → n = none → w.send.iovCnt ≠ 0 → w.unread = 0
  | .recv mesg _ _ _ => (w.sdkAckSuccHdl ctx mesg).isNone → mesg.type = CMD_ONLINE_ACK → mesg.ack.all (·.code ≠ 0) →
    w.send.iovCnt = 0
  | .disconnect => w.fd = true → w.send.iovCnt = 0
  | .networkSwitch => w.fd = true → w.unread = 0
  | .keepalive _ _ => 3 < w.kpaliveTimes → w.unread = 0
  | .reconn info conn addr link _ => info → conn → addr ∧ link
  | _ => True

instance (ctx : Cntx) (w : World) (e : Event) : Decidable (w.CleanGuard ctx e) := by
  cases e <;> unfold CleanGuard <;> infer_instance

/-- Messages of which the first is an ONLINE. -/
def Frames (w : World) (frames : List Nat) : Prop :=
  (∀ m ∈ frames, w.Settled m) ∧ ∀ m ∈ frames.head?, (w.head m).type = CMD_ONLINE

/-- The first message to go into the vector is an ONLINE. -/
def Waits (w : World) : Prop := ∃ addr ∈ w.mesgList.head?, (w.head addr).type = CMD_ONLINE

end World

/-- The server thread is in the second loop of `sdk_ssvr_wiov_add`. -/
def Ssvr.fills : Ssvr → Bool
  | .fill => true
  | .popped _ => true
  | .timedOut _ => true
  | _ => false

/-- The server thread is about to write. -/
def Ssvr.sends : Ssvr → Bool
  | .write => true
  | pc => pc.fills

structure Clean (w : World) : Prop where
  wire : ∃ frames, w.Frames frames ∧ w.wire <+: frames.flatMap (mesgBytes w.head)
  line : w.fd = true → ∃ frames, w.Frames frames ∧ w.wire ++ w.send.pending = frames.flatMap (mesgBytes w.head) ∧
    (frames = [] → w.pc.fills = false ∧ w.Waits)
  off : w.fd = false → w.pc.sends = false → w.send.pending = []
  unread : w.fd = false ∨ w.pc = .connected → w.unread = 0

variable {w w' : World} {m : Nat} {frames : List Nat}

theorem World.Frames.later (h : w.Frames frames) (hl : Later w w') :
    w'.Frames frames ∧ frames.flatMap (mesgBytes w'.head) = frames.flatMap (mesgBytes w.head) := by
  have hhead : ∀ m ∈ frames, w'.head m = w.head m := fun m hm => hl.head m (h.1 m hm)
  refine ⟨⟨fun m hm => hl.settled m (h.1 m hm), fun m hm => ?_⟩, List.flatMap_congr fun m hm => ?_⟩
  · rw [hhead m (List.mem_of_mem_head? hm)]
    exact h.2 m hm
  · rw [mesgBytes, mesgBytes, hhead m hm]

theorem World.Frames.append (h : w.Frames frames) {more : List Nat} (hmore : ∀ m ∈ more, w.Settled m)
    (hfirst : frames = [] → ∀ m ∈ more.head?, (w.head m).type = CMD_ONLINE) : w.Frames (frames ++ more) := by
  refine ⟨fun m hm => (List.mem_append.1 hm).elim (h.1 m) (hmore m), ?_⟩
  cases frames with
  | nil => exact hfirst rfl
  | cons m frames => exact h.2

theorem World.Frames.nil (w : World) : w.Frames [] := ⟨by simp, by simp⟩

/-- What is written first on a connection is the start of a message. -/
theorem World.StartsClean.first (h : w.StartsClean) : ∀ b ∈ w.wire.head?, b.2 = 0 := by
  intro b hb
  obtain ⟨frames, ⟨rest, hwire⟩, -⟩ := h.wire
  have hhead : b ∈ (frames.flatMap (mesgBytes w.head)).head? := by
    rw [← hwire]
    cases hw : w.wire with
    | nil => simp [hw] at hb
    | cons a l => simpa [hw] using hb
  cases frames with
  | nil => cases hhead
  | cons m frames =>
    have hlen : mesgHeaderSize + (w.head m).length = 51 + (w.head m).length + 1 := by
      rw [mesgHeaderSize]
      omega
    rw [List.flatMap_cons, mesgBytes, wholeBytes, hlen, List.range_succ_eq_map] at hhead
    obtain rfl := Option.some.inj hhead
    rfl

namespace Clean

theorem startsClean (h : Clean w) : w.StartsClean where
  wire := by
    obtain ⟨frames, hframes, hprefix⟩ := h.wire
    exact ⟨frames, hprefix, hframes.2⟩
  unread hpc := h.unread (.inr hpc)

/-- The vector and the connection stay as they are. -/
theorem later (h : Clean w) (hl : Later w w') (hfd : w'.fd = w.fd) (hwire : w'.wire = w.wire) (hsend : w'.send = w.send)
    (hunread : w'.unread = w.unread) (hpc : w'.pc = w.pc)
    (hlist : ∀ addr ∈ w.mesgList.head?, addr ∈ w'.mesgList.head? ∧ w'.head addr = w.head addr) : Clean w' where
  wire := by
    obtain ⟨frames, hframes, hprefix⟩ := h.wire
    obtain ⟨hframes', hsame⟩ := hframes.later hl
    exact ⟨frames, hframes', by rw [hwire, hsame]; exact hprefix⟩
  line hon := by
    obtain ⟨frames, hframes, hline, hwait⟩ := h.line (hfd ▸ hon)
    obtain ⟨hframes', hsame⟩ := hframes.later hl
    refine ⟨frames, hframes', by rw [hwire, hsend, hsame]; exact hline, fun hnil => ?_⟩
    obtain ⟨hfills, addr, ha, htype⟩ := hwait hnil
    obtain ⟨ha', hhead⟩ := hlist addr ha
    exact ⟨by rw [hpc]; exact hfills, addr, ha', by rw [hhead]; exact htype⟩
  off := by
    rw [hfd, hpc, hsend]
    exact h.off
  unread := by
    rw [hfd, hpc, hunread]
    exact h.unread

theorem keeps (h : Clean w) (hk : Keeps w w') : Clean w' := by
  obtain ⟨b, rfl, -⟩ := hk
  exact { h with }

theorem beside (h : Clean w) (hb : Base w) (hbes : Beside w w') : Clean w' :=
  h.later hbes.later hbes.fd hbes.wire hbes.send hbes.unread hbes.pc fun addr ha =>
    ⟨by rw [hbes.mesgList]; exact ha, hbes.later.head addr (hb.mesgs addr (List.mem_of_mem_head? ha)).1⟩

/-- The server thread goes on, the vector as it is. -/
theorem resume (h : Clean w) {pc : Ssvr} (hfills : pc.fills = true → w.pc.fills = true)
    (hsends : pc.sends = false → w.pc.sends = false ∨ w.send.pending = []) (hconn : pc ≠ .connected) :
    Clean { w with pc := pc } :=
  { h with
    line := fun hon => by
      obtain ⟨frames, hframes, hline, hwait⟩ := h.line hon
      refine ⟨frames, hframes, hline, fun hnil => ⟨?_, (hwait hnil).2⟩⟩
      by_contra hne
      have htrue := hfills (by simpa using hne)
      rw [(hwait hnil).1] at htrue
      cases htrue
    off := fun hoff hs => (hsends hs).elim (h.off hoff) id
    unread := fun hor => h.unread (hor.imp_right fun hc => absurd hc hconn) }

theorem pushMesg (h : Clean w) (hb : Base w) (type length : Nat) (addr link : Bool) :
    Clean (w.pushMesg type length addr link) := by
  rw [World.pushMesg]
  split
  · have hpush : ∀ mesgList : List Nat, (∀ addr ∈ w.mesgList.head?, addr ∈ mesgList.head?) → Clean { w with
        seq := w.seq + 1
        head := Function.update w.head w.next ⟨type, length % 2 ^ 32, w.seq + 1⟩
        next := w.next + 1
        mesgList := mesgList } := by
      intro mesgList hlist
      have hl := Base.later_head w (w.seq + 1) ⟨type, length % 2 ^ 32, w.seq + 1⟩ mesgList
      refine h.later hl rfl rfl rfl rfl rfl fun addr ha => ⟨hlist addr ha, ?_⟩
      exact hl.head addr (hb.mesgs addr (List.mem_of_mem_head? ha)).1
    simp only
    split
    · refine hpush (w.mesgList ++ [w.next]) fun addr ha => ?_
      cases hlist : w.mesgList with
      | nil => simp [hlist] at ha
      | cons a l => simpa [hlist] using ha
    · exact (hpush w.mesgList fun _ ha => ha).keeps (Keeps.freeData _ _)
  · exact h

/-- The vector gets whole messages behind its own. -/
theorem add (h : Clean w) (more : List Nat) {send : Wiov} (mesgList : List Nat) {pc : Ssvr}
    (hpend : send.pending = w.send.pending ++ more.flatMap (mesgBytes w.head)) (hmore : ∀ m ∈ more, w.Settled m)
    (hfirst : w.fd = true → w.wire ++ w.send.pending = [] → more ≠ [] ∧ ∀ m ∈ more.head?, (w.head m).type = CMD_ONLINE)
    (hsends : pc.sends = true) : Clean { w with send := send, mesgList := mesgList, pc := pc } where
  wire := h.wire
  line hon := by
    obtain ⟨frames, hframes, hline, -⟩ := h.line hon
    have hempty : frames = [] → w.wire ++ w.send.pending = [] := by
      rintro rfl
      exact hline
    refine ⟨frames ++ more, hframes.append hmore fun hnil => (hfirst hon (hempty hnil)).2, ?_, fun hnil => ?_⟩
    · rw [List.flatMap_append, ← hline, hpend, List.append_assoc]
    · obtain ⟨hnil, hmnil⟩ := List.append_eq_nil_iff.1 hnil
      exact absurd hmnil (hfirst hon (hempty hnil)).1
  off _ hs := by
    simp only [hsends] at hs
    cases hs
  unread hor := by
    refine h.unread (hor.imp_right fun hc => ?_)
    simp only at hc
    subst hc
    cases hsends

theorem frames_eq_nil (h : frames.flatMap (mesgBytes w.head) = []) : frames = [] := by
  cases frames with
  | nil => rfl
  | cons m frames =>
    rw [List.flatMap_cons, List.append_eq_nil_iff] at h
    simp [mesgBytes, wholeBytes, mesgHeaderSize] at h

/-- While nothing is written on a connection and nothing is to be, the ONLINE is first. -/
theorem waits (h : Clean w) (hon : w.fd = true) (hnil : w.wire ++ w.send.pending = []) :
    w.pc.fills = false ∧ w.Waits := by
  obtain ⟨frames, -, hline, hwait⟩ := h.line hon
  exact hwait (frames_eq_nil (hline.symm.trans hnil))

theorem sdkSsvrSendData (h : Clean w) (hb : Base w) : Clean w.sdkSsvrSendData := by
  rw [World.sdkSsvrSendData]
  split
  · exact h.resume (fun hf => by cases hf) (fun hs => by cases hs) (by simp)
  · rename_i hfull
    obtain ⟨es, hes, -⟩ := hb.send
    obtain ⟨moved, hlist, -, -, hpend, hhead⟩ := addMesgs_spec w.head w.mesgList hes
    refine h.add _ _ hpend (fun m hm => (hb.mesgs m ?_).1) (fun hon hnil => ?_) rfl
    · rw [hlist]
      exact List.mem_append_left _ hm
    · obtain ⟨-, addr, ha, htype⟩ := h.waits hon hnil
      rw [← hhead (by simpa using hfull)] at ha
      refine ⟨fun hmoved => by simp [hmoved] at ha, fun m hm => ?_⟩
      rw [Option.mem_unique hm ha]
      exact htype

theorem sdkQueueLpop (h : Clean w) (hpc : w.pc = .fill) : Clean w.sdkQueueLpop := by
  rw [World.sdkQueueLpop]
  split
  · exact h.resume (fun hf => by cases hf) (fun hs => by cases hs) (by simp)
  · split
    · exact h.resume (fun hf => by cases hf) (fun hs => by cases hs) (by simp)
    · rename_i addr sendq _
      have hpop : Clean { w with pc := .popped addr } :=
        h.resume (fun _ => by rw [hpc]; rfl) (fun hs => by cases hs) (by simp)
      exact { hpop with }

theorem sdkSendDataIsTimeoutAndHdl (h : Clean w) (hb : Base w) {addr : Nat} (hpc : w.pc = .popped addr) :
    Clean (w.sdkSendDataIsTimeoutAndHdl addr) := by
  have hfills : w.pc.fills = true := by rw [hpc]; rfl
  have hset : w.Settled addr := (hb.accepted addr (hb.queue addr (by simp [hpc, Ssvr.hand]))).1
  rw [World.sdkSendDataIsTimeoutAndHdl]
  split
  · exact h.keeps (Keeps.fault w)
  · exact h.resume (fun _ => hfills) (fun hs => by cases hs) (by simp)
  · rename_i node _
    split
    · have hk := (Keeps.setStat w node.item .sendTimeout).trans (Keeps.tell _ node.item .sendTimeout)
      have htold := h.keeps hk
      obtain ⟨b, heq, -⟩ := hk
      refine htold.resume (fun _ => ?_) (fun hs => by cases hs) (by simp)
      rw [heq]
      exact hfills
    · have hs := h.keeps (Keeps.setStat w node.item .sending)
      have hbs := hb.keeps (Keeps.setStat w node.item .sending)
      simp only
      split
      · exact hs.keeps (Keeps.fault _)
      · rename_i send hadd
        obtain ⟨es, hes, -⟩ := hbs.send
        refine hs.add [addr] w.mesgList ?_ ?_ (fun hon hnil => ?_) rfl
        · rw [hes.pending_add hadd]
          simp [mesgBytes, World.setStat]
        · intro m hm
          obtain rfl := List.mem_singleton.1 hm
          exact hset
        · have hnot := (hs.waits hon hnil).1
          simp only [World.setStat, hfills] at hnot
          cases hnot

/-- A `writev` that has written `n` bytes. -/
theorem write (h : Clean w) (hb : Base w) (hon : w.fd = true) (n : Nat) :
    Clean { w with
      send := (w.send.wiovItemAdjust n).1
      wire := w.wire ++ w.send.pending.take n
      pc := .notify (w.send.wiovItemAdjust n).2 false } := by
  obtain ⟨-, -, -, hpend, -⟩ := hb.written n
  obtain ⟨frames, hframes, hline, hwait⟩ := h.line hon
  have hsame : w.wire ++ w.send.pending.take n ++ w.send.pending.drop n = frames.flatMap (mesgBytes w.head) := by
    rw [List.append_assoc, List.take_append_drop, hline]
  constructor
  · exact ⟨frames, hframes, ⟨_, hsame⟩⟩
  · refine fun _ => ⟨frames, hframes, ?_, fun hnil => ⟨rfl, (hwait hnil).2⟩⟩
    simp only [hpend]
    exact hsame
  · intro hoff
    simp only [hon] at hoff
    cases hoff
  · rintro (hoff | hc)
    · simp only [hon] at hoff
      cases hoff
    · cases hc

/-- The connection ends and the vector is cleaned; nothing has been read. -/
theorem cleaned (h : Clean w) (hunread : w.unread = 0) (off : Bool) : Clean ({ w with fd := false }.wiovClean off) where
  wire := h.wire
  line hon := by cases hon
  off _ _ := rfl
  unread _ := hunread

/-- The connection ends and what was read is forgotten; nothing is in the vector. -/
theorem close (h : Clean w) (hpend : w.send.pending = []) : Clean w.close where
  wire := h.wire
  line hon := by cases hon
  off _ _ := hpend
  unread _ := rfl

theorem pending_of_cnt {send : Wiov} (h : send.iovCnt = 0) : send.pending = [] := by
  simp [Wiov.pending, h]

theorem sdkSsvrWritev (h : Clean w) (hb : Base w) {ctx : Cntx} {n : Option Nat} (hg : w.CleanGuard ctx (.writev n)) :
    Clean (w.sdkSsvrWritev n) := by
  rw [World.sdkSsvrWritev]
  split
  · rename_i hcnt
    exact h.resume (fun hf => by cases hf) (fun _ => .inr (pending_of_cnt hcnt)) (by simp)
  · rename_i hcnt
    cases hon : w.fd with
    | false =>
      simp only [Bool.false_eq_true, if_false]
      exact h.cleaned (h.unread (.inl hon)) true
    | true =>
      cases n with
      | none =>
        simp only [if_true]
        exact h.cleaned (hg hon rfl hcnt) true
      | some n =>
        simp only [if_true]
        rw [← hon]
        exact h.write hb hon _

theorem notify (h : Clean w) {c : Called} {calls : List Called} {off : Bool} (hpc : w.pc = .notify (c :: calls) off) :
    Clean (w.notify calls off c) := by
  have hsends : w.pc.sends = false := by rw [hpc]; rfl
  have hstay : Clean { w with pc := .notify calls off } :=
    h.resume (fun hf => by cases hf) (fun _ => .inl hsends) (by simp)
  cases c with
  | succ orig =>
    rw [World.notify]
    split
    · exact hstay.keeps (Keeps.freeData _ _)
    · exact hstay.keeps (Keeps.sdkSendSuccHdl _ _)
  | fail orig =>
    rw [World.notify]
    split
    · exact hstay.keeps (Keeps.freeData _ _)
    · have hfailed : Clean { w with pc := .failed orig.addr calls off } :=
        h.resume (fun hf => by cases hf) (fun _ => .inl hsends) (by simp)
      obtain ⟨b, hb, -⟩ := Keeps.sdkSendFailHdl w orig.addr
      rw [hb]
      exact { hfailed with }

theorem go (h : Clean w) (hb : Base w) (hs : w.go = some w') : Clean w' := by
  rw [World.go] at hs
  split at hs
  · cases hs
  · rename_i hpc
    cases hs
    exact h.sdkQueueLpop hpc
  · rename_i hpc
    cases hs
    exact h.sdkSendDataIsTimeoutAndHdl hb hpc
  · rename_i addr hpc
    cases hs
    have hfill : Clean { w with pc := .fill } := h.resume (fun _ => by rw [hpc]; rfl) (fun hs => by cases hs) (by simp)
    obtain ⟨b, hb, -⟩ := Keeps.sdkSendMgrDelete w (w.head addr).seq
    rw [hb]
    exact { hfill with }
  · cases hs
  · rename_i hpc
    cases hs
    have hidle : Clean { w with pc := .idle } :=
      h.resume (fun hf => by cases hf) (fun _ => .inl (by rw [hpc]; rfl)) (by simp)
    exact { hidle with }
  · rename_i hpc
    cases hs
    exact h.notify hpc
  · rename_i addr calls off hpc
    cases hs
    have hnext : Clean { w with pc := .notify calls off } :=
      h.resume (fun hf => by cases hf) (fun _ => .inl (by rw [hpc]; rfl)) (by simp)
    obtain ⟨b, hb, -⟩ := Keeps.sdkSendMgrDelete w (w.head addr).seq
    rw [hb]
    exact { hnext with }
  · rename_i m hpc
    obtain ⟨w₁, hcall, rfl⟩ := Option.map_eq_some_iff.1 hs
    have hidle : Clean { w with pc := .idle } :=
      h.resume (fun hf => by cases hf) (fun _ => .inl (by rw [hpc]; rfl)) (by simp)
    obtain ⟨b, hb, -⟩ := (Keeps.call hcall).trans (Keeps.free w₁ (w₁.item m).data m)
    rw [hb]
    exact { hidle with }
  · rename_i hpc
    cases hs
    have hidle : Clean { w with pc := .idle } :=
      h.resume (fun hf => by cases hf) (fun _ => .inl (by rw [hpc]; rfl)) (by simp)
    exact { hidle with }

/-! ## What comes in -/

theorem sdkMesgSendPingReq (h : Clean w) (hb : Base w) {addr link : Bool}
    (hunread : w.fd = false ∨ 3 < w.kpaliveTimes → w.unread = 0) : Clean (w.sdkMesgSendPingReq addr link) := by
  rw [World.sdkMesgSendPingReq]
  split
  · rename_i hc
    exact h.cleaned (hunread hc) false
  · have hpush := h.pushMesg hb CMD_PING 0 addr link
    simp only
    split
    · exact { hpush with }
    · exact hpush

theorem sdkMesgOnlineAckHandler (h : Clean w) (hb : Base w) {ack : Option OnlineAck} (addr link : Bool) (length : Nat)
    (hclose : ack.all (·.code ≠ 0) → w.send.pending = []) : Clean (w.sdkMesgOnlineAckHandler ack addr link length) := by
  cases ack with
  | none => exact h.close (hclose (by simp))
  | some ack =>
    rw [World.sdkMesgOnlineAckHandler]
    split
    · have hon : Clean { w with seq := ack.seq, online := true } := { h with }
      exact hon.pushMesg { hb with } _ _ _ _
    · rename_i hcode
      have hseq : Clean { w with seq := ack.seq } := { h with }
      exact hseq.close (hclose (by simpa using hcode))

theorem sdkSysMesgProc (h : Clean w) (hb : Base w) {mesg : Mesg} (addr link : Bool) (length : Nat) (hoff : w.fd = true)
    (hclose : mesg.type = CMD_ONLINE_ACK → mesg.ack.all (·.code ≠ 0) → w.send.pending = []) :
    Clean (w.sdkSysMesgProc mesg addr link length) := by
  rw [World.sdkSysMesgProc]
  split
  · exact { h with }
  · split
    · have hping : Clean { w with kpaliveTimes := 0 } := { h with }
      exact hping.sdkMesgSendPingReq { hb with } (by simp [hoff])
    · split
      · rename_i htype
        exact h.sdkMesgOnlineAckHandler hb addr link length (hclose htype)
      · rw [World.sdkExpMesgProc]
        simp only
        split
        · exact { h with }
        · exact { h with }

theorem sdkAckSuccHdl (h : Clean w) {ctx : Cntx} {mesg : Mesg} (hidle : w.pc = .idle)
    (hs : w.sdkAckSuccHdl ctx mesg = some w') : Clean w' := by
  have hacked : ∀ m, Clean { w with pc := .acked m } := fun m =>
    h.resume (fun hf => by cases hf) (fun _ => .inl (by rw [hidle]; rfl)) (by simp)
  rw [World.sdkAckSuccHdl] at hs
  split at hs
  · cases hs
  · split at hs
    · rename_i node _
      split at hs
      · split at hs
        · cases hs
          exact h.keeps (Keeps.fault w)
        · cases hs
          exact { hacked node.item with }
      · cases hs
        exact hacked _
    · cases hs
    · cases hs
      exact h.keeps (Keeps.fault w)

theorem sdkSsvrDataProc (h : Clean w) (hb : Base w) {ctx : Cntx} {mesg : Mesg} {addr link : Bool} {length : Nat}
    (hidle : w.pc = .idle) (hon : w.fd = true) (hg : w.CleanGuard ctx (.recv mesg addr link length)) :
    Clean (w.sdkSsvrDataProc ctx mesg addr link length) := by
  have hread : Clean { w with unread := w.unread - mesg.mesgLen } := { h with
    unread := by
      rintro (hoff | hc)
      · simp only [hon] at hoff
        cases hoff
      · simp only [hidle] at hc
        cases hc }
  have hnone := sdkAckSuccHdl_isNone w ctx mesg (w.unread - mesg.mesgLen)
  rw [World.sdkSsvrDataProc]
  split
  · rename_i hs
    exact hread.sdkAckSuccHdl hidle hs
  · rename_i hs
    refine hread.sdkSysMesgProc { hb with } addr link length hon fun htype hack => ?_
    exact pending_of_cnt (hg (by rw [← hnone, hs]; rfl) htype hack)

theorem sdkSsvrReconn (h : Clean w) {ctx : Cntx} {info conn addr link : Bool} {length : Nat} (hidle : w.pc = .idle)
    (hoff : w.fd = false) (hg : w.CleanGuard ctx (.reconn info conn addr link length)) :
    Clean (w.sdkSsvrReconn info conn addr link length) := by
  have hpend : w.send.pending = [] := h.off hoff (by rw [hidle]; rfl)
  have hunread : w.unread = 0 := h.unread (.inl hoff)
  rw [World.sdkSsvrReconn]
  simp only
  split
  · rename_i hinfo
    split
    · rename_i hconn
      obtain ⟨rfl, rfl⟩ := hg hinfo hconn
      simp only [World.pushMesg, if_true, and_self, List.nil_append]
      constructor
      · exact ⟨[], World.Frames.nil _, List.prefix_rfl⟩
      · exact fun _ => ⟨[], World.Frames.nil _, by simp [hpend], fun _ => ⟨rfl, w.next, rfl, by simp⟩⟩
      · exact fun _ _ => hpend
      · exact fun _ => hunread
    · exact ⟨h.wire, fun hon => by simp [hoff] at hon, h.off, h.unread⟩
  · exact { h with }

theorem init (sendqLen : Nat) (clock : Int) : Clean (World.init sendqLen clock) where
  wire := ⟨[], World.Frames.nil _, List.prefix_rfl⟩
  line h := by cases h
  off _ _ := by simp [World.init, Wiov.pending, Wiov.wiovInit]
  unread _ := rfl

theorem step {ctx : Cntx} {e : Event} (h : Clean w) (hb : Base w) (hg : w.CleanGuard ctx e)
    (hs : w.step ctx e = some w') : Clean w' := by
  cases e with
  | tick secs =>
    cases hs
    exact { h with }
  | send t req =>
    simp only [World.step] at hs
    split at hs
    · exact h.beside hb (Beside.sdkAsyncSend ‹_› hs)
    · cases hs
  | number t addr item =>
    simp only [World.step] at hs
    split at hs
    · exact h.beside hb (Beside.sdkGenSeq ‹_› hs)
    · cases hs
  | insert t node link =>
    simp only [World.step] at hs
    split at hs
    · exact h.beside hb (Beside.sdkSendMgrInsert ‹_› hs)
    · cases hs
  | sendData =>
    obtain ⟨-, rfl⟩ := Base.of_onIdle hs
    exact h.sdkSsvrSendData hb
  | writev n =>
    simp only [World.step] at hs
    split at hs
    · cases hs
      exact h.sdkSsvrWritev hb hg
    · cases hs
  | go => exact h.go hb hs
  | read n =>
    simp only [World.step] at hs
    split at hs
    · rename_i hon
      obtain ⟨hidle, rfl⟩ := Base.of_onIdle hs
      exact { h with
        unread := by
          rintro (hoff | hc)
          · simp only [hon] at hoff
            cases hoff
          · simp only [hidle] at hc
            cases hc }
    · cases hs
  | recv mesg addr link length =>
    simp only [World.step] at hs
    split at hs
    · rename_i hon
      obtain ⟨hidle, rfl⟩ := Base.of_onIdle hs
      exact h.sdkSsvrDataProc hb hidle hon.1 hg
    · cases hs
  | disconnect =>
    obtain ⟨hidle, rfl⟩ := Base.of_onIdle hs
    refine h.close ?_
    cases hon : w.fd with
    | false => exact h.off hon (by rw [hidle]; rfl)
    | true => exact pending_of_cnt (hg hon)
  | networkSwitch =>
    obtain ⟨-, rfl⟩ := Base.of_onIdle hs
    refine h.cleaned ?_ true
    cases hon : w.fd with
    | false => exact h.unread (.inl hon)
    | true => exact hg hon
  | trav mem =>
    obtain ⟨-, rfl⟩ := Base.of_onIdle hs
    exact h.keeps (Keeps.sdkSendMgrTrav w mem)
  | reconn info conn addr link length =>
    simp only [World.step] at hs
    split at hs
    · cases hs
    · rename_i hoff
      obtain ⟨hidle, rfl⟩ := Base.of_onIdle hs
      exact h.sdkSsvrReconn hidle (by simpa using hoff) hg
  | keepalive addr link =>
    simp only [World.step] at hs
    split at hs
    · rename_i hon
      obtain ⟨-, rfl⟩ := Base.of_onIdle hs
      exact h.sdkMesgSendPingReq hb fun hor => hor.elim (fun hoff => by simp [hon] at hoff) hg
    · cases hs
  | work =>
    cases hs
    rw [World.sdkWorkerCmdProcReqHdl]
    split
    · exact h
    · simp only
      split
      · exact { h with }
      · exact { h with }

end Clean

/-- Over every run in which the handlers that end a connection leave nothing of it, each
connection starts clean. -/
theorem connections_start_clean (ctx : Cntx) (sendqLen : Nat) (clock : Int) (es : List Event) (w : World)
    (hg : Guarded (fun w e => (w.step ctx e).getD w) (World.CleanGuard ctx) (World.init sendqLen clock) es)
    (hrun : es.foldlM (World.step ctx) (World.init sendqLen clock) = some w) : w.StartsClean := by
  have hinv := run_kept (World.step ctx) (World.CleanGuard ctx) (fun w => Base w ∧ Clean w)
    (fun w e w' h hok hs => ⟨h.1.step hs, h.2.step h.1 hok hs⟩) es _ _
    ⟨Base.init sendqLen clock, Clean.init sendqLen clock⟩ hg hrun
  exact hinv.2.startsClean

/-- A message type that acknowledges nothing and has no callback. -/
def noCntx : Cntx := ⟨fun _ => none, fun _ => false⟩

/-- The ONLINE goes out in two parts, the server hangs up, and the next connection gets the next
ONLINE. -/
theorem connections_start_clean_two : ∃ w,
    ([.reconn true true true true 8, .go, .sendData, .go, .writev (some 20), .go, .sendData, .go,
      .writev (some 40), .go, .go, .read 3, .disconnect, .reconn true true true true 8, .go, .sendData, .go,
      .writev (some 5)] : List Event).foldlM (World.step noCntx) (World.init 1 0) = some w ∧ w.StartsClean := by
  obtain ⟨w, hw⟩ := Option.isSome_iff_exists.1 (by decide : (([.reconn true true true true 8, .go, .sendData, .go,
    .writev (some 20), .go, .sendData, .go, .writev (some 40), .go, .go, .read 3, .disconnect,
    .reconn true true true true 8, .go, .sendData, .go, .writev (some 5)] :
    List Event).foldlM (World.step noCntx) (World.init 1 0)).isSome)
  exact ⟨w, hw, connections_start_clean noCntx 1 0 _ w (by decide) hw⟩

/-- The server hangs up when 20 bytes of the ONLINE have gone out: the next connection
starts with the rest of it. -/
theorem next_starts_in_the_middle : ∃ w,
    ([.reconn true true true true 8, .go, .sendData, .go, .writev (some 20), .go, .disconnect,
      .reconn true true true true 8, .go, .sendData, .go, .writev (some 5)] : List Event).foldlM (World.step noCntx)
      (World.init 1 0) = some w ∧ ¬w.StartsClean := by
  obtain ⟨w, hw, hwire⟩ := Option.map_eq_some_iff.1 (by decide : (([.reconn true true true true 8, .go, .sendData, .go,
    .writev (some 20), .go, .disconnect, .reconn true true true true 8, .go, .sendData, .go, .writev (some 5)] :
      List Event).foldlM (World.step noCntx) (World.init 1 0)).map (fun w => w.wire.head?) = some (some (0, 20)))
  exact ⟨w, hw, fun h => absurd (h.first (0, 20) hwire) (by decide)⟩

end BeehiveIm.Sdk
