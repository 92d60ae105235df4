/-
What the server hands on is a function of the stream of frames, however the reads cut it: the bytes
received and not handed on are the beginning of the frames still to come, across the switches of the
buffer. Requests that are shorter than the fields their handlers read are left out: the handlers
convert these fields in place, in the frame that follows.
-/
import BeehiveIm.Rtmq.Framing

namespace BeehiveIm.Rtmq

open BeehiveIm.Lib

/-- A valid frame: the check word and the length of its payload are not free. -/
structure Frame where
  type : BitVec 32
  nid : BitVec 32
  flag : BitVec 32
  payload : List Byte
  fits : HEADER_LEN + payload.length ≤ RTMQ_BUFF_SIZE

namespace Frame

def header (f : Frame) : List (BitVec 32) :=
  [f.type, f.nid, f.flag, BitVec.ofNat 32 f.payload.length, RTMQ_CHKSUM_VAL]

def size (f : Frame) : Nat := HEADER_LEN + f.payload.length

/-- The frame on the wire. -/
def wire (f : Frame) : List Byte := f.header.flatMap beBytes ++ f.payload

/-- The frame as it is handed on, its header in host order. -/
def host (f : Frame) : List Byte := (f.header.flatMap fun w => (beBytes w).reverse) ++ f.payload

/-- The bytes of the payload that the handler of the request reads. -/
def reqLen (f : Frame) : Nat :=
  if f.flag = RTMQ_SYS_MESG then
    if f.type = RTMQ_CMD_AUTH_REQ then 4 + (RTMQ_USR_MAX_LEN + RTMQ_PWD_MAX_LEN)
    else if f.type = RTMQ_CMD_SUB_REQ then 4
    else 0
  else 0

/-- Whether a request carries what its handler reads. -/
def Carries (f : Frame) : Prop := f.reqLen ≤ f.payload.length

instance (f : Frame) : Decidable f.Carries := inferInstanceAs (Decidable (_ ≤ _))

variable {σ : Type} (H : Handlers σ)

/-- What a system message does to the server, and whether its handler succeeds. -/
def sys (f : Frame) (s : σ) : σ × Bool :=
  let arg := beWord (f.payload.take 4)
  if f.type = RTMQ_CMD_AUTH_REQ then
    if arg = 0 then (s, false)
    else H.linkAuth s f.nid arg ((f.payload.drop 4).take (RTMQ_USR_MAX_LEN + RTMQ_PWD_MAX_LEN))
  else if f.type = RTMQ_CMD_SUB_REQ then
    if !H.authSucc s then (s, false) else H.sub s arg
  else if f.type = RTMQ_CMD_KPALIVE_REQ then
    if !H.authSucc s then (s, false) else H.keepalive s
  else (s, false)

/-- What a user message does to the server, and whether it is queued. -/
def exp (f : Frame) (s : σ) : σ × Bool :=
  if !H.authSucc s then (s, false)
  else if f.nid ≠ H.nid s then (s, false)
  else H.queueMalloc s

end Frame

/-- The server over a stream of frames: its state, the frames handed on and those queued, and
whether no handler of a system message has failed. -/
structure Fed (σ : Type) where
  sck : σ
  handed : List Frame
  queued : List Frame
  ok : Bool

namespace Fed

variable {σ : Type} (H : Handlers σ)

def init (s : σ) : Fed σ := ⟨s, [], [], true⟩

/-- The next frame; after a failure there is none. -/
def deliver (A : Fed σ) (f : Frame) : Fed σ :=
  if A.ok then
    if f.flag = RTMQ_SYS_MESG then
      { A with sck := (f.sys H A.sck).1, handed := A.handed ++ [f], ok := (f.sys H A.sck).2 }
    else
      { A with sck := (f.exp H A.sck).1, handed := A.handed ++ [f],
               queued := if (f.exp H A.sck).2 then A.queued ++ [f] else A.queued }
  else A

def feed (A : Fed σ) (fs : List Frame) : Fed σ := fs.foldl (deliver H) A

theorem feed_cons (A : Fed σ) (f : Frame) (fs : List Frame) : feed H A (f :: fs) = feed H (A.deliver H f) fs := rfl

theorem feed_failed {A : Fed σ} (h : A.ok = false) (fs : List Frame) : feed H A fs = A := by
  induction fs with
  | nil => rfl
  | cons f fs ih =>
    rw [feed, List.foldl_cons, deliver, if_neg (by simp [h])]
    exact ih

/-- The frames handed on are the first ones, and all of them without a failure. -/
theorem feed_handed {A : Fed σ} (h : A.ok = true) (fs : List Frame) :
    ∃ hd, (feed H A fs).handed = A.handed ++ hd ∧ hd <+: fs ∧ ((feed H A fs).ok = true → hd = fs) := by
  induction fs generalizing A with
  | nil => exact ⟨[], by simp [feed], List.nil_prefix, fun _ => rfl⟩
  | cons f fs ih =>
    have hf : (A.deliver H f).handed = A.handed ++ [f] := by
      unfold deliver
      rw [if_pos h]
      split <;> rfl
    rw [feed_cons]
    by_cases hok : (A.deliver H f).ok = true
    · obtain ⟨hd, heq, hpre, hall⟩ := ih hok
      refine ⟨f :: hd, by rw [heq, hf]; simp, List.cons_prefix_cons.2 ⟨rfl, hpre⟩, fun h => ?_⟩
      rw [hall h]
    · have hfail : (A.deliver H f).ok = false := by simpa using hok
      rw [feed_failed H hfail]
      exact ⟨[f], hf, List.cons_prefix_cons.2 ⟨rfl, List.nil_prefix⟩, fun h => absurd h hok⟩

end Fed

namespace Recv

variable {σ : Type} {H : Handlers σ} {S S' : Recv σ} {A : Fed σ} {f : Frame} {fs : List Frame} {rest : List Byte}

/-! ## A frame in the buffer -/

/-- The first `n` bytes from the pointer of the data. -/
abbrev data (S : Recv σ) (n : Nat) : List Byte := S.mem.read S.base S.optr n

/-- A step that writes the first `k` bytes of the data at most. -/
structure Local (k : Nat) (S S' : Recv σ) : Prop where
  base : S'.base = S.base
  optr : S'.optr = S.optr
  iptr : S'.iptr = S.iptr
  handed : S'.handed = S.handed
  recvq : S'.recvq = S.recvq
  read : ∀ b o n, b ≠ S.base ∨ o + n ≤ S.optr ∨ S.optr + k ≤ o → S'.mem.read b o n = S.mem.read b o n

theorem Local.refl (k : Nat) (S : Recv σ) : Local k S S := ⟨rfl, rfl, rfl, rfl, rfl, fun _ _ _ _ => rfl⟩

theorem Local.trans {k : Nat} {S₁ S₂ S₃ : Recv σ} (h₁ : Local k S₁ S₂) (h₂ : Local k S₂ S₃) : Local k S₁ S₃ where
  base := h₂.base.trans h₁.base
  optr := h₂.optr.trans h₁.optr
  iptr := h₂.iptr.trans h₁.iptr
  handed := h₂.handed.trans h₁.handed
  recvq := h₂.recvq.trans h₁.recvq
  read b o n h := (h₂.read b o n (by rw [h₁.base, h₁.optr]; exact h)).trans (h₁.read b o n h)

theorem Local.sck {k : Nat} (h : Local k S S') (s : σ) : Local k S { S' with sck := s } :=
  ⟨h.base, h.optr, h.iptr, h.handed, h.recvq, h.read⟩

theorem word_eq {i n : Nat} (h : 4 * i + 4 ≤ n) : S.word i = leWord (((S.data n).drop (4 * i)).take 4) := by
  rw [word, Blocks.drop_take_read h]

theorem ntohl_eq {i n : Nat} (h : 4 * i + 4 ≤ n) : S.ntohl i = beWord (((S.data n).drop (4 * i)).take 4) := by
  rw [ntohl, Blocks.drop_take_read h]

/-- The word `i` of the bytes `l`, turned round. -/
def swapAt (i : Nat) (l : List Byte) : List Byte :=
  l.take (4 * i) ++ (((l.drop (4 * i)).take 4).reverse ++ l.drop (4 * i + 4))

theorem data_swapWord {i n : Nat} (h : 4 * i + 4 ≤ n) : (S.swapWord i).data n = swapAt i (S.data n) := by
  have hlen : (S.mem.read S.base (S.optr + 4 * i) 4).reverse.length = 4 := by simp
  refine (Blocks.read_write_within (by rw [hlen]; exact h)).trans ?_
  rw [hlen, swapAt, Blocks.drop_take_read h]

theorem swapWord_local {i k : Nat} (h : 4 * i + 4 ≤ k) (S : Recv σ) : Local k S (S.swapWord i) := by
  refine ⟨rfl, rfl, rfl, rfl, rfl, fun b o n hb => Blocks.read_write_of_disjoint ?_⟩
  simp only [List.length_reverse, Blocks.length_read]
  omega

theorem rtmqHeadNtoh_local (S : Recv σ) : Local HEADER_LEN S S.rtmqHeadNtoh :=
  have h (i : Nat) (hi : i ≤ 4) (S : Recv σ) : Local HEADER_LEN S (S.swapWord i) :=
    swapWord_local (by unfold HEADER_LEN; omega) S
  ((((h 0 (by decide) _).trans (h 1 (by decide) _)).trans (h 2 (by decide) _)).trans (h 3 (by decide) _)).trans
    (h 4 (by decide) _)

theorem swapAt_append {i : Nat} {a : List Byte} (w : BitVec 32) (c : List Byte) (h : a.length = 4 * i) :
    swapAt i (a ++ (beBytes w ++ c)) = a ++ (beBytes w).reverse ++ c := by
  rw [swapAt, List.take_left' h, List.drop_left' h, List.take_left' (length_beBytes w), ← List.drop_drop,
    List.drop_left' h, List.drop_left' (length_beBytes w), List.append_assoc]

theorem data_rtmqHeadNtoh (h : S.data f.size = f.wire) : S.rtmqHeadNtoh.data f.size = f.host := by
  have hn : HEADER_LEN ≤ f.size := Nat.le_add_right _ _
  have hwire : f.wire = [] ++ (beBytes f.type ++ (beBytes f.nid ++ (beBytes f.flag ++
      (beBytes (BitVec.ofNat 32 f.payload.length) ++ (beBytes RTMQ_CHKSUM_VAL ++ f.payload))))) := by
    simp [Frame.wire, Frame.header]
  unfold HEADER_LEN at hn
  unfold rtmqHeadNtoh
  rw [data_swapWord (by omega), data_swapWord (by omega), data_swapWord (by omega), data_swapWord (by omega),
    data_swapWord (by omega), h, hwire, swapAt_append _ _ (by simp), swapAt_append _ _ (by simp),
    swapAt_append _ _ (by simp), swapAt_append _ _ (by simp), swapAt_append _ _ (by simp)]
  simp [Frame.host, Frame.header]

/-! ## The handlers -/

theorem word_host (h : S.data f.size = f.host) {i : Nat} (hi : 4 * i + 4 ≤ f.size) :
    S.word i = leWord ((f.host.drop (4 * i)).take 4) := by
  rw [word_eq hi, h]

theorem word_host_zero (h : S.data f.size = f.host) : S.word 0 = f.type := by
  rw [word_host h (by unfold Frame.size HEADER_LEN; omega)]
  exact (leWord_reverse _).trans (beWord_beBytes f.type)

theorem word_host_one (h : S.data f.size = f.host) : S.word 1 = f.nid := by
  rw [word_host h (by unfold Frame.size HEADER_LEN; omega)]
  exact (leWord_reverse _).trans (beWord_beBytes f.nid)

theorem word_host_two (h : S.data f.size = f.host) : S.word 2 = f.flag := by
  rw [word_host h (by unfold Frame.size HEADER_LEN; omega)]
  exact (leWord_reverse _).trans (beWord_beBytes f.flag)

theorem word_host_four (h : S.data f.size = f.host) : S.word 4 = RTMQ_CHKSUM_VAL := by
  rw [word_host h (by unfold Frame.size HEADER_LEN; omega)]
  exact (leWord_reverse _).trans (beWord_beBytes RTMQ_CHKSUM_VAL)

/-- The payload with its first word converted, as its handler reads it. -/
theorem drop_swapWord (h : S.data f.size = f.host) (hp : 4 ≤ f.payload.length) :
    ((S.swapWord 5).data f.size).drop HEADER_LEN = (f.payload.take 4).reverse ++ f.payload.drop 4 := by
  rw [data_swapWord (by unfold Frame.size HEADER_LEN; omega), h]
  rfl

/-- The first word of the payload, before and after it is converted. -/
theorem word_payload (h : S.data f.size = f.host) (hp : 4 ≤ f.payload.length) :
    (S.word 5 = 0 ↔ beWord (f.payload.take 4) = 0) ∧ (S.swapWord 5).word 5 = beWord (f.payload.take 4) := by
  have hn : 4 * 5 + 4 ≤ f.size := by unfold Frame.size HEADER_LEN; omega
  have hlen : (f.payload.take 4).length = 4 := by simp [hp]
  constructor
  · rw [word_host h hn]
    exact leWord_eq_zero hlen
  · rw [word_eq hn, ← leWord_reverse]
    exact congrArg leWord ((congrArg (List.take 4) (drop_swapWord h hp)).trans (List.take_left' (by simpa using hp)))

/-- What the handler of a link-auth request reads behind the gid. -/
theorem read_usrPasswd (h : S.data f.size = f.host) {n : Nat} (hp : 4 + n ≤ f.payload.length) :
    (S.swapWord 5).mem.read S.base (S.optr + HEADER_LEN + 4) n = (f.payload.drop 4).take n := by
  have hr : HEADER_LEN + 4 + n ≤ f.size := by unfold Frame.size; omega
  have hlen : (f.payload.take 4).reverse.length = 4 := by simp; omega
  have hd : ((S.swapWord 5).data f.size).drop (HEADER_LEN + 4) = f.payload.drop 4 := by
    rw [← List.drop_drop, drop_swapWord h (by omega), List.drop_left' hlen]
  rw [← hd, Nat.add_assoc]
  exact (Blocks.drop_take_read hr).symm

/-- A handler of a system message touches its frame only, and does what `r` says. -/
def Handles (f : Frame) (S : Recv σ) (p : Recv σ × Ret) (r : σ × Bool) : Prop :=
  Local f.size S p.1 ∧ p.1.sck = r.1 ∧ (p.2 = .ok ↔ r.2 = true)

theorem handles_err (f : Frame) (S : Recv σ) : Handles f S (S, .err) (S.sck, false) :=
  ⟨.refl _ S, rfl, by simp⟩

theorem Local.handles (h : Local f.size S S') (r : σ × Bool) :
    Handles f S ({ S' with sck := r.1 }, if r.2 then .ok else .err) r :=
  ⟨h.sck r.1, rfl, by cases r.2 <;> simp⟩

theorem rtmqRsvrLinkAuthReqHdl_handles (h : S.data f.size = f.host) (ht : f.type = RTMQ_CMD_AUTH_REQ)
    (hp : 4 + (RTMQ_USR_MAX_LEN + RTMQ_PWD_MAX_LEN) ≤ f.payload.length) :
    Handles f S (S.rtmqRsvrLinkAuthReqHdl H) (f.sys H S.sck) := by
  obtain ⟨hz, hw⟩ := word_payload h (by omega)
  unfold rtmqRsvrLinkAuthReqHdl Frame.sys
  rw [if_pos ht]
  by_cases h0 : beWord (f.payload.take 4) = 0
  · rw [if_pos (hz.2 h0), if_pos h0]
    exact handles_err f S
  · rw [if_neg fun hc => h0 (hz.1 hc), if_neg h0, ← read_usrPasswd h hp, ← word_host_one h, ← hw]
    exact Local.handles (swapWord_local (by unfold Frame.size HEADER_LEN; omega) S) _

theorem rtmqRsvrSubReqHdl_handles (h : S.data f.size = f.host) (ht : f.type = RTMQ_CMD_SUB_REQ)
    (hp : 4 ≤ f.payload.length) : Handles f S (S.rtmqRsvrSubReqHdl H) (f.sys H S.sck) := by
  obtain ⟨-, hw⟩ := word_payload h hp
  rw [Frame.sys, if_neg (by rw [ht]; decide), if_pos ht, ← hw, rtmqRsvrSubReqHdl]
  split
  · exact handles_err f S
  · exact Local.handles (swapWord_local (by unfold Frame.size HEADER_LEN; omega) S) _

theorem rtmqRsvrKeepaliveReqHdl_handles (ht : f.type = RTMQ_CMD_KPALIVE_REQ) :
    Handles f S (S.rtmqRsvrKeepaliveReqHdl H) (f.sys H S.sck) := by
  rw [Frame.sys, if_neg (by rw [ht]; decide), if_neg (by rw [ht]; decide), if_pos ht, rtmqRsvrKeepaliveReqHdl]
  split
  · exact handles_err f S
  · exact Local.handles (.refl _ S) _

theorem rtmqRsvrSysMesgProc_handles (h : S.data f.size = f.host) (hs : f.flag = RTMQ_SYS_MESG) (hp : f.Carries) :
    Handles f S (S.rtmqRsvrSysMesgProc H) (f.sys H S.sck) := by
  unfold Frame.Carries Frame.reqLen at hp
  rw [if_pos hs] at hp
  unfold rtmqRsvrSysMesgProc
  rw [word_host_zero h]
  by_cases h₁ : f.type = RTMQ_CMD_AUTH_REQ
  · rw [if_pos h₁] at hp ⊢
    exact rtmqRsvrLinkAuthReqHdl_handles h h₁ hp
  rw [if_neg h₁] at hp ⊢
  by_cases h₂ : f.type = RTMQ_CMD_SUB_REQ
  · rw [if_pos h₂] at hp ⊢
    exact rtmqRsvrSubReqHdl_handles h h₂ hp
  rw [if_neg h₂]
  by_cases h₃ : f.type = RTMQ_CMD_KPALIVE_REQ
  · rw [if_pos h₃]
    exact rtmqRsvrKeepaliveReqHdl_handles h₃
  rw [if_neg h₃, Frame.sys, if_neg h₁, if_neg h₂, if_neg h₃]
  exact handles_err f S

/-! ## One turn -/

/-- An item of the receive queue lies behind the pointer of the data, and is the frame `f`. -/
def Stored (S : Recv σ) (item : Nat × Nat) (f : Frame) : Prop :=
  S.mem.read item.1 item.2 f.size = f.host ∧ (item.1 < S.base ∨ item.1 = S.base ∧ item.2 + f.size ≤ S.optr)

/-- The server is where the frames delivered so far have brought it. -/
structure Sim (S : Recv σ) (A : Fed σ) : Prop where
  sck : S.sck = A.sck
  handed : S.handed = A.handed.map Frame.host
  queued : List.Forall₂ (Stored S) S.recvq A.queued

/-- The bytes received and those still to come are the frames `fs`. -/
structure Pending (S : Recv σ) (fs : List Frame) (rest : List Byte) : Prop where
  optr_le : S.optr ≤ S.iptr
  iptr_le : S.iptr ≤ RTMQ_BUFF_SIZE
  stream : S.data (S.iptr - S.optr) ++ rest = fs.flatMap Frame.wire

theorem Local.stored {k : Nat} (h : Local k S S') {item : Nat × Nat} (hs : Stored S item f) : Stored S' item f := by
  obtain ⟨hread, hpos⟩ := hs
  refine ⟨?_, by rw [h.base, h.optr]; exact hpos⟩
  rw [h.read _ _ _ (by omega), hread]

theorem length_wire (f : Frame) : f.wire.length = f.size := by
  simp [Frame.wire, Frame.header, Frame.size, HEADER_LEN]
  omega

/-- The fields of a header that are read before it is converted. -/
theorem ntohl_header (h : S.data HEADER_LEN = f.wire.take HEADER_LEN) :
    S.ntohl 4 = RTMQ_CHKSUM_VAL ∧ (HEADER_LEN + (S.ntohl 3).toNat) % 2 ^ 32 = f.size := by
  constructor
  · rw [ntohl_eq (n := HEADER_LEN) (by decide), h]
    exact beWord_beBytes RTMQ_CHKSUM_VAL
  · have hl : S.ntohl 3 = BitVec.ofNat 32 f.payload.length := by
      rw [ntohl_eq (n := HEADER_LEN) (by decide), h]
      exact beWord_beBytes _
    have hfits := f.fits
    have hsize : RTMQ_BUFF_SIZE < 2 ^ 32 := by decide
    rw [hl, BitVec.toNat_ofNat, Nat.mod_eq_of_lt (by omega), Nat.mod_eq_of_lt (by omega), Frame.size]

/-- The data are the beginning of the next frame, as far as both go. -/
theorem Pending.data (h : Pending S (f :: fs) rest) {k : Nat} (hk : k ≤ S.iptr - S.optr) (hf : k ≤ f.size) :
    S.data k = f.wire.take k := by
  have h₁ : (S.data (S.iptr - S.optr)).take k = S.data k :=
    (congrArg (List.take k) List.drop_zero).symm.trans (Blocks.drop_take_read (i := 0) (by omega))
  have h₂ := congrArg (List.take k) h.stream
  rw [List.take_append_of_le_length (by simpa using hk), h₁, List.flatMap_cons,
    List.take_append_of_le_length (by rw [length_wire]; exact hf)] at h₂
  exact h₂

theorem rtmqRsvrExpMesgProc_spec (h : S.data f.size = f.host) :
    S.rtmqRsvrExpMesgProc H =
      { S with sck := (f.exp H S.sck).1,
               recvq := if (f.exp H S.sck).2 then S.recvq ++ [(S.base, S.optr)] else S.recvq } := by
  unfold rtmqRsvrExpMesgProc Frame.exp
  rw [word_host_one h]
  split
  · rfl
  split
  · rfl
  · simp only
    split <;> rfl

/-- The pointer of the data moves on. -/
theorem Stored.skip {item : Nat × Nat} (h : Stored S item f) (n : Nat) :
    Stored { S with optr := S.optr + n } item f := ⟨h.1, by have := h.2; simp only; omega⟩

theorem Sim.skip (h : Sim S A) (n : Nat) : Sim { S with optr := S.optr + n } A :=
  ⟨h.sck, h.handed, h.queued.imp fun _ _ hs => hs.skip n⟩

/-- The frame whose header has been converted and that is recorded goes to its handler. -/
theorem handOn_spec (hs : Sim S { A with handed := A.handed ++ [f] }) (hok : A.ok = true)
    (hd : S.data f.size = f.host) (hc : f.Carries) :
    ∃ S', S.handOn H f.size = (S', if (A.deliver H f).ok then none else some .err) ∧ Sim S' (A.deliver H f) ∧
      ((A.deliver H f).ok = true → S'.base = S.base ∧ S'.optr = S.optr + f.size ∧ S'.iptr = S.iptr ∧
        ∀ n, S'.mem.read S.base (S.optr + f.size) n = S.mem.read S.base (S.optr + f.size) n) := by
  unfold handOn Fed.deliver
  rw [word_host_two hd, if_pos hok]
  by_cases hsys : f.flag = RTMQ_SYS_MESG
  · obtain ⟨hl, hsck, hr⟩ := rtmqRsvrSysMesgProc_handles (H := H) hd hsys hc
    rw [if_pos hsys, if_pos hsys, ← hs.sck]
    have hs' : Sim (S.rtmqRsvrSysMesgProc H).1
        { A with sck := (f.sys H S.sck).1, handed := A.handed ++ [f], ok := (f.sys H S.sck).2 } :=
      ⟨hsck, hl.handed.trans hs.handed, hl.recvq ▸ hs.queued.imp fun _ _ h => hl.stored h⟩
    by_cases hok' : (f.sys H S.sck).2 = true
    · refine ⟨_, by rw [if_pos (hr.2 hok'), if_pos hok'], hs'.skip f.size, fun _ => ⟨hl.base, ?_, hl.iptr, fun n => ?_⟩⟩
      · exact congrArg (· + f.size) hl.optr
      · exact hl.read _ _ _ (.inr (.inr le_rfl))
    · exact ⟨_, by rw [if_neg fun h => hok' (hr.1 h), if_neg hok'], hs', fun h => absurd h hok'⟩
  · rw [if_neg hsys, if_neg hsys, if_pos hok, rtmqRsvrExpMesgProc_spec hd, ← hs.sck]
    refine ⟨_, rfl, ⟨rfl, hs.handed, ?_⟩, fun _ => ⟨rfl, rfl, rfl, fun _ => rfl⟩⟩
    have hq : List.Forall₂ (Stored { S with optr := S.optr + f.size }) S.recvq A.queued := (hs.skip f.size).queued
    simp only
    split
    · exact List.rel_append hq (.cons ⟨hd, .inr ⟨rfl, le_rfl⟩⟩ .nil)
    · exact hq

/-- A turn at a complete frame hands it on. -/
theorem turn_frame (hs : Sim S A) (hok : A.ok = true) (hp : Pending S (f :: fs) rest)
    (hlen : f.size ≤ S.iptr - S.optr) (hc : f.Carries) :
    ∃ S', S.dataProcTurn H = some (S', if (A.deliver H f).ok then none else some .err) ∧ Sim S' (A.deliver H f) ∧
      ((A.deliver H f).ok = true → Pending S' fs rest ∧ S'.iptr - S'.optr = S.iptr - S.optr - f.size) := by
  have hn : HEADER_LEN ≤ f.size := Nat.le_add_right _ _
  obtain ⟨hchk, hone⟩ := ntohl_header (hp.data (hn.trans hlen) hn)
  have hf : S.data f.size = f.wire := by
    rw [hp.data hlen le_rfl, List.take_of_length_le (length_wire f).le]
  have hd := data_rtmqHeadNtoh hf
  have hd' : S.rtmqHeadNtoh.mem.read S.rtmqHeadNtoh.base S.rtmqHeadNtoh.optr f.size = f.host := hd
  have hl : Local HEADER_LEN S S.rtmqHeadNtoh := rtmqHeadNtoh_local S
  have hs' : Sim { S.rtmqHeadNtoh with handed := S.rtmqHeadNtoh.handed ++ [f.host] }
      { A with handed := A.handed ++ [f] } := by
    refine ⟨hs.sck, ?_, hs.queued.imp fun _ _ h => hl.stored h⟩
    rw [List.map_append, ← hs.handed]
    rfl
  obtain ⟨S', hh, hsim, hmove⟩ := handOn_spec (H := H) hs' hok hd hc
  refine ⟨S', ?_, hsim, fun h => ?_⟩
  · unfold dataProcTurn
    simp only [hchk, hone, ne_eq, not_true, and_false, if_false, if_pos (And.intro (hn.trans hlen) hlen),
      word_host_four hd, hd']
    exact congrArg some hh
  · obtain ⟨hb, ho, hi, hread⟩ := hmove h
    obtain ⟨m, hm⟩ := Nat.exists_eq_add_of_le hlen
    have hb' : S'.base = S.base := hb
    have ho' : S'.optr = S.optr + f.size := ho
    have hi' : S'.iptr = S.iptr := hi
    have hle := hp.optr_le
    have hm' : S'.iptr - S'.optr = m := by omega
    have hrest : S'.mem.read S.base (S.optr + f.size) m = S.mem.read S.base (S.optr + f.size) m :=
      (hread m).trans (hl.read _ _ _ (.inr (.inr (Nat.add_le_add_left hn _))))
    refine ⟨⟨by omega, by rw [hi']; exact hp.iptr_le, ?_⟩, by omega⟩
    have hst := hp.stream
    rw [hm, Recv.data, Blocks.read_add, List.append_assoc, List.flatMap_cons] at hst
    have := List.append_inj_right hst (by rw [length_wire]; exact Blocks.length_read)
    rw [Recv.data, hm', hb', ho', hrest, this]

/-- A turn without a complete frame keeps what is there, in a new buffer when the old one is
full. -/
theorem turn_short (halloc : ∀ n, H.alloc n = true) (hs : Sim S A) (hp : Pending S fs rest)
    (hshort : ∀ f, fs.head? = some f → S.iptr - S.optr < f.size) :
    ∃ S', S.dataProcTurn H = some (S', some .ok) ∧ Sim S' A ∧ Pending S' fs rest ∧ S'.iptr < RTMQ_BUFF_SIZE ∧
      S'.iptr - S'.optr = S.iptr - S.optr := by
  have hlt : S.iptr - S.optr < RTMQ_BUFF_SIZE ∧ ¬(HEADER_LEN ≤ S.iptr - S.optr ∧ S.ntohl 4 ≠ RTMQ_CHKSUM_VAL) ∧
      ¬(HEADER_LEN ≤ S.iptr - S.optr ∧ (HEADER_LEN + (S.ntohl 3).toNat) % 2 ^ 32 ≤ S.iptr - S.optr) := by
    cases fs with
    | nil =>
      have h0 := congrArg List.length (List.append_eq_nil_iff.1 hp.stream).1
      rw [Blocks.length_read] at h0
      rw [show S.iptr - S.optr = 0 from h0]
      exact ⟨by decide, by simp [HEADER_LEN], by simp [HEADER_LEN]⟩
    | cons f fs =>
      have hf := hshort f rfl
      refine ⟨hf.trans_le f.fits, fun h => ?_, fun h => ?_⟩
      · exact h.2 (ntohl_header (hp.data h.1 (Nat.le_add_right _ _))).1
      · have := (ntohl_header (hp.data h.1 (Nat.le_add_right _ _))).2
        omega
  obtain ⟨hlt, hchk, hflag⟩ := hlt
  unfold dataProcTurn
  rw [if_neg hchk]
  simp only [if_neg hflag]
  by_cases hfull : S.iptr = RTMQ_BUFF_SIZE
  · rw [if_pos hfull, if_neg (by omega), rtmqRsvrSwitchRecvBuff, if_pos (halloc _)]
    -- the items queued lie in older blocks than the new one
    have hold (item : Nat × Nat) (f : Frame) (h : Stored S item f) : item.1 ≠ S.base + 1 ∧ item.1 < S.base + 1 := by
      have := h.2
      omega
    refine ⟨_, rfl, ⟨hs.sck, hs.handed, hs.queued.imp fun item f h =>
      ⟨(Blocks.read_write_of_disjoint (.inl (hold item f h).1)).trans h.1, .inl (hold item f h).2⟩⟩,
      ⟨Nat.zero_le _, hlt.le, ?_⟩, hlt, rfl⟩
    have hnew (l : List Byte) (hl : l.length = S.iptr - S.optr) :
        (S.mem.write (S.base + 1) 0 l).read (S.base + 1) 0 (S.iptr - S.optr) = l := hl ▸ Blocks.read_write
    simp only [Recv.data, Nat.sub_zero, hnew _ Blocks.length_read]
    exact hp.stream
  · rw [if_neg hfull]
    exact ⟨S, rfl, hs, hp, by have := hp.iptr_le; omega, rfl⟩

/-! ## Reads and chunks -/

/-- The server between two reads: no frame is complete in what has been received, and the buffer has
place. -/
structure Idle (S : Recv σ) (A : Fed σ) (fs : List Frame) (rest : List Byte) : Prop where
  sim : Sim S A
  ok : A.ok = true
  pending : Pending S fs rest
  carries : ∀ f ∈ fs, f.Carries
  lt : S.iptr < RTMQ_BUFF_SIZE
  short : ∀ f, fs.head? = some f → S.iptr - S.optr < f.size

/-- What a loop over the frames `fs` and more bytes ends with: it waits for the rest, or it returns
the error of a handler. -/
def Ends (H : Handlers σ) (A : Fed σ) (fs : List Frame) (rest : List Byte) (r : Option (Recv σ × Ret)) : Prop :=
  (∃ S' A' fs', r = some (S', .ok) ∧ Idle S' A' fs' rest ∧ Fed.feed H A fs = Fed.feed H A' fs') ∨
    ∃ S', r = some (S', .err) ∧ Sim S' (Fed.feed H A fs) ∧ (Fed.feed H A fs).ok = false

theorem Ends.of_feed {A' : Fed σ} {fs' : List Frame} {r : Option (Recv σ × Ret)} (h : Ends H A' fs' rest r)
    (hfeed : Fed.feed H A fs = Fed.feed H A' fs') : Ends H A fs rest r := by
  unfold Ends at h ⊢
  rw [hfeed]
  exact h

/-- The turns of `rtmq_rsvr_data_proc` hand on the frames that are complete, up to
one whose handler fails. -/
theorem dataProcLoop_ends (halloc : ∀ n, H.alloc n = true) {fuel : Nat} (hs : Sim S A) (hok : A.ok = true)
    (hp : Pending S fs rest) (hc : ∀ f ∈ fs, f.Carries) (hfuel : S.iptr - S.optr < fuel) :
    Ends H A fs rest (dataProcLoop H fuel S) := by
  induction fuel generalizing S A fs with
  | zero => omega
  | succ fuel ih =>
    rw [dataProcLoop]
    by_cases hshort : ∀ f, fs.head? = some f → S.iptr - S.optr < f.size
    · obtain ⟨S', hturn, hs', hp', hlt, hlen⟩ := turn_short halloc hs hp hshort
      rw [hturn]
      exact .inl ⟨S', A, fs, rfl, ⟨hs', hok, hp', hc, hlt, hlen ▸ hshort⟩, rfl⟩
    · cases fs with
      | nil => exact absurd (fun f hf => by cases hf) hshort
      | cons f fs =>
        have hlen : f.size ≤ S.iptr - S.optr := by
          by_contra hlt
          exact hshort fun g hg => by cases hg; omega
        have hn : HEADER_LEN ≤ f.size := Nat.le_add_right _ _
        obtain ⟨S', hturn, hs', hmove⟩ := turn_frame (H := H) hs hok hp hlen (hc f (.head _))
        rw [hturn]
        by_cases hok' : (A.deliver H f).ok = true
        · obtain ⟨hp', hlen'⟩ := hmove hok'
          unfold HEADER_LEN at hn
          rw [if_pos hok']
          exact (ih hs' hok' hp' (fun g hg => hc g (.tail _ hg)) (by omega)).of_feed rfl
        · have hfail : (A.deliver H f).ok = false := by simpa using hok'
          have hfeed : Fed.feed H A (f :: fs) = A.deliver H f := Fed.feed_failed H hfail fs
          rw [if_neg hok']
          exact .inr ⟨S', rfl, hfeed ▸ hs', hfeed ▸ hfail⟩

/-- A read that fits moves bytes from those to come to those received. -/
theorem readChunk_pending {chunk : List Byte} (hp : Pending S fs (chunk ++ rest))
    (hfit : S.iptr + chunk.length ≤ RTMQ_BUFF_SIZE) : Pending (S.readChunk chunk) fs rest := by
  have hle := hp.optr_le
  refine ⟨by simp only [readChunk]; omega, hfit, ?_⟩
  have hlen : S.iptr + chunk.length - S.optr = S.iptr - S.optr + chunk.length := by omega
  rw [← hp.stream, Recv.data, readChunk]
  simp only [hlen]
  rw [Blocks.read_write_append (by omega), List.append_assoc]

theorem readChunk_sim {chunk : List Byte} (hle : S.optr ≤ S.iptr) (hs : Sim S A) : Sim (S.readChunk chunk) A := by
  refine ⟨hs.sck, hs.handed, hs.queued.imp fun item f h => ⟨?_, h.2⟩⟩
  refine (Blocks.read_write_of_disjoint ?_).trans h.1
  have := h.2
  omega

/-- A chunk is read piece by piece, as the buffers have place. -/
theorem recvProcLoop_ends (halloc : ∀ n, H.alloc n = true) {fuel : Nat} {chunk : List Byte}
    (h : Idle S A fs (chunk ++ rest)) (hfuel : chunk.length ≤ fuel) :
    Ends H A fs rest (recvProcLoop H fuel S chunk) := by
  induction fuel generalizing S A fs chunk with
  | zero =>
    obtain rfl : chunk = [] := List.eq_nil_of_length_eq_zero (by omega)
    exact .inl ⟨S, A, fs, by simp [recvProcLoop], h, rfl⟩
  | succ fuel ih =>
    match chunk with
    | [] => exact .inl ⟨S, A, fs, by simp [recvProcLoop], h, rfl⟩
    | b :: bs =>
      have hlt := h.lt
      rw [recvProcLoop, if_neg (by omega)]
      set left := RTMQ_BUFF_SIZE - S.iptr with hleft
      have hfit : S.iptr + ((b :: bs).take left).length ≤ RTMQ_BUFF_SIZE := by
        rw [List.length_take]
        omega
      have hp : Pending S fs ((b :: bs).take left ++ ((b :: bs).drop left ++ rest)) := by
        rw [← List.append_assoc, List.take_append_drop]
        exact h.pending
      have hdata : Ends H A fs ((b :: bs).drop left ++ rest) ((S.readChunk ((b :: bs).take left)).rtmqRsvrDataProc H) :=
        dataProcLoop_ends halloc (readChunk_sim h.pending.optr_le h.sim) h.ok (readChunk_pending hp hfit) h.carries
          (Nat.lt_succ_self _)
      rcases hdata with ⟨S', A', fs', hr, hidle, hfeed⟩ | ⟨S', hr, hs', hfail⟩
      · rw [hr]
        exact (ih hidle (by rw [List.length_drop]; simp only [List.length_cons] at hfuel ⊢; omega)).of_feed hfeed
      · rw [hr]
        exact .inr ⟨S', rfl, hs', hfail⟩

theorem recvAll_ends (halloc : ∀ n, H.alloc n = true) {chunks : List (List Byte)} (h : Idle S A fs chunks.flatten) :
    Ends H A fs [] (recvAll H S chunks) := by
  induction chunks generalizing S A fs with
  | nil => exact .inl ⟨S, A, fs, rfl, h, rfl⟩
  | cons chunk chunks ih =>
    rw [recvAll]
    have hchunk : Ends H A fs chunks.flatten (S.rtmqRsvrRecvProc H chunk) := recvProcLoop_ends halloc h le_rfl
    rcases hchunk with ⟨S', A', fs', hr, hidle, hfeed⟩ | ⟨S', hr, hs', hfail⟩
    · rw [hr]
      exact (ih hidle).of_feed hfeed
    · rw [hr]
      exact .inr ⟨S', rfl, hs', hfail⟩

/-- When nothing is to come any more, no frame is left. -/
theorem Idle.done (h : Idle S A fs []) : fs = [] := by
  cases fs with
  | nil => rfl
  | cons f fs =>
    have hlen := congrArg List.length h.pending.stream
    have := h.short f rfl
    simp only [List.append_nil, Blocks.length_read, List.flatMap_cons, List.length_append, length_wire] at hlen
    omega

theorem init_idle (mem : Blocks) (s : σ) (hc : ∀ f ∈ fs, f.Carries) :
    Idle (init mem s) (.init s) fs (fs.flatMap Frame.wire) where
  sim := ⟨rfl, rfl, .nil⟩
  ok := rfl
  pending := ⟨le_rfl, Nat.zero_le _, rfl⟩
  carries := hc
  lt := (by decide : 0 < RTMQ_BUFF_SIZE)
  short f _ := Nat.lt_of_lt_of_le (by decide : 0 < HEADER_LEN) (Nat.le_add_right _ _)

/-- However the reads cut a stream of frames, the server hands them on in order, each once and byte
for byte, up to the first whose handler fails, and it closes the connection then and only then; the
items queued still hold their frames. -/
theorem recv_stream_correct (halloc : ∀ n, H.alloc n = true) (mem : Blocks) (s : σ) (hc : ∀ f ∈ fs, f.Carries)
    {chunks : List (List Byte)} (hstream : chunks.flatten = fs.flatMap Frame.wire) :
    ∃ S r, recvAll H (init mem s) chunks = some (S, r) ∧ (r = .ok ↔ (Fed.feed H (.init s) fs).ok = true) ∧
      S.sck = (Fed.feed H (.init s) fs).sck ∧
      S.handed = (Fed.feed H (.init s) fs).handed.map Frame.host ∧
      (Fed.feed H (.init s) fs).handed <+: fs ∧ (r = .ok → S.handed = fs.map Frame.host) ∧
      List.Forall₂ (fun item f => S.mem.read item.1 item.2 f.size = f.host) S.recvq
        (Fed.feed H (.init s) fs).queued := by
  obtain ⟨hd, heq, hpre, hall⟩ := Fed.feed_handed H (A := .init s) rfl fs
  obtain rfl : (Fed.feed H (.init s) fs).handed = hd := heq
  have hinit : Idle (init mem s) (.init s) fs chunks.flatten := hstream ▸ init_idle mem s hc
  rcases recvAll_ends halloc hinit with ⟨S', A', fs', hr, hidle, hfeed⟩ | ⟨S', hr, hs', hfail⟩
  · rw [hidle.done] at hfeed
    rw [hfeed] at hpre hall ⊢
    have hsim := hidle.sim
    refine ⟨S', .ok, hr, by simp [Fed.feed, hidle.ok], hsim.sck, hsim.handed, hpre, fun _ => ?_,
      hsim.queued.imp fun _ _ h => h.1⟩
    rw [hsim.handed]
    exact congrArg _ (hall hidle.ok)
  · exact ⟨S', .err, hr, by simp [hfail], hs'.sck, hs'.handed, hpre, fun h => (by cases h),
      hs'.queued.imp fun _ _ h => h.1⟩

/-! ## Two frames -/

/-- A server whose connection is authenticated as node 5 and whose handlers succeed. -/
def accepting : Handlers Unit where
  authSucc _ := true
  nid _ := 5
  linkAuth s _ _ _ := (s, true)
  keepalive s := (s, true)
  sub s _ := (s, true)
  queueMalloc s := (s, true)
  alloc _ := true

/-- A subscription and a user message, cut in their headers. -/
theorem recv_stream_correct_cut :
    let fs : List Frame := [⟨RTMQ_CMD_SUB_REQ, 5, RTMQ_SYS_MESG, [0, 0, 1, 2], by decide⟩, ⟨258, 5, 1, [7], by decide⟩]
    let stream := fs.flatMap Frame.wire
    ∃ S r, recvAll accepting (init (fun _ _ => 0) ()) [stream.take 7, (stream.drop 7).take 30, stream.drop 37] =
        some (S, r) ∧
      (r = .ok ↔ (Fed.feed accepting (.init ()) fs).ok = true) ∧ S.sck = (Fed.feed accepting (.init ()) fs).sck ∧
      S.handed = (Fed.feed accepting (.init ()) fs).handed.map Frame.host ∧
      (Fed.feed accepting (.init ()) fs).handed <+: fs ∧ (r = .ok → S.handed = fs.map Frame.host) ∧
      List.Forall₂ (fun item f => S.mem.read item.1 item.2 f.size = f.host) S.recvq
        (Fed.feed accepting (.init ()) fs).queued :=
  recv_stream_correct (fun _ => rfl) _ () (by decide) (by decide)

/-- A system message of an unknown type ends the connection. And the handler of a subscription that
lacks its type converts a word of the frame that follows, when that has arrived in the same read. -/
theorem recv_unknown_type_disconnects :
    (¬∀ (fs : List Frame) (chunks : List (List Byte)), chunks.flatten = fs.flatMap Frame.wire →
      ∃ S, recvAll accepting (init (fun _ _ => 0) ()) chunks = some (S, .ok)) ∧
    ¬∀ (fs : List Frame) (chunks : List (List Byte)) (S : Recv Unit), chunks.flatten = fs.flatMap Frame.wire →
      recvAll accepting (init (fun _ _ => 0) ()) chunks = some (S, .ok) → S.handed = fs.map Frame.host := by
  constructor
  · intro h
    let f : Frame := ⟨7, 5, RTMQ_SYS_MESG, [], by decide⟩
    obtain ⟨S, hS⟩ := h [f] [f.wire] (by simp)
    have hr : (recvAll accepting (init (fun _ _ => 0) ()) [f.wire]).map Prod.snd = some .err := by decide
    rw [hS] at hr
    cases hr
  · intro h
    let fs : List Frame := [⟨RTMQ_CMD_SUB_REQ, 5, RTMQ_SYS_MESG, [], by decide⟩, ⟨258, 5, 1, [], by decide⟩]
    let r := recvAll accepting (init (fun _ _ => 0) ()) [fs.flatMap Frame.wire]
    have hr : r.map Prod.snd = some .ok := by decide
    obtain ⟨⟨S, r'⟩, hS, hr'⟩ := Option.map_eq_some_iff.1 hr
    obtain rfl : r' = .ok := hr'
    have heq : r.map (fun p => p.1.handed) = some (fs.map Frame.host) := by
      rw [hS, Option.map_some, h fs [fs.flatMap Frame.wire] S (by simp) hS]
    revert heq
    decide

end Recv

end BeehiveIm.Rtmq
