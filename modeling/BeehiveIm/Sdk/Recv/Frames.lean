/-
What the client gives to its handlers is a function of the stream of frames, however the reads cut
it: the bytes received and not given yet are the beginning of the frames still to come, also when
they are moved to the front of the buffer. A stream whose lengths stay below 2^32 - 52 is a sequence
of frames and the beginning of one more.
-/
import BeehiveIm.Sdk.Recv

namespace BeehiveIm.Sdk

open BeehiveIm.Lib

/-- The size of the frame that begins like `l`. -/
def frameSize (l : List Byte) : Nat := mesgHeaderSize + (beWord ((l.drop 4).take 4)).toNat

/-- A frame as it is on the wire: its header names its length. -/
structure Frame where
  wire : List Byte
  length_eq : wire.length = frameSize wire
  lt : frameSize wire < 2 ^ 32

/-- Every length that the parser comes to in the stream, one frame after the other, is below 2^32 -
52. -/
inductive InRange : List Byte → Prop
  | short {l : List Byte} : l.length < mesgHeaderSize → InRange l
  | cut {l : List Byte} : frameSize l < 2 ^ 32 → l.length < frameSize l → InRange l
  | frame {l : List Byte} : frameSize l < 2 ^ 32 → frameSize l ≤ l.length → InRange (l.drop (frameSize l)) → InRange l

/-- The fields of the given sizes, each turned round. -/
def turnFields : List Nat → List Byte → List Byte
  | [], l => l
  | n :: ns, l => (l.take n).reverse ++ turnFields ns (l.drop n)

namespace Frame

def size (f : Frame) : Nat := frameSize f.wire

def type (f : Frame) : BitVec 32 := beWord (f.wire.take 4)

/-- The frame as a handler finds it, its header in host order. -/
def host (f : Frame) : List Byte := turnFields headFields f.wire

variable {σ : Type} (H : Handlers σ)

/-- What the handlers do with a frame, and whether they succeed. -/
def proc (f : Frame) (s : σ) : σ × Bool :=
  let r := H.ackSucc s f.host
  if r.2 then (r.1, true)
  else if f.type.toNat = CMD_PONG then (H.pong r.1, true)
  else if f.type.toNat = CMD_PING then (H.ping r.1, true)
  else if f.type.toNat = CMD_ONLINE_ACK then H.onlineAck r.1 f.host
  else (H.exp r.1 f.host, true)

theorem header_le (f : Frame) : mesgHeaderSize ≤ f.size := Nat.le_add_right _ _

end Frame

/-- The client over a stream of frames: its state, the frames given to the handlers, and
whether none has failed. -/
structure Fed (σ : Type) where
  sck : σ
  given : List Frame
  ok : Bool

namespace Fed

variable {σ : Type} (H : Handlers σ)

def init (s : σ) : Fed σ := ⟨s, [], true⟩

/-- The next frame; after a failure there is none. -/
def deliver (A : Fed σ) (f : Frame) : Fed σ :=
  if A.ok then ⟨(f.proc H A.sck).1, A.given ++ [f], (f.proc H A.sck).2⟩ else A

def feed (A : Fed σ) (fs : List Frame) : Fed σ := fs.foldl (deliver H) A

theorem feed_failed {A : Fed σ} (h : A.ok = false) (fs : List Frame) : feed H A fs = A := by
  induction fs with
  | nil => rfl
  | cons f fs ih =>
    rw [feed, List.foldl_cons, deliver, if_neg (by simp [h])]
    exact ih

end Fed

namespace Recv

variable {σ : Type} {H : Handlers σ} {S S' : Recv σ} {A : Fed σ} {f : Frame} {fs : List Frame} {tail rest : List Byte}

/-! ## The header -/

theorem bytes_eq {o k n : Nat} (h : o + k ≤ n) : S.bytes o k = ((S.bytes 0 n).drop o).take k :=
  (Blocks.drop_take_read h).symm

theorem bytes_swap {o k n : Nat} (h : o + k ≤ n) :
    (S.swap o k).bytes 0 n = (S.bytes 0 n).take o ++
    ((((S.bytes 0 n).drop o).take k).reverse ++ (S.bytes 0 n).drop (o + k)) := by
  have hlen : (S.bytes o k).reverse.length = k := by simp [bytes]
  refine (Blocks.read_write_within (by rw [hlen]; exact h)).trans ?_
  rw [hlen, bytes_eq h]
  rfl

theorem bytes_ntohFrom {ns : List Nat} {o n : Nat} (h : o + ns.sum ≤ n) :
    (S.ntohFrom o ns).bytes 0 n = (S.bytes 0 n).take o ++ turnFields ns ((S.bytes 0 n).drop o) := by
  induction ns generalizing S o with
  | nil => exact (List.take_append_drop _ _).symm
  | cons k ns ih =>
    rw [List.sum_cons] at h
    have hlen : (S.bytes 0 n).length = n := by simp [bytes]
    have hswap := @bytes_swap _ S o k n (by omega)
    have htake : ((S.bytes 0 n).take o ++ (((S.bytes 0 n).drop o).take k).reverse).length = o + k := by
      simp only [List.length_append, List.length_take, List.length_reverse, List.length_drop, hlen]
      omega
    rw [← List.append_assoc] at hswap
    rw [ntohFrom, ih (by omega), hswap, List.take_left' htake, List.drop_left' htake, turnFields, List.append_assoc,
      List.drop_drop]

/-- The conversion writes the header, and nothing behind it. -/
theorem ntohFrom_eq (S : Recv σ) (o : Nat) (ns : List Nat) :
    ∃ mem, S.ntohFrom o ns = { S with mem := mem } ∧
      ∀ o' n, S.optr + o + ns.sum ≤ o' → mem.read 0 o' n = S.mem.read 0 o' n := by
  induction ns generalizing S o with
  | nil => exact ⟨S.mem, rfl, fun _ _ _ => rfl⟩
  | cons k ns ih =>
    obtain ⟨mem, heq, hread⟩ := ih (S.swap o k) (o + k)
    refine ⟨mem, heq, fun o' n ho => ?_⟩
    rw [List.sum_cons] at ho
    rw [hread o' n (by simp only [swap]; omega)]
    refine Blocks.read_write_of_disjoint (.inr (.inr ?_))
    simp only [List.length_reverse, bytes, Blocks.length_read]
    omega

/-- The first two words of a header, before it is converted and after. -/
theorem ntohl_wire {n : Nat} (h : S.bytes 0 n = f.wire.take n) (hn : mesgHeaderSize ≤ n) :
    mesgHeaderSize + (S.ntohl 4).toNat = f.size := by
  unfold mesgHeaderSize at hn
  rw [ntohl, bytes_eq (n := n) (by omega), h, List.drop_take, List.take_take, Nat.min_eq_left (by omega)]
  rfl

theorem word_host (h : S.bytes 0 f.size = f.host) : S.word 0 = f.type ∧ mesgHeaderSize + (S.word 4).toNat = f.size := by
  have hn := f.header_le
  have hlen := f.length_eq.symm.le.trans' hn
  unfold mesgHeaderSize at hn hlen
  have h4 : (f.wire.take 4).reverse.length = 4 := by rw [List.length_reverse, List.length_take]; omega
  constructor
  · rw [word, bytes_eq (n := f.size) (by omega), h, Frame.host, headFields, turnFields, List.drop_zero,
      List.take_left' h4, leWord_reverse]
    rfl
  · have h4' : ((f.wire.drop 4).take 4).reverse.length = 4 := by
      rw [List.length_reverse, List.length_take, List.length_drop]
      omega
    rw [word, bytes_eq (n := f.size) (by omega), h, Frame.host, headFields, turnFields, turnFields, List.drop_left' h4,
      List.take_left' h4', leWord_reverse]
    rfl

/-! ## A turn -/

/-- The client has done what it does over the frames received; all that was given had been
received. -/
structure Sim (S : Recv σ) (A : Fed σ) : Prop where
  sck : S.sck = A.sck
  given : S.given.map Given.addr = A.given.map Frame.host
  within : ∀ g ∈ S.given, g.Within

/-- The bytes received and those still to come are the frames `fs` and the beginning `tail` of one
more. -/
structure Pending (S : Recv σ) (size : Nat) (fs : List Frame) (tail rest : List Byte) : Prop where
  optr_le : S.optr ≤ S.iptr
  iptr_le : S.iptr ≤ S.size
  size_eq : S.size = size
  stream : S.bytes 0 (S.iptr - S.optr) ++ rest = fs.flatMap Frame.wire ++ tail

/-- No frame is complete in `l`, nor too long for its length to be read right. -/
def Cut (l : List Byte) : Prop := l.length < mesgHeaderSize ∨ l.length < frameSize l ∧ frameSize l < 2 ^ 32

/-- The size of the next frame: of one not known yet, that of a header. -/
def nextSize (tail : List Byte) : List Frame → Nat
  | [] => if tail.length < mesgHeaderSize then mesgHeaderSize else frameSize tail
  | f :: _ => f.size

theorem handOn_spec (hs : Sim S A) (hok : A.ok = true) (hd : S.bytes 0 f.size = f.host)
    (hlen : f.size ≤ S.iptr - S.optr) :
    ∃ S', S.handOn H f.size = (S', if (A.deliver H f).ok then none else some .err) ∧ Sim S' (A.deliver H f) ∧
      ((A.deliver H f).ok = true → S' = { S with sck := S'.sck, given := S'.given, optr := S.optr + f.size }) := by
  obtain ⟨htype, htotal⟩ := word_host hd
  have hgiven : (S.given ++ [Given.mk f.host f.size (S.iptr - S.optr)]).map Given.addr =
      (A.given ++ [f]).map Frame.host := by
    rw [List.map_append, hs.given, List.map_append]
    rfl
  have hwithin : ∀ g ∈ S.given ++ [Given.mk f.host f.size (S.iptr - S.optr)], g.Within := by
    intro g hg
    rcases List.mem_append.1 hg with hg | hg
    · exact hs.within g hg
    · rw [List.mem_singleton.1 hg]
      exact hlen
  have hword : ∀ (s : σ) (l : List Given), Recv.word { S with sck := s, given := l } 0 = f.type := fun _ _ => htype
  simp only [handOn, htotal, hd, hword, hs.sck, Fed.deliver, if_pos hok, Frame.proc]
  by_cases hack : (H.ackSucc A.sck f.host).2 = true
  · simp only [if_pos hack, if_true]
    exact ⟨_, rfl, ⟨rfl, hgiven, hwithin⟩, fun _ => rfl⟩
  simp only [if_neg hack, sdkIsSysMesg, sdkSysMesgProc, hword]
  by_cases hpong : f.type.toNat = CMD_PONG
  · simp only [hpong, if_true]
    exact ⟨_, rfl, ⟨rfl, hgiven, hwithin⟩, fun _ => rfl⟩
  by_cases hping : f.type.toNat = CMD_PING
  · simp only [hping, if_true]
    exact ⟨_, rfl, ⟨rfl, hgiven, hwithin⟩, fun _ => rfl⟩
  by_cases honline : f.type.toNat = CMD_ONLINE_ACK
  · have htypes : CMD_ONLINE_ACK ≠ CMD_PONG ∧ CMD_ONLINE_ACK ≠ CMD_PING := by decide
    simp only [honline, htypes.1, htypes.2, if_true, if_false, or_true, decide_true]
    by_cases hr : (H.onlineAck (H.ackSucc A.sck f.host).1 f.host).2 = true
    · simp only [if_pos hr]
      exact ⟨_, rfl, ⟨rfl, hgiven, hwithin⟩, fun _ => rfl⟩
    · simp only [if_neg hr]
      exact ⟨_, rfl, ⟨rfl, hgiven, hwithin⟩, fun h => absurd h hr⟩
  · simp only [hpong, hping, honline, or_self, decide_false, if_false, Bool.false_eq_true]
    exact ⟨_, rfl, ⟨rfl, hgiven, hwithin⟩, fun _ => rfl⟩

/-- The data are the beginning of the frames, as far as they go. -/
theorem Pending.take {size k : Nat} (hp : Pending S size fs tail rest) (hk : k ≤ S.iptr - S.optr) :
    S.bytes 0 k = (fs.flatMap Frame.wire ++ tail).take k := by
  have htake : (S.bytes 0 (S.iptr - S.optr)).take k = S.bytes 0 k :=
    (congrArg (List.take k) List.drop_zero).symm.trans (bytes_eq (o := 0) (by omega)).symm
  rw [← hp.stream, List.take_append_of_le_length (by simpa [bytes] using hk), htake]

/-- The first frame, as far as it has been received. -/
theorem Pending.head {size k : Nat} (hp : Pending S size (f :: fs) tail rest) (hk : k ≤ S.iptr - S.optr)
    (hf : k ≤ f.size) : S.bytes 0 k = f.wire.take k := by
  have hlen : k ≤ f.wire.length := hf.trans f.length_eq.symm.le
  rw [hp.take hk, List.flatMap_cons, List.append_assoc, List.take_append_of_le_length hlen]

/-- A turn at a complete frame gives it to its handler. -/
theorem turn_frame {size : Nat} (hs : Sim S A) (hok : A.ok = true) (hsize : size < 2 ^ 31)
    (hp : Pending S size (f :: fs) tail rest) (hlen : f.size ≤ S.iptr - S.optr) :
    ∃ S', S.dataProcTurn H = (S', if (A.deliver H f).ok then none else some .err) ∧ Sim S' (A.deliver H f) ∧
      ((A.deliver H f).ok = true → Pending S' size fs tail rest ∧ S'.iptr - S'.optr = S.iptr - S.optr - f.size) := by
  have hn := f.header_le
  have hiptr := hp.iptr_le
  have hsz := hp.size_eq
  have hfsize : f.wire.length = f.size := f.length_eq
  have hone : mesgHeaderSize + (S.ntohl 4).toNat = f.size := ntohl_wire (hp.head (hn.trans hlen) hn) le_rfl
  have hf : S.bytes 0 f.size = f.wire := by rw [hp.head hlen le_rfl, List.take_of_length_le hfsize.le]
  obtain ⟨mem, hntoh, hread⟩ := ntohFrom_eq S 0 headFields
  have hd : S.mesgHeadNtoh.bytes 0 f.size = f.host := by
    rw [mesgHeadNtoh, bytes_ntohFrom (by simpa [headFields, mesgHeaderSize] using hn), hf]
    rfl
  have hs' : Sim S.mesgHeadNtoh A := by
    rw [mesgHeadNtoh, hntoh]
    exact ⟨hs.sck, hs.given, hs.within⟩
  have hlen' : f.size ≤ S.mesgHeadNtoh.iptr - S.mesgHeadNtoh.optr := by
    rw [mesgHeadNtoh, hntoh]
    exact hlen
  obtain ⟨S', hh, hsim, hmove⟩ := handOn_spec (H := H) hs' hok hd hlen'
  have hlt : f.size < 2 ^ 32 := f.lt
  refine ⟨S', ?_, hsim, fun h => ?_⟩
  · unfold dataProcTurn
    rw [hone, Nat.mod_eq_of_lt hlt, Nat.mod_eq_of_lt (by omega)]
    simp only
    rw [if_neg (by omega)]
    exact hh
  · rw [hmove h, mesgHeadNtoh, hntoh]
    refine ⟨⟨?_, hiptr, hsz, ?_⟩, ?_⟩
    · have := hp.optr_le
      simp only
      omega
    · have hst := hp.stream
      obtain ⟨m, hm⟩ := Nat.exists_eq_add_of_le hlen
      have hm' : S.iptr - (S.optr + f.size) = m := by omega
      have hrest : mem.read 0 (S.optr + f.size) m = S.mem.read 0 (S.optr + f.size) m :=
        hread _ _ (by simp only [headFields, List.sum_cons, List.sum_nil]; unfold mesgHeaderSize at hn; omega)
      have hsplit : S.bytes 0 (f.size + m) = S.bytes 0 f.size ++ S.mem.read 0 (S.optr + f.size) m := Blocks.read_add _
      rw [hm, hsplit, hf, List.flatMap_cons, List.append_assoc, List.append_assoc, List.append_cancel_left_eq] at hst
      simp only [bytes, Nat.add_zero, hm', hrest, hst]
    · simp only
      omega

/-- A turn without a complete frame keeps what is there, at the front of the buffer when that is
full. -/
theorem turn_short {size : Nat} (hs : Sim S A) (hsize : size < 2 ^ 31) (hp : Pending S size fs tail rest)
    (hcut : Cut tail) (hshort : S.iptr - S.optr < nextSize tail fs) :
    ∃ S', S.dataProcTurn H = (S', some .ok) ∧ Sim S' A ∧ Pending S' size fs tail rest ∧
      S'.iptr - S'.optr = S.iptr - S.optr ∧ (S'.iptr = size → S'.optr = 0) := by
  have hiptr := hp.iptr_le
  have hsz := hp.size_eq
  have hbranch : S.iptr - S.optr < mesgHeaderSize ∨
      S.iptr - S.optr < (mesgHeaderSize + (S.ntohl 4).toNat) % 2 ^ 32 := by
    refine (Nat.lt_or_ge _ _).imp_right fun hge => ?_
    cases fs with
    | nil =>
      have hlen := congrArg List.length hp.stream
      simp only [List.flatMap_nil, List.nil_append, List.length_append, bytes, Blocks.length_read] at hlen
      rcases hcut with hcut | hcut
      · omega
      have htail : mesgHeaderSize + (S.ntohl 4).toNat = frameSize tail := by
        rw [ntohl, bytes_eq (n := mesgHeaderSize) (by decide), hp.take hge, List.flatMap_nil, List.nil_append,
          List.drop_take, List.take_take]
        rfl
      rw [nextSize, if_neg (by omega)] at hshort
      rwa [htail, Nat.mod_eq_of_lt hcut.2]
    | cons f fs =>
      rw [ntohl_wire (hp.head hge f.header_le) le_rfl, Nat.mod_eq_of_lt (show f.size < 2 ^ 32 from f.lt)]
      exact hshort
  unfold dataProcTurn
  rw [Nat.mod_eq_of_lt (show S.iptr - S.optr < 2 ^ 32 by omega)]
  simp only [if_pos hbranch]
  by_cases hfull : S.iptr = S.size
  · rw [if_pos hfull, if_neg (by omega)]
    refine ⟨_, rfl, ⟨hs.sck, hs.given, hs.within⟩, ⟨Nat.zero_le _, by simp only; omega, hsz, ?_⟩, rfl, fun _ => rfl⟩
    have hmove (l : List Byte) (hl : l.length = S.iptr - S.optr) : (S.mem.write 0 0 l).read 0 0 (S.iptr - S.optr) = l :=
      hl ▸ Blocks.read_write
    simp only [bytes, Nat.add_zero, Nat.sub_zero, hmove _ Blocks.length_read]
    exact hp.stream
  · rw [if_neg hfull]
    exact ⟨S, rfl, hs, hp, rfl, fun h => absurd (h.trans hsz.symm) hfull⟩

/-! ## Reads and chunks -/

/-- The client between two reads: no frame is complete in what has been received, and a buffer that
is full begins with what has not been given. -/
structure Idle (S : Recv σ) (A : Fed σ) (size : Nat) (fs : List Frame) (tail rest : List Byte) : Prop where
  sim : Sim S A
  ok : A.ok = true
  pending : Pending S size fs tail rest
  short : S.iptr - S.optr < nextSize tail fs
  front : S.iptr = size → S.optr = 0

/-- The turns of `sdk_ssvr_data_proc` give the frames that are complete to their handlers, up to
one whose handler fails. -/
theorem dataProcLoop_ends {size : Nat} (fuel : Nat) (hs : Sim S A) (hok : A.ok = true) (hsize : size < 2 ^ 31)
    (hp : Pending S size fs tail rest) (hcut : Cut tail) (hfuel : S.iptr - S.optr < fuel) :
    (∃ S' A' fs', dataProcLoop H fuel S = some (S', .ok) ∧ Idle S' A' size fs' tail rest ∧ fs' <:+ fs ∧
        Fed.feed H A fs = Fed.feed H A' fs') ∨
      ∃ S', dataProcLoop H fuel S = some (S', .err) ∧ Sim S' (Fed.feed H A fs) ∧ (Fed.feed H A fs).ok = false := by
  induction fuel generalizing S A fs with
  | zero => omega
  | succ fuel ih =>
    rw [dataProcLoop]
    by_cases hshort : S.iptr - S.optr < nextSize tail fs
    · obtain ⟨S', hturn, hs', hp', hlen, hfront⟩ := turn_short (H := H) hs hsize hp hcut hshort
      rw [hturn]
      exact .inl ⟨S', A, fs, rfl, ⟨hs', hok, hp', hlen ▸ hshort, hfront⟩, List.suffix_rfl, rfl⟩
    · cases fs with
      | nil =>
        -- what has been received is part of the beginning of a frame
        have hlen := congrArg List.length hp.stream
        simp only [List.flatMap_nil, List.nil_append, List.length_append, bytes, Blocks.length_read] at hlen
        rw [nextSize] at hshort
        split at hshort
        · omega
        · rcases hcut with hcut | hcut <;> omega
      | cons f fs =>
        have hlen : f.size ≤ S.iptr - S.optr := Nat.le_of_not_lt hshort
        have hn := f.header_le
        obtain ⟨S', hturn, hs', hmove⟩ := turn_frame (H := H) hs hok hsize hp hlen
        rw [hturn]
        by_cases hok' : (A.deliver H f).ok = true
        · obtain ⟨hp', hlen'⟩ := hmove hok'
          unfold mesgHeaderSize at hn
          rw [if_pos hok']
          rcases ih hs' hok' hp' (by omega) with ⟨S'', A'', fs'', hr, hidle, hsuf, hfeed⟩ | hr
          · exact .inl ⟨S'', A'', fs'', hr, hidle, hsuf.trans (List.suffix_cons f fs), hfeed⟩
          · exact .inr hr
        · have hfeed : Fed.feed H A (f :: fs) = A.deliver H f := Fed.feed_failed H (by simpa using hok') fs
          rw [if_neg hok']
          exact .inr ⟨S', rfl, hfeed ▸ hs', by rw [hfeed]; simpa using hok'⟩

/-- What a loop over the frames `fs` and more bytes ends with: it waits for the rest, or
the connection is closed after the error of a handler, or because the next frame does
not fit into the buffer. -/
def Ends (H : Handlers σ) (A : Fed σ) (size : Nat) (fs : List Frame) (tail rest : List Byte)
    (r : Option (Recv σ × Ret)) : Prop :=
  (∃ S' A' fs', r = some (S', .ok) ∧ Idle S' A' size fs' tail rest ∧ fs' <:+ fs ∧ Fed.feed H A fs = Fed.feed H A' fs') ∨
    (∃ S', r = some (S'.close H, .err) ∧ Sim S' (Fed.feed H A fs) ∧ (Fed.feed H A fs).ok = false) ∨
    ∃ S' A' fs', r = some (S'.close H, .disconn) ∧ Sim S' A' ∧ fs' <:+ fs ∧ size < nextSize tail fs' ∧
    (fs' = [] → tail ≠ [])

theorem Ends.of_feed {A' : Fed σ} {size : Nat} {fs' : List Frame} {r : Option (Recv σ × Ret)}
    (h : Ends H A' size fs' tail rest r)
    (hsuf : fs' <:+ fs) (hfeed : Fed.feed H A fs = Fed.feed H A' fs') : Ends H A size fs tail rest r := by
  rcases h with ⟨S', A'', fs'', hr, hidle, hsuf', hfeed'⟩ | h | ⟨S', A'', fs'', hr, hs, hsuf', hlt⟩
  · exact .inl ⟨S', A'', fs'', hr, hidle, hsuf'.trans hsuf, hfeed.trans hfeed'⟩
  · rw [← hfeed] at h
    exact .inr (.inl h)
  · exact .inr (.inr ⟨S', A'', fs'', hr, hs, hsuf'.trans hsuf, hlt⟩)

/-- A read that fits moves bytes from those to come to those received. -/
theorem readChunk_pending {size : Nat} {chunk : List Byte} (hp : Pending S size fs tail (chunk ++ rest))
    (hfit : S.iptr + chunk.length ≤ size) : Pending (S.readChunk chunk) size fs tail rest := by
  have hle := hp.optr_le
  have hsz := hp.size_eq
  refine ⟨by simp only [readChunk]; omega, by simp only [readChunk]; omega, hsz, ?_⟩
  have hlen : S.iptr + chunk.length - S.optr = S.iptr - S.optr + chunk.length := by omega
  rw [← hp.stream, bytes, bytes, readChunk]
  simp only [hlen, Nat.add_zero]
  rw [Blocks.read_write_append (by omega), List.append_assoc]

theorem toInt_ofNat_of_lt {n : Nat} (h : n < 2 ^ 31) : (BitVec.ofNat 32 n).toInt = n := by
  rw [BitVec.toInt_eq_toNat_cond, BitVec.toNat_ofNat, Nat.mod_eq_of_lt (by omega), if_pos (by omega)]

/-- A chunk is read piece by piece, as the buffer has place. -/
theorem recvProcLoop_ends {size fuel : Nat} {chunk : List Byte} (h : Idle S A size fs tail (chunk ++ rest))
    (hsize : size < 2 ^ 31)
    (hcut : Cut tail) (hfuel : chunk.length ≤ fuel) : Ends H A size fs tail rest (recvProcLoop H fuel S chunk) := by
  induction fuel generalizing S A fs chunk with
  | zero =>
    obtain rfl : chunk = [] := List.eq_nil_of_length_eq_zero (by omega)
    exact .inl ⟨S, A, fs, by simp [recvProcLoop], h, List.suffix_rfl, rfl⟩
  | succ fuel ih =>
    match chunk with
    | [] => exact .inl ⟨S, A, fs, by simp [recvProcLoop], h, List.suffix_rfl, rfl⟩
    | b :: bs =>
      have hsz := h.pending.size_eq
      have hiptr := h.pending.iptr_le
      rw [recvProcLoop, toInt_ofNat_of_lt (by omega)]
      simp only [Int.toNat_natCast]
      by_cases hleft : S.size - S.iptr = 0
      · -- the buffer is full of a frame that is not complete
        rw [if_pos (by omega)]
        have hfront := h.front (by omega)
        have hshort := h.short
        refine .inr (.inr ⟨S, A, fs, rfl, h.sim, List.suffix_rfl, by omega, fun hfs htail => ?_⟩)
        have hstream := h.pending.stream
        rw [hfs, htail] at hstream
        simp at hstream
      rw [if_neg (by omega), if_neg (by omega)]
      set left := S.size - S.iptr with hdef
      have hfit : S.iptr + ((b :: bs).take left).length ≤ size := by
        rw [List.length_take]
        omega
      have hp : Pending S size fs tail ((b :: bs).take left ++ ((b :: bs).drop left ++ rest)) := by
        rw [← List.append_assoc, List.take_append_drop]
        exact h.pending
      have hs : Sim (S.readChunk ((b :: bs).take left)) A := ⟨h.sim.sck, h.sim.given, h.sim.within⟩
      rcases dataProcLoop_ends (H := H)
        (2 * ((S.readChunk ((b :: bs).take left)).iptr - (S.readChunk ((b :: bs).take left)).optr) + 2)
        hs h.ok hsize (readChunk_pending hp hfit) hcut (by omega) with ⟨S', A', fs', hr, hidle, hsuf, hfeed⟩ |
        ⟨S', hr, hs', hfail⟩
      · rw [sdkSsvrDataProc, hr]
        refine (ih hidle ?_).of_feed hsuf hfeed
        rw [List.length_drop]
        simp only [List.length_cons] at hfuel ⊢
        omega
      · rw [sdkSsvrDataProc, hr]
        exact .inr (.inl ⟨S', rfl, hs', hfail⟩)

theorem recvAll_ends {size : Nat} {chunks : List (List Byte)} (h : Idle S A size fs tail chunks.flatten)
    (hsize : size < 2 ^ 31) (hcut : Cut tail) : Ends H A size fs tail [] (recvAll H S chunks) := by
  induction chunks generalizing S A fs with
  | nil => exact .inl ⟨S, A, fs, rfl, h, List.suffix_rfl, rfl⟩
  | cons chunk chunks ih =>
    rw [recvAll]
    have hchunk : Ends H A size fs tail chunks.flatten (S.sdkSsvrRecvProc H chunk) :=
      recvProcLoop_ends h hsize hcut le_rfl
    rcases hchunk with ⟨S', A', fs', hr, hidle, hsuf, hfeed⟩ | ⟨S', hr, hfail⟩ | ⟨S', A', fs', hr, hend⟩
    · rw [hr]
      exact (ih hidle).of_feed hsuf hfeed
    · rw [hr]
      exact .inr (.inl ⟨S', rfl, hfail⟩)
    · rw [hr]
      exact .inr (.inr ⟨S', A', fs', rfl, hend⟩)

theorem init_idle (mem : Blocks) (size : Nat) (s : σ) (fs : List Frame) (tail : List Byte) :
    Idle (init mem size s) (.init s) size fs tail (fs.flatMap Frame.wire ++ tail) where
  sim := ⟨rfl, rfl, fun _ h => by cases h⟩
  ok := rfl
  pending := ⟨le_rfl, Nat.zero_le _, rfl, rfl⟩
  short := by
    have : 0 < mesgHeaderSize := by decide
    cases fs with
    | nil =>
      rw [nextSize]
      split
      · exact this
      · exact Nat.lt_of_lt_of_le this (Nat.le_add_right _ _)
    | cons f fs => exact Nat.lt_of_lt_of_le this f.header_le
  front _ := rfl

/-- When nothing is to come any more, no frame is left. -/
theorem Idle.done {size : Nat} (h : Idle S A size fs tail []) : fs = [] := by
  cases fs with
  | nil => rfl
  | cons f fs =>
    have hlen := congrArg List.length h.pending.stream
    have hshort : S.iptr - S.optr < f.size := h.short
    have hsize : f.wire.length = f.size := f.length_eq
    simp only [List.append_nil, bytes, Blocks.length_read, List.flatMap_cons, List.length_append] at hlen
    omega

/-- A client that waits for no acknowledgement, and goes online or not. -/
def online (accepted : Bool) : Handlers Unit where
  ackSucc s _ := (s, false)
  pong s := s
  ping s := s
  onlineAck s _ := (s, accepted)
  exp s _ := s
  offline s := s

end Recv

end BeehiveIm.Sdk
