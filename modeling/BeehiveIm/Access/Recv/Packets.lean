/-
The callback gets the packets of the stream, however the reads cut it: what a connection has
received of the packet at hand is the beginning of the packets still to come. Lengths are kept in
`int`s, so a packet is to be no longer than these go; one of no bytes is received without end.
-/
import BeehiveIm.Access.Recv

namespace BeehiveIm.Access

open BeehiveIm.Lib

theorem int_natCast {n : Nat} (h : n ≤ INT_MAX) : int n = n := by
  unfold INT_MAX at h
  exact Int.bmod_eq_of_le (by omega) (by omega)

/-- Bytes, or a signal that interrupts the `read` -/
def Read.Brings : Read → Prop
  | .data _ | .eintr => True
  | _ => False

/-- A packet: a head, and a body of the length the head says, that fit the buffer. -/
structure Protocol.IsPacket {σ : Type} (P : Protocol σ) (p : List Byte) : Prop where
  head_le : P.perPacketHeadSize ≤ p.length
  length : p.length = P.perPacketHeadSize + P.getPacketBodySize (p.take P.perPacketHeadSize)
  fits : p.length ≤ P.size

/-- A packet that has bytes to wait for, as many as an `int` counts. -/
structure Protocol.Counts {σ : Type} (P : Protocol σ) (p : List Byte) : Prop extends P.IsPacket p where
  pos : 0 < p.length
  le_max : p.length ≤ INT_MAX

namespace Recv

variable {σ : Type} {P : Protocol σ} {S : Recv σ} {reads : List Read} {ps : List (List Byte)} {later : List Byte}

theorem arrived_data (bytes : List Byte) (reads : List Read) :
    arrived (.data bytes :: reads) = bytes ++ arrived reads := rfl

/-! ## Reading -/

/-- The first `n` bytes of the buffer. -/
abbrev buff (S : Recv σ) (n : Nat) : List Byte := S.mem.read S.addr 0 n

theorem left_eq {t o : Nat} (hoff : S.off = o) (hot : o ≤ t) (hmax : t ≤ INT_MAX) :
    int (t - S.off) = (t - o : Nat) := by
  rw [hoff, ← Int.ofNat_sub hot, int_natCast ((Nat.sub_le t o).trans hmax)]

theorem store_off {o : Nat} {bytes : List Byte} (hoff : S.off = o) (hmax : o + bytes.length ≤ INT_MAX) :
    (S.store bytes).off = (o + bytes.length : Nat) := by
  rw [store, hoff, ← Int.natCast_add, int_natCast hmax]

theorem buff_store {o : Nat} (hoff : S.off = o) (bytes : List Byte) :
    (S.store bytes).buff (o + bytes.length) = S.buff o ++ bytes := by
  simp only [store, hoff, Int.toNat_natCast]
  exact Blocks.read_write_append (Nat.zero_add o).symm

/-- The first `m` bytes of `bytes` have been read behind the first `o` of the buffer. -/
structure Reads (S : Recv σ) (bytes : List Byte) (o m : Nat) (S' : Recv σ) (reads' : List Read) : Prop where
  phase : S'.phase = S.phase
  addr : S'.addr = S.addr
  off : S'.off = (o + m : Nat)
  total : S'.total = S.total
  user : S'.user = S.user
  received : S'.received = S.received
  buff : S'.buff (o + m) = S.buff o ++ bytes.take m
  arrived : arrived reads' = bytes.drop m
  brings : ∀ r ∈ reads', r.Brings

theorem Reads.zero {o : Nat} (hoff : S.off = o) (hbrings : ∀ r ∈ reads, r.Brings) :
    S.Reads (Recv.arrived reads) o 0 S reads :=
  ⟨rfl, rfl, hoff, rfl, rfl, rfl, by simp, by simp, hbrings⟩

theorem Reads.data {o m : Nat} {bytes rest : List Byte} {S' : Recv σ} {reads' : List Read} (hoff : S.off = o)
    (h : (S.store bytes).Reads rest (o + bytes.length) m S' reads') :
    S.Reads (bytes ++ rest) o (bytes.length + m) S' reads' where
  phase := h.phase
  addr := h.addr
  off := by rw [← Nat.add_assoc, h.off]
  total := h.total
  user := h.user
  received := h.received
  buff := by rw [← Nat.add_assoc, h.buff, buff_store hoff, List.take_length_add_append, List.append_assoc]
  arrived := by rw [h.arrived, List.drop_length_add_append]
  brings := h.brings

/-- It reads all it is to read, or all there is. -/
theorem recvLoop_reads {t o : Nat} (reset : Ret) (hot : o ≤ t) (hmax : t ≤ INT_MAX) (hoff : S.off = o)
    (hbrings : ∀ r ∈ reads, r.Brings) : ∃ S' reads', S.Reads (arrived reads) o
      (min (t - o) (arrived reads).length) S' reads' ∧
      recvLoop t reset reads S = (S', reads', if t - o ≤ (arrived reads).length then .ok else .sckAgain) := by
  induction reads generalizing S o with
  | nil =>
    refine ⟨S, [], Nat.min_zero (t - o) ▸ Reads.zero hoff hbrings, ?_⟩
    rw [recvLoop.eq_def]
    simp only [left_eq hoff hot hmax]
    rcases Nat.eq_zero_or_pos (t - o) with hleft | hleft
    · simp [hleft]
    · rw [if_neg (by omega), if_neg (by omega), if_neg (by exact hleft.not_ge)]
  | cons r reads ih =>
    rw [recvLoop.eq_def]
    simp only [left_eq hoff hot hmax]
    rcases Nat.eq_zero_or_pos (t - o) with hleft | hleft
    · -- a read of no bytes
      refine ⟨S, r :: reads, ?_, by simp [hleft]⟩
      rw [hleft, Nat.zero_min]
      exact Reads.zero hoff hbrings
    rw [if_neg (by omega), if_neg (by omega)]
    have hrest : ∀ r ∈ reads, r.Brings := fun r hr => hbrings r (List.mem_cons_of_mem _ hr)
    cases r with
    | data bytes =>
      simp only [arrived_data, List.length_append, Int.toNat_natCast]
      by_cases hshort : bytes.length < t - o
      · rw [if_pos (by omega)]
        have hoff' : (S.store bytes).off = (o + bytes.length : Nat) := store_off hoff (by omega)
        obtain ⟨S', reads', hreads, hloop⟩ := ih (by omega) hoff' hrest
        refine ⟨S', reads', ?_, ?_⟩
        · rw [show min (t - o) (bytes.length + (arrived reads).length) =
            bytes.length + min (t - (o + bytes.length)) (arrived reads).length by omega]
          exact hreads.data hoff
        · rw [hloop]
          have hiff : t - (o + bytes.length) ≤ (arrived reads).length ↔
              t - o ≤ bytes.length + (arrived reads).length := by
            omega
          simp only [hiff]
      · -- what is more than it asks for stays
        rw [if_neg (by omega), if_pos (by omega)]
        have hlen : (bytes.take (t - o)).length = t - o := by
          rw [List.length_take]
          omega
        refine ⟨_, _, ?_, rfl⟩
        rw [show min (t - o) (bytes.length + (arrived reads).length) = (bytes.take (t - o)).length + 0 by omega]
        have hstay : bytes ++ arrived reads = bytes.take (t - o) ++ arrived (.data (bytes.drop (t - o)) :: reads) := by
          rw [arrived_data, ← List.append_assoc, List.take_append_drop]
        have hoff' : (S.store (bytes.take (t - o))).off = (o + (bytes.take (t - o)).length : Nat) :=
          store_off hoff (by omega)
        rw [hstay]
        refine .data hoff (.zero hoff' ?_)
        rintro r (_ | ⟨_, hr⟩)
        · trivial
        · exact hrest r hr
    | eintr => exact ih hot hoff hrest
    | eof => exact absurd (hbrings .eof List.mem_cons_self) id
    | econnreset => exact absurd (hbrings .econnreset List.mem_cons_self) id
    | failed => exact absurd (hbrings .failed List.mem_cons_self) id

theorem buff_take {k n : Nat} (h : k ≤ n) : (S.buff n).take k = S.buff k := by
  obtain ⟨m, rfl⟩ := Nat.exists_eq_add_of_le h
  rw [buff, Blocks.read_add, List.take_left' Blocks.length_read]

theorem Reads.buff_le {o m k : Nat} {bytes : List Byte} {S' : Recv σ} {reads' : List Read}
    (h : S.Reads bytes o m S' reads') (hk : k ≤ o) : S'.buff k = S.buff k := by
  rw [← buff_take (hk.trans (Nat.le_add_right o m)), h.buff, List.take_append_of_le_length (by simpa using hk),
    buff_take hk]

theorem Reads.stream {o m : Nat} {bytes : List Byte} {S' : Recv σ} {reads' : List Read}
    (h : S.Reads bytes o m S' reads') : S'.buff (o + m) ++ Recv.arrived reads' = S.buff o ++ bytes := by
  rw [h.buff, h.arrived, List.append_assoc, List.take_append_drop]

theorem Reads.bodySize {o m : Nat} {bytes : List Byte} {S' : Recv σ} {reads' : List Read}
    (h : S.Reads bytes o m S' reads') (hk : P.perPacketHeadSize ≤ o) : S'.bodySize P = S.bodySize P :=
  congrArg P.getPacketBodySize (h.buff_le hk)

/-! ## A packet -/

/-- The packet at hand is the next one, and what its head says is its length. -/
theorem packet_of_head {p : List Byte} {tl : List (List Byte)} (hp : P.IsPacket p) {o : Nat} {rest : List Byte}
    (ho : P.perPacketHeadSize ≤ o) (hstream : S.buff o ++ rest = (p :: tl).flatten) :
    p.length = P.perPacketHeadSize + S.bodySize P := by
  have htake := congrArg (List.take P.perPacketHeadSize) hstream
  rw [List.take_append_of_le_length (by simpa using ho), buff_take ho, List.flatten_cons,
    List.take_append_of_le_length hp.head_le] at htake
  rw [hp.length, ← htake]
  rfl

theorem exists_cons {n : Nat} {rest : List Byte} (hn : 0 < n) (hstream : S.buff n ++ rest = ps.flatten) :
    ∃ p tl, ps = p :: tl := by
  cases ps with
  | nil =>
    have := congrArg List.length hstream
    simp at this
    omega
  | cons p tl => exact ⟨p, tl, rfl⟩

/-- Behind a head there are bytes to wait for, also where there is no head and no packet is left. -/
theorem head_counts (hP : ∃ p, P.Counts p) (hps : ∀ p ∈ ps, P.Counts p) {rest : List Byte}
    (hstream : S.buff P.perPacketHeadSize ++ rest = ps.flatten) :
    0 < P.perPacketHeadSize + S.bodySize P ∧ P.perPacketHeadSize + S.bodySize P ≤ INT_MAX := by
  cases ps with
  | nil =>
    obtain ⟨p, hp⟩ := hP
    have hzero : P.perPacketHeadSize = 0 := by
      have := congrArg List.length hstream
      simp at this
      exact this.1
    have hlen : p.length = P.perPacketHeadSize + S.bodySize P := by
      rw [hp.length, bodySize, hzero]
      simp
    rw [← hlen]
    exact ⟨hp.pos, hp.le_max⟩
  | cons p tl =>
    have hp := hps p List.mem_cons_self
    rw [← packet_of_head hp.toIsPacket le_rfl hstream]
    exact ⟨hp.pos, hp.le_max⟩

/-- A stream whose first `p.length` bytes are in the buffer. -/
theorem packet_in_buff {p rest : List Byte} {tl : List (List Byte)}
    (hstream : S.buff p.length ++ rest = (p :: tl).flatten) : S.buff p.length = p ∧ rest = tl.flatten :=
  List.append_inj hstream (by simp)

/-- Between two calls: nothing has been read of the packets `ps`, or the beginning of a head or of a
body. -/
def Waits (P : Protocol σ) (S : Recv σ) (ps : List (List Byte)) (later : List Byte) : Prop :=
  S.phase = .recvInit ∧ later = ps.flatten ∨
    ∃ o : Nat, S.off = o ∧ S.buff o ++ later = ps.flatten ∧
      (S.phase = .recvHead ∧ o < P.perPacketHeadSize ∧ S.total = P.perPacketHeadSize ∨
        S.phase = .recvBody ∧ P.perPacketHeadSize ≤ o ∧ o < P.perPacketHeadSize + S.bodySize P ∧
          P.perPacketHeadSize + S.bodySize P ≤ INT_MAX ∧ S.total = (P.perPacketHeadSize + S.bodySize P : Nat))

/-- What a turn with `n` bytes to read comes to. -/
inductive Turns (P : Protocol σ) (S : Recv σ) (ps : List (List Byte)) (later : List Byte) (n : Nat) :
    Recv σ × List Read × Option Ret → Prop where
  /-- It waits for more. -/
  | waits {S' reads'} (addr : S'.addr = S.addr) (received : S'.received = S.received) (user : S'.user = S.user)
    (waits : S'.Waits P ps later) :
    Turns P S ps later n (S', reads', some .sckAgain)
  /-- A packet is handed to the callback. -/
  | hands {S' reads' p tl} (hps : ps = p :: tl) (addr : S'.addr = S.addr + 1)
    (received : S'.received = S.received ++ [p])
    (user : S'.user = (P.receive S.user p).1)
    (waits : (P.receive S.user p).2 → S'.Waits P tl (arrived reads' ++ later))
    (brings : ∀ r ∈ reads', r.Brings) (less : (arrived reads').length < n) :
    Turns P S ps later n (S', reads', if (P.receive S.user p).2 then none else some .err)
  /-- There is no buffer. -/
  | starves {S' reads'} (received : S'.received = S.received) (alloc : P.alloc S.addr = false) :
    Turns P S ps later n (S', reads', some .err)

theorem Turns.congr {S₁ : Recv σ} {n : Nat} {r : Recv σ × List Read × Option Ret} (h : S₁.Turns P ps later n r)
    (haddr : S₁.addr = S.addr) (hreceived : S₁.received = S.received) (huser : S₁.user = S.user) :
    S.Turns P ps later n r := by
  cases h with
  | waits addr received user waits =>
    exact .waits (addr.trans haddr) (received.trans hreceived) (user.trans huser) waits
  | hands hps addr received user waits brings less =>
    rw [huser] at user waits ⊢
    exact .hands hps (haddr ▸ addr) (hreceived ▸ received) user waits brings less
  | starves received alloc => exact .starves (received.trans hreceived) (haddr ▸ alloc)

variable {n : Nat}

theorem recvPost_turns {p : List Byte} {tl : List (List Byte)} (hlen : p.length = P.perPacketHeadSize + S.bodySize P)
    (hbrings : ∀ r ∈ reads, r.Brings) (hstream : S.buff p.length ++ (arrived reads ++ later) = (p :: tl).flatten)
    (hn : (arrived reads).length < n) : S.Turns P (p :: tl) later n (S.recvPost P reads) := by
  obtain ⟨hbuff, hrest⟩ := packet_in_buff hstream
  have hpacket : S.mem.read S.addr 0 (S.bodySize P + P.perPacketHeadSize) = p := by
    rw [Nat.add_comm, ← hlen]
    exact hbuff
  have hres : S.recvPost P reads = ({ S with
      phase := if (P.receive S.user p).2 then .recvInit else S.phase, addr := S.addr + 1,
      user := (P.receive S.user p).1, received := S.received ++ [p] }, reads,
      if (P.receive S.user p).2 then none else some .err) := by
    unfold recvPost accRecvPostHdl
    simp only [hpacket]
    split <;> rfl
  rw [hres]
  exact .hands rfl rfl rfl rfl (fun hok => .inl ⟨if_pos hok, hrest⟩) hbrings hn

theorem recvBody_turns (hps : ∀ p ∈ ps, P.Counts p) {o : Nat} (hphase : S.phase = .recvBody) (hoff : S.off = o)
    (ho : P.perPacketHeadSize ≤ o) (hlt : o < P.perPacketHeadSize + S.bodySize P)
    (hmax : P.perPacketHeadSize + S.bodySize P ≤ INT_MAX)
    (htotal : S.total = (P.perPacketHeadSize + S.bodySize P : Nat)) (hbrings : ∀ r ∈ reads, r.Brings)
    (hstream : S.buff o ++ (arrived reads ++ later) = ps.flatten) (hn : (arrived reads).length ≤ n) :
    S.Turns P ps later n (S.recvBody P reads) := by
  obtain ⟨S', reads', hreads, hloop⟩ := recvLoop_reads .err hlt.le hmax hoff hbrings
  have hbody := hreads.bodySize ho
  rw [← List.append_assoc, ← hreads.stream, List.append_assoc] at hstream
  unfold recvBody accRecvBody
  rw [htotal, hloop]
  by_cases hall : P.perPacketHeadSize + S.bodySize P - o ≤ (arrived reads).length
  · rw [if_pos hall]
    rw [Nat.min_eq_left hall, Nat.add_sub_cancel' hlt.le] at hstream
    obtain ⟨p, tl, rfl⟩ := exists_cons (by omega) hstream
    have hlen := packet_of_head (hps p List.mem_cons_self).toIsPacket (ho.trans hlt.le) hstream
    rw [← hbody, ← hlen] at hstream
    refine (recvPost_turns (S := { S' with phase := .recvPost }) hlen hreads.brings hstream ?_).congr hreads.addr
      hreads.received hreads.user
    rw [hreads.arrived, List.length_drop]
    omega
  · rw [if_neg hall]
    have hnone : arrived reads' = [] := by
      rw [hreads.arrived]
      exact List.drop_eq_nil_of_le (by omega)
    refine .waits hreads.addr hreads.received hreads.user (.inr ⟨_, hreads.off, ?_, .inr ⟨?_, ?_, ?_, ?_, ?_⟩⟩)
    · rwa [hnone] at hstream
    · exact hreads.phase.trans hphase
    · omega
    · rw [hbody]
      omega
    · rwa [hbody]
    · rw [hbody, ← htotal]
      exact hreads.total

theorem Counts.head_le (hP : ∃ p, P.Counts p) : P.perPacketHeadSize ≤ INT_MAX := by
  obtain ⟨p, hp⟩ := hP
  exact hp.head_le.trans hp.le_max

/-- A head is waited for, or there is none. -/
theorem recvHead_turns (hP : ∃ p, P.Counts p) (hps : ∀ p ∈ ps, P.Counts p) {o : Nat} (hphase : S.phase = .recvHead)
    (hoff : S.off = o) (hlt : o < P.perPacketHeadSize ∨ o = 0) (htotal : S.total = P.perPacketHeadSize)
    (hbrings : ∀ r ∈ reads, r.Brings) (hstream : S.buff o ++ (arrived reads ++ later) = ps.flatten)
    (hn : (arrived reads).length ≤ n) : S.Turns P ps later n (S.recvHead P reads) := by
  have hle : o ≤ P.perPacketHeadSize := by omega
  obtain ⟨S', reads', hreads, hloop⟩ := recvLoop_reads .sckClose hle (Counts.head_le hP) hoff hbrings
  rw [← List.append_assoc, ← hreads.stream, List.append_assoc] at hstream
  have hless : (arrived reads').length + min (P.perPacketHeadSize - o) (arrived reads).length =
      (arrived reads).length := by
    rw [hreads.arrived, List.length_drop]
    omega
  unfold recvHead accRecvHead
  rw [hloop]
  by_cases hall : P.perPacketHeadSize - o ≤ (arrived reads).length
  · rw [if_pos hall]
    rw [Nat.min_eq_left hall] at hless
    rw [Nat.min_eq_left hall, Nat.add_sub_cancel' hle] at hstream
    have hoff' : S'.off = P.perPacketHeadSize := by
      rw [hreads.off]
      omega
    obtain ⟨hpos, hmax⟩ := head_counts hP hps hstream
    simp only
    by_cases hbody : S'.bodySize P = 0
    · -- the packet is its head
      obtain ⟨p, tl, rfl⟩ := exists_cons (by omega) hstream
      have hlen := packet_of_head (hps p List.mem_cons_self).toIsPacket le_rfl hstream
      rw [if_neg (not_not.2 hbody)]
      refine (recvPost_turns (S := { S' with phase := .recvPost }) hlen hreads.brings ?_ ?_).congr hreads.addr
        hreads.received hreads.user
      · rw [hlen, hbody]
        exact hstream
      · omega
    · rw [if_pos hbody]
      unfold readyBody
      have hint : int (S'.total + S'.bodySize P) = (P.perPacketHeadSize + S'.bodySize P : Nat) := by
        have hS' : S'.total = P.perPacketHeadSize := hreads.total.trans htotal
        rw [hS', ← Int.natCast_add, int_natCast hmax]
      exact (recvBody_turns (S := { S' with total := int (S'.total + S'.bodySize P), phase := .recvBody }) hps rfl hoff'
        le_rfl (Nat.lt_add_of_pos_right (Nat.pos_of_ne_zero hbody)) hmax hint hreads.brings hstream (by omega)).congr
        hreads.addr hreads.received hreads.user
  · rw [if_neg hall]
    have hnone : arrived reads' = [] := by
      rw [hreads.arrived]
      exact List.drop_eq_nil_of_le (by omega)
    refine .waits hreads.addr hreads.received hreads.user (.inr ⟨_, hreads.off, ?_, .inl ⟨?_, ?_, ?_⟩⟩)
    · rwa [hnone] at hstream
    · exact hreads.phase.trans hphase
    · omega
    · exact hreads.total.trans htotal

theorem turn_turns (hP : ∃ p, P.Counts p) (hps : ∀ p ∈ ps, P.Counts p) (hbrings : ∀ r ∈ reads, r.Brings)
    (hwaits : S.Waits P ps (arrived reads ++ later)) : S.Turns P ps later (arrived reads).length (S.turn P reads) := by
  rcases hwaits with ⟨hphase, hstream⟩ | ⟨o, hoff, hstream, ⟨hphase, ho, htotal⟩ | ⟨hphase, hle, ho, hmax, htotal⟩⟩
  · unfold turn
    rw [hphase]
    simp only [recvInit]
    have hsize : P.size ≠ 0 := by
      obtain ⟨p, hp⟩ := hP
      exact (hp.pos.trans_le hp.fits).ne'
    cases halloc : P.alloc S.addr with
    | false =>
      rw [if_neg (by simp)]
      exact .starves rfl halloc
    | true =>
      rw [if_pos ⟨hsize, rfl⟩]
      rw [int_natCast (Counts.head_le hP)]
      exact (recvHead_turns (S := { S with off := 0, total := P.perPacketHeadSize, phase := .recvHead }) (o := 0) hP hps
        rfl rfl (.inr rfl) rfl hbrings hstream le_rfl).congr rfl rfl rfl
  · unfold turn
    rw [hphase]
    exact recvHead_turns hP hps hphase hoff (.inl ho) htotal hbrings hstream le_rfl
  · unfold turn
    rw [hphase]
    exact recvBody_turns hps hphase hoff hle ho hmax htotal hbrings hstream le_rfl

/-! ## Calls -/

/-- There is no buffer for one of the packets or behind them, the first being the `addr`-th, or the
callback fails on one that it gets behind the others. -/
def Fails (P : Protocol σ) : Nat → σ → List (List Byte) → Prop
  | addr, _, [] => P.alloc addr = false
  | addr, user, p :: ps =>
    P.alloc addr = false ∨ (P.receive user p).2 = false ∨ Fails P (addr + 1) (P.receive user p).1 ps

/-- What a call comes to: the first of the packets are handed on, and it waits for
the others or has failed. -/
inductive Calls (P : Protocol σ) (S : Recv σ) (ps : List (List Byte)) (later : List Byte) : Recv σ → Ret → Prop where
  | waits {S' hd tl} (hps : ps = hd ++ tl) (addr : S'.addr = S.addr + hd.length)
    (received : S'.received = S.received ++ hd) (user : S'.user = hd.foldl (fun user p => (P.receive user p).1) S.user)
    (waits : S'.Waits P tl later) :
    Calls P S ps later S' .sckAgain
  | fails {S' hd tl} (hps : ps = hd ++ tl) (received : S'.received = S.received ++ hd)
    (fails : Fails P S.addr S.user ps) : Calls P S ps later S' .err

/-- What fails behind packets that have been handed on -/
theorem Fails.behind {tl : List (List Byte)} : ∀ {hd : List (List Byte)} {addr : Nat} {user : σ},
    Fails P (addr + hd.length) (hd.foldl (fun user p => (P.receive user p).1) user) tl → Fails P addr user (hd ++ tl)
  | [], _, _, h => h
  | p :: hd, addr, user, h => .inr (.inr (Fails.behind (by rwa [Nat.add_right_comm, Nat.add_assoc])))

theorem Fails.starved {addr : Nat} {user : σ} (h : P.alloc addr = false) : ∀ ps, Fails P addr user ps
  | [] => h
  | _ :: _ => .inl h

/-- Packets handed on before a call -/
theorem Calls.prepend {S₁ S' : Recv σ} {r : Ret} {hd tl : List (List Byte)} (h : S₁.Calls P tl later S' r)
    (haddr : S₁.addr = S.addr + hd.length) (hreceived : S₁.received = S.received ++ hd)
    (huser : S₁.user = hd.foldl (fun user p => (P.receive user p).1) S.user) : S.Calls P (hd ++ tl) later S' r := by
  cases h with
  | waits hps addr received user waits =>
    refine .waits (by rw [hps, List.append_assoc]) ?_ (by rw [received, hreceived, List.append_assoc]) ?_ waits
    · rw [addr, haddr, List.length_append, Nat.add_assoc]
    · rw [user, huser, List.foldl_append]
  | fails hps received fails =>
    rw [haddr, huser] at fails
    exact .fails (by rw [hps, List.append_assoc]) (by rw [received, hreceived, List.append_assoc]) fails.behind

theorem recvDataLoop_calls (hP : ∃ p, P.Counts p) (fuel : Nat) (hps : ∀ p ∈ ps, P.Counts p)
    (hbrings : ∀ r ∈ reads, r.Brings)
    (hwaits : S.Waits P ps (arrived reads ++ later)) (hfuel : (arrived reads).length < fuel) :
    ∃ S' r, recvDataLoop P fuel S reads = some (S', r) ∧ S.Calls P ps later S' r := by
  induction fuel generalizing S reads ps with
  | zero => exact absurd hfuel (Nat.not_lt_zero _)
  | succ fuel ih =>
    have hturns := turn_turns hP hps hbrings hwaits
    rw [recvDataLoop]
    generalize S.turn P reads = res at hturns
    cases hturns with
    | waits addr received user waits =>
      exact ⟨_, _, rfl, .waits (List.nil_append ps).symm addr (by rw [received, List.append_nil]) user waits⟩
    | @hands S' reads' p tl hps' addr received user waits brings less =>
      subst hps'
      cases hok : (P.receive S.user p).2 with
      | true =>
        obtain ⟨S'', r, hloop, hcalls⟩ :=
          ih (fun p hp => hps p (List.mem_cons_of_mem _ hp)) brings (waits hok) (by omega)
        exact ⟨S'', r, hloop, hcalls.prepend addr (show S'.received = S.received ++ [p] from received) user⟩
      | false => exact ⟨S', .err, rfl, .fails (show p :: tl = [p] ++ tl from rfl) received (.inr (.inl hok))⟩
    | @starves S' reads' received alloc =>
      exact ⟨S', .err, rfl, .fails (List.nil_append ps).symm (by rw [received, List.append_nil]) (.starved alloc ps)⟩

theorem recvAll_calls (hP : ∃ p, P.Counts p) (calls : List (List Read)) (hps : ∀ p ∈ ps, P.Counts p)
    (hbrings : ∀ reads ∈ calls, ∀ r ∈ reads, r.Brings) (hwaits : S.Waits P ps (calls.flatMap arrived)) :
    ∃ S' r, S.recvAll P calls = some (S', r) ∧ S.Calls P ps [] S' r := by
  induction calls generalizing S ps with
  | nil => exact ⟨S, .sckAgain, rfl, .waits (List.nil_append ps).symm rfl (List.append_nil _).symm rfl hwaits⟩
  | cons reads calls ih =>
    obtain ⟨S', r, hcall, hcalls⟩ := recvDataLoop_calls hP _ hps (hbrings reads List.mem_cons_self) hwaits
      (Nat.lt_succ_self _)
    rw [recvAll, accRecvData, hcall]
    cases hcalls with
    | @waits hd tl hps' addr received user waits =>
      subst hps'
      obtain ⟨S'', r, hall, hcalls⟩ := ih (fun p hp => hps p (List.mem_append_right _ hp))
        (fun reads hreads => hbrings reads (List.mem_cons_of_mem _ hreads)) waits
      exact ⟨S'', r, hall, hcalls.prepend addr received user⟩
    | fails hps' received fails => exact ⟨S', .err, rfl, .fails hps' received fails⟩

/-- A connection that waits when the stream is at its end waits for nothing. -/
theorem Waits.done (hps : ∀ p ∈ ps, P.Counts p) (h : S.Waits P ps []) : ps = [] := by
  cases ps with
  | nil => rfl
  | cons p tl =>
    exfalso
    have hp := hps p List.mem_cons_self
    have hpos := hp.pos
    have hle := hp.head_le
    rcases h with ⟨-, hstream⟩ | ⟨o, -, hstream, hphase⟩
    · have := congrArg List.length hstream
      simp at this
      omega
    · have hlen := congrArg List.length hstream
      simp at hlen
      rcases hphase with ⟨-, ho, -⟩ | ⟨-, hle', ho, -⟩
      · omega
      · have hlen' := packet_of_head hp.toIsPacket hle' hstream
        omega

/-- The callback gets the packets of a stream, one after the other, however it is cut into
reads, as long as it succeeds and there are buffers. Of a stream without packets it is asked
that the protocol has some. -/
theorem recv_packets (hps : ∀ p ∈ ps, P.Counts p) (hP : ps = [] → ∃ p, P.Counts p) (mem : Blocks) (user : σ)
    (calls : List (List Read)) (hbrings : ∀ reads ∈ calls, ∀ r ∈ reads, r.Brings)
    (hstream : calls.flatMap arrived = ps.flatten) :
    ∃ S r, (init mem user).recvAll P calls = some (S, r) ∧ S.received <+: ps ∧
      (r = .sckAgain → S.received = ps ∧ S.user = ps.foldl (fun user p => (P.receive user p).1) user) ∧
      (¬Fails P 0 user ps → r = .sckAgain) := by
  have hsome : ∃ p, P.Counts p := by
    cases ps with
    | nil => exact hP rfl
    | cons p tl => exact ⟨p, hps p List.mem_cons_self⟩
  obtain ⟨S, r, hall, hcalls⟩ := recvAll_calls hsome calls hps hbrings (.inl ⟨rfl, hstream⟩ : (init mem user).Waits P ps _)
  refine ⟨S, r, hall, ?_⟩
  cases hcalls with
  | @waits hd tl hps' addr received user waits =>
    subst hps'
    obtain rfl := waits.done fun p hp => hps p (List.mem_append_right _ hp)
    rw [List.append_nil]
    exact ⟨received ▸ List.prefix_rfl, fun _ => ⟨received, user⟩, fun _ => rfl⟩
  | @fails hd tl hps' received fails =>
    subst hps'
    exact ⟨received ▸ List.prefix_append hd tl, (by rintro ⟨⟩), fun h => absurd fails h⟩

/-- Bodies of as many bytes as the byte of the head says; the callback counts. -/
def byteProtocol : Protocol Nat where
  size := 16
  perPacketHeadSize := 1
  getPacketBodySize head := (head.headD 0).toNat
  receive n _ := (n + 1, true)
  alloc _ := true

theorem recv_packets_two : ∃ S r,
    (init (fun _ _ => 0) 0).recvAll byteProtocol [[.data [2, 7]], [.eintr, .data [8, 0]]] = some (S, r) ∧
      S.received <+: [[2, 7, 8], [0]] ∧ (r = .sckAgain → S.received = [[2, 7, 8], [0]] ∧ S.user = 2) ∧
      (¬Fails byteProtocol 0 0 [[2, 7, 8], [0]] → r = .sckAgain) := by
  refine recv_packets (P := byteProtocol) (fun p hp => ?_) (by simp) _ 0 _ (by simp [Read.Brings])
    rfl
  rcases List.mem_pair.1 hp with rfl | rfl
  · exact ⟨⟨by decide, by decide, by decide⟩, by decide, by decide⟩
  · exact ⟨⟨by decide, by decide, by decide⟩, by decide, by decide⟩

/-- Packets of one length; nothing fails. -/
def fixedProtocol (size head body : Nat) : Protocol Unit where
  size := size
  perPacketHeadSize := head
  getPacketBodySize _ := body
  receive _ _ := ((), true)
  alloc _ := true

theorem fixed_not_fails (size head body : Nat) : ∀ (ps : List (List Byte)) (addr : Nat),
    ¬Fails (fixedProtocol size head body) addr () ps
  | [], _ => by simp [Fails, fixedProtocol]
  | p :: ps, addr => by
    rintro (h | h | h)
    · cases h
    · cases h
    · exact fixed_not_fails size head body ps (addr + 1) h

theorem recvLoop_neg {total : Int} {reset : Ret} (h : int (total - S.off) < 0) :
    recvLoop total reset reads S = (S, reads, .err) := by
  rw [recvLoop.eq_def]
  simp only
  rw [if_neg h.ne, if_pos h]

theorem recvBody_neg (h : int (S.total - S.off) < 0) : S.recvBody P reads = (S, reads, some .err) := by
  unfold recvBody accRecvBody
  rw [recvLoop_neg h]

/-- The length of a packet is negative in an `int`, and the connection is closed at its body. -/
theorem long_body_fails (hsize : P.size ≠ 0) (halloc : ∀ k, P.alloc k) (hhead : P.perPacketHeadSize = 1)
    (hbody : ∀ head, P.getPacketBodySize head = INT_MAX + 1) (mem : Blocks) (user : σ) (b : Byte) (body : List Byte) :
    ∃ S, (init mem user).recvAll P [[.data (b :: body)]] = some (S, .err) ∧ S.received = [] := by
  have hint : int 1 = 1 := by decide
  have hneg : int (int (1 + ((INT_MAX + 1 : Nat) : Int)) - 1) < 0 := by decide
  obtain ⟨S, hoff, htotal, hnone, hturn⟩ : ∃ S : Recv σ, S.off = 0 ∧ S.total = 1 ∧ S.received = [] ∧
      (init mem user).turn P [.data (b :: body)] = S.recvHead P [.data (b :: body)] := by
    refine ⟨{ (init mem user) with total := int P.perPacketHeadSize, phase := .recvHead }, rfl, ?_, rfl, ?_⟩
    · simp only [hhead, Nat.cast_one, hint]
    · exact if_pos ⟨hsize, halloc _⟩
  have hstore : S.accRecvHead P [.data (b :: body)] = (S.store [b], [.data body], .ok) := by
    unfold accRecvHead
    rw [recvLoop.eq_def]
    simp [hhead, hoff, hint]
  have hoff' : (S.store [b]).off = 1 := by simp [store, hoff, hint]
  have hfail : ∃ S', S.recvHead P [.data (b :: body)] = (S', [.data body], some .err) ∧ S'.received = [] := by
    rw [recvHead, hstore]
    simp only [bodySize, hbody]
    rw [if_pos (Nat.succ_ne_zero INT_MAX)]
    refine ⟨_, recvBody_neg ?_, hnone⟩
    simp only [bodySize, hbody, hoff']
    rw [show (S.store [b]).total = 1 from htotal]
    exact hneg
  obtain ⟨S', hfail, hnone'⟩ := hfail
  refine ⟨S', ?_, hnone'⟩
  rw [recvAll, accRecvData, recvDataLoop, hturn, hfail]

/-- Packets without a byte are received without end. -/
theorem empty_packets_loop (fuel : Nat) (S : Recv Unit) (h : S.phase = .recvInit) :
    recvDataLoop (fixedProtocol 1 0 0) fuel S [] = none := by
  induction fuel generalizing S with
  | zero => rfl
  | succ fuel ih =>
    obtain ⟨S', hturn, h'⟩ : ∃ S', S.turn (fixedProtocol 1 0 0) [] = (S', [], none) ∧ S'.phase = .recvInit := by
      have hint : int 0 = 0 := by decide
      unfold turn
      rw [h]
      simp [recvInit, recvHead, accRecvHead, recvLoop.eq_def, bodySize, recvPost, accRecvPostHdl, fixedProtocol, hint]
    rw [recvDataLoop, hturn]
    exact ih S' h'

/-- Every protocol's packets that are `ok` are received, each once. -/
def Receives (ok : List Byte → Prop) : Prop :=
  ∀ (P : Protocol Unit) (ps : List (List Byte)) (calls : List (List Read)), ¬Fails P 0 () ps →
    (∀ p ∈ ps, P.IsPacket p ∧ ok p) → (∀ reads ∈ calls, ∀ r ∈ reads, r.Brings) →
    calls.flatMap arrived = ps.flatten →
    ∃ S r, (init (fun _ _ => 0) ()).recvAll P calls = some (S, r) ∧ S.received = ps

/-- A body may be longer than an `int` goes, in a buffer that holds it, and a packet may have
neither head nor body. -/
theorem packet_lost : (¬Receives fun p => 0 < p.length) ∧ ¬Receives fun p => p.length ≤ INT_MAX := by
  constructor
  · intro h
    obtain ⟨body, hlen⟩ : ∃ body : List Byte, body.length = INT_MAX + 1 := ⟨List.replicate _ 0, List.length_replicate⟩
    obtain ⟨S, hrun, hnone⟩ := long_body_fails (P := fixedProtocol (INT_MAX + 2) 1 (INT_MAX + 1)) (Nat.succ_ne_zero _)
      (fun _ => rfl) rfl (fun _ => rfl) (fun _ _ => 0) () 0 body
    have hpacket : ∀ p ∈ [0 :: body], (fixedProtocol (INT_MAX + 2) 1 (INT_MAX + 1)).IsPacket p ∧ 0 < p.length := by
      intro p hp
      rw [List.mem_singleton.1 hp]
      have hlong : (0 :: body).length = 1 + (INT_MAX + 1) := by rw [List.length_cons, hlen, Nat.add_comm]
      exact ⟨⟨by rw [hlong]; exact Nat.le_add_right _ _, hlong, by rw [hlong, Nat.add_comm]; exact le_rfl⟩,
        Nat.succ_pos _⟩
    obtain ⟨S', r, hrun', hall⟩ := h _ [0 :: body] [[.data (0 :: body)]] (fixed_not_fails _ _ _ _ _) hpacket
      (by simp [Read.Brings]) (by simp [arrived])
    rw [hrun] at hrun'
    cases hrun'
    rw [hnone] at hall
    cases hall
  · intro h
    have hpacket : ∀ p ∈ [([] : List Byte)], (fixedProtocol 1 0 0).IsPacket p ∧ p.length ≤ INT_MAX := by
      intro p hp
      rw [List.mem_singleton.1 hp]
      exact ⟨⟨by decide, by decide, by decide⟩, by simp⟩
    obtain ⟨S', r, hrun, -⟩ := h _ [[]] [[]] (fixed_not_fails _ _ _ _ _) hpacket (by simp) rfl
    rw [recvAll, accRecvData, empty_packets_loop _ _ rfl] at hrun
    cases hrun

end Recv

end BeehiveIm.Access
