/-
Whether the `read`s of `acc_recv_data` stay in the receive buffer. The buffer has the size of the
configuration whatever the head of the packet says, and what is left to read comes from the head:
the reads of a run stay in the buffer exactly when the packets whose heads it has received fit it.
-/
import BeehiveIm.Access.Recv

namespace BeehiveIm.Access

open BeehiveIm.Lib

/-- `sizeof(mesg_header_t)` -/
def MESG_HEADER_SIZE : Nat := 52

/-- `lsnd_mesg_body_length` -/
def lsndMesgBodyLength (head : List Byte) : Nat := (beWord ((head.drop 4).take 4)).toNat

/-- The protocol of the listener. -/
def lsndProtocol {σ : Type} (size : Nat) (receive : σ → List Byte → σ × Bool) (alloc : Nat → Bool) : Protocol σ :=
  ⟨size, MESG_HEADER_SIZE, lsndMesgBodyLength, receive, alloc⟩

/-- What a `read` is asked for: `left` bytes, to be put behind the first `off` of the buffer. -/
structure Ask where
  off : Int
  left : Int
  deriving DecidableEq

namespace Recv

variable {σ : Type} {P : Protocol σ} {S S' : Recv σ} {reads reads' : List Read} {W : Int → Int → Prop}

/-! ### The `read`s of a run -/

/-- What the loop of `acc_recv_head` and `acc_recv_body` asks for. -/
def loopAsks (total : Int) : List Read → Recv σ → List Ask
  | reads, S =>
    let left := int (total - S.off)
    ⟨S.off, left⟩ ::
      if left ≤ 0 then []
      else
        match reads with
        | .data bytes :: reads => if bytes.length < left then loopAsks total reads (S.store bytes) else []
        | .eintr :: reads => loopAsks total reads S
        | _ => []

/-- The body is to be received. -/
def ready (P : Protocol σ) (S : Recv σ) : Recv σ := { S with total := int (S.total + S.bodySize P), phase := .recvBody }

def readyBodyAsks (P : Protocol σ) (S : Recv σ) (reads : List Read) : List Ask :=
  loopAsks (S.ready P).total reads (S.ready P)

def recvHeadAsks (P : Protocol σ) (S : Recv σ) (reads : List Read) : List Ask :=
  loopAsks P.perPacketHeadSize reads S ++
    match S.accRecvHead P reads with
    | (S, reads, .ok) => if S.bodySize P ≠ 0 then readyBodyAsks P { S with phase := .readyBody } reads else []
    | _ => []

/-- The head that is received as a whole. -/
def recvHeadHeads (P : Protocol σ) (S : Recv σ) (reads : List Read) : List (List Byte) :=
  match S.accRecvHead P reads with
  | (S, _, .ok) => [S.mem.read S.addr 0 P.perPacketHeadSize]
  | _ => []

/-- A new packet, where there is memory for it. -/
def start (P : Protocol σ) (S : Recv σ) : Option (Recv σ) :=
  if P.size ≠ 0 ∧ P.alloc S.addr then some { S with off := 0, total := int P.perPacketHeadSize, phase := .recvHead }
  else none

def turnAsks (P : Protocol σ) (S : Recv σ) (reads : List Read) : List Ask :=
  match S.phase with
  | .recvInit => (S.start P).elim [] fun S => recvHeadAsks P S reads
  | .recvHead => recvHeadAsks P S reads
  | .readyBody => readyBodyAsks P S reads
  | .recvBody => loopAsks S.total reads S
  | .recvPost => []

def turnHeads (P : Protocol σ) (S : Recv σ) (reads : List Read) : List (List Byte) :=
  match S.phase with
  | .recvInit => (S.start P).elim [] fun S => recvHeadHeads P S reads
  | .recvHead => recvHeadHeads P S reads
  | _ => []

/-- What the turns of a call note down. -/
def dataLog {α : Type} (P : Protocol σ) (note : Recv σ → List Read → List α) : Nat → Recv σ → List Read → List α
  | 0, _, _ => []
  | fuel + 1, S, reads =>
    note S reads ++
      match S.turn P reads with
      | (S, reads, none) => dataLog P note fuel S reads
      | _ => []

/-- What the calls note down, one after the other. -/
def runLog {α : Type} (P : Protocol σ) (note : Recv σ → List Read → List α) (S : Recv σ) : List (List Read) → List α
  | [] => []
  | reads :: calls =>
    dataLog P note ((arrived reads).length + 1) S reads ++
      match S.accRecvData P reads with
      | some (S, .sckAgain) => runLog P note S calls
      | _ => []

/-- What the `read`s of the calls are asked for. -/
def asks (P : Protocol σ) (S : Recv σ) (calls : List (List Read)) : List Ask := runLog P (turnAsks P) S calls

/-- The heads that the calls receive. -/
def heads (P : Protocol σ) (S : Recv σ) (calls : List (List Read)) : List (List Byte) := runLog P (turnHeads P) S calls

/-! ### The loop -/

theorem int_spec (n : Int) : ∃ q : Int, int n = n - 2 ^ 32 * q ∧ -2 ^ 31 ≤ int n ∧ int n < 2 ^ 31 := by
  refine ⟨(n - int n) / 2 ^ 32, ?_⟩
  unfold int
  rw [Int.bmod_def]
  split <;> omega

/-- An `int`. -/
def IsInt (n : Int) : Prop := -2 ^ 31 ≤ n ∧ n < 2 ^ 31

theorem isInt_int (n : Int) : IsInt (int n) := by
  obtain ⟨-, -, hlo, hhi⟩ := int_spec n
  exact ⟨hlo, hhi⟩

/-- What holds of a `read` holds of the next one, which is asked for less and ends where this one
does. -/
def Closed (W : Int → Int → Prop) : Prop := ∀ o l o' l', W o l → 0 < l' → o' + l' ≤ o + l → W o' l'

/-- A `read` that brings less than it is asked for. -/
theorem left_store {total : Int} {bytes : List Byte} (hoff : IsInt S.off) (hlt : bytes.length < int (total - S.off)) :
    0 < int (total - (S.store bytes).off) ∧
      (S.store bytes).off + int (total - (S.store bytes).off) ≤ S.off + int (total - S.off) := by
  show 0 < int (total - int (S.off + bytes.length)) ∧
    int (S.off + bytes.length) + int (total - int (S.off + bytes.length)) ≤ S.off + int (total - S.off)
  obtain ⟨q, hq, -, hhi⟩ := int_spec (total - S.off)
  obtain ⟨q', hq', -, hhi'⟩ := int_spec (S.off + bytes.length)
  obtain ⟨r, hr, hlo, hhi''⟩ := int_spec (total - int (S.off + bytes.length))
  have hle := hoff.1
  constructor
  · omega
  · omega

theorem loopAsks_iff (hW : Closed W) (total : Int) : ∀ (reads : List Read) (S : Recv σ), IsInt S.off →
    ((∀ a ∈ loopAsks total reads S, W a.off a.left) ↔ W S.off (int (total - S.off))) := by
  intro reads
  induction reads with
  | nil =>
    intro S _
    rw [loopAsks.eq_def]
    simp
  | cons r reads ih =>
    intro S hoff
    rw [loopAsks.eq_def]
    simp only [List.forall_mem_cons]
    split
    · simp
    rename_i hleft
    cases r with
    | data bytes =>
      dsimp only
      split
      · rename_i hlt
        rw [ih _ (isInt_int _), and_iff_left_iff_imp]
        intro hask
        have hnext := left_store hoff hlt
        exact hW _ _ _ _ hask hnext.1 hnext.2
      · simp
    | eintr =>
      rw [ih S hoff, and_self_iff]
    | eof => simp
    | econnreset => simp
    | failed => simp

/-- What the loop leaves: at its end nothing is left to read, and before it something is. -/
structure Looped (W : Int → Int → Prop) (n : Int) (S : Recv σ) (reads : List Read) (S' : Recv σ) (reads' : List Read)
    (r : Ret) : Prop where
  phase : S'.phase = S.phase
  total : S'.total = S.total
  off : IsInt S'.off
  arrived : (arrived reads').length ≤ (arrived reads).length
  ok : r = .ok → int (n - S'.off) = 0 ∧
    (0 < int (n - S.off) → (Recv.arrived reads').length < (Recv.arrived reads).length)
  again : r = .sckAgain → 0 < int (n - S'.off) ∧ (W S.off (int (n - S.off)) → W S'.off (int (n - S'.off)))

theorem recvLoop_looped (hW : Closed W) (total : Int) {reset : Ret} (hok : reset ≠ .ok) (hagain : reset ≠ .sckAgain) :
    ∀ (reads : List Read) (S : Recv σ) {S' : Recv σ} {reads' : List Read} {r : Ret}, IsInt S.off →
      recvLoop total reset reads S = (S', reads', r) → Looped W total S reads S' reads' r := by
  intro reads
  induction reads with
  | nil =>
    intro S S' reads' r hoff h
    rw [recvLoop.eq_def] at h
    simp only at h
    split_ifs at h with hzero hneg
    · cases h
      exact ⟨rfl, rfl, hoff, le_rfl, fun _ => ⟨hzero, fun hpos => by omega⟩, nofun⟩
    · cases h
      exact ⟨rfl, rfl, hoff, le_rfl, nofun, nofun⟩
    · cases h
      exact ⟨rfl, rfl, hoff, le_rfl, nofun, fun _ => ⟨by omega, id⟩⟩
  | cons e reads ih =>
    intro S S' reads' r hoff h
    rw [recvLoop.eq_def] at h
    simp only at h
    split_ifs at h with hzero hneg
    · cases h
      exact ⟨rfl, rfl, hoff, le_rfl, fun _ => ⟨hzero, fun hpos => by omega⟩, nofun⟩
    · cases h
      exact ⟨rfl, rfl, hoff, le_rfl, nofun, nofun⟩
    cases e with
    | data bytes =>
      dsimp only at h
      split_ifs at h with hlt
      · have hnext := left_store hoff hlt
        have hrest := ih (S.store bytes) (isInt_int _) h
        have hlen : (arrived (.data bytes :: reads)).length = bytes.length + (arrived reads).length := by
          simp [arrived]
        refine ⟨hrest.phase, hrest.total, hrest.off, ?_, fun hr => ⟨(hrest.ok hr).1, fun _ => ?_⟩,
          fun hr => ⟨(hrest.again hr).1, fun hask => (hrest.again hr).2 (hW _ _ _ _ hask hnext.1 hnext.2)⟩⟩
        · have := hrest.arrived
          omega
        · have := (hrest.ok hr).2 hnext.1
          omega
      · cases h
        -- the last bytes that are asked for
        have hlen : (bytes.take (int (total - S.off)).toNat).length = int (total - S.off) := by
          rw [List.length_take]
          omega
        have hstore : (S.store (bytes.take (int (total - S.off)).toNat)).off = int (S.off + int (total - S.off)) := by
          rw [store, hlen]
        refine ⟨rfl, rfl, isInt_int _, ?_, fun _ => ⟨?_, fun _ => ?_⟩, nofun⟩
        · simp [arrived]
        · rw [hstore]
          obtain ⟨q, hq, -⟩ := int_spec (total - S.off)
          obtain ⟨q', hq', -⟩ := int_spec (S.off + int (total - S.off))
          obtain ⟨r, hr, hlo, hhi⟩ := int_spec (total - int (S.off + int (total - S.off)))
          omega
        · simp only [arrived, List.flatMap_cons, List.length_append, List.length_drop]
          omega
    | eintr =>
      have hrest := ih S hoff h
      exact ⟨hrest.phase, hrest.total, hrest.off, hrest.arrived, hrest.ok, hrest.again⟩
    | eof =>
      cases h
      exact ⟨rfl, rfl, hoff, le_rfl, nofun, nofun⟩
    | econnreset =>
      cases h
      exact ⟨rfl, rfl, hoff, le_rfl, fun h => absurd h hok, fun h => absurd h hagain⟩
    | failed =>
      cases h
      exact ⟨rfl, rfl, hoff, le_rfl, nofun, nofun⟩

/-! ### The turns -/

/-- The head is not empty and an `int`, what it says of the body has 32 bits, and `W`
holds of the first `read`. -/
structure Suits (P : Protocol σ) (W : Int → Int → Prop) : Prop where
  closed : Closed W
  pos : 0 < P.perPacketHeadSize
  le : P.perPacketHeadSize ≤ INT_MAX
  lt (head : List Byte) : P.getPacketBodySize head < 2 ^ 32
  first : W 0 P.perPacketHeadSize

/-- `W` holds of the `read` that a call finds a packet in. -/
def Held (P : Protocol σ) (W : Int → Int → Prop) (S : Recv σ) : Prop :=
  match S.phase with
  | .recvInit => True
  | .recvHead => IsInt S.off ∧ S.total = P.perPacketHeadSize ∧ 0 < int (P.perPacketHeadSize - S.off) ∧
      W S.off (int (P.perPacketHeadSize - S.off))
  | .recvBody => IsInt S.off ∧ 0 < int (S.total - S.off) ∧ W S.off (int (S.total - S.off))
  | _ => False

/-- There is no body, or `W` holds of the first `read` of it. -/
def HeadFits (P : Protocol σ) (W : Int → Int → Prop) (head : List Byte) : Prop :=
  P.getPacketBodySize head = 0 ∨ W P.perPacketHeadSize (int (P.getPacketBodySize head))

/-- What a turn leaves when it goes on, with less than `n` bytes to read, and when there
is nothing left to read. -/
structure Turned (P : Protocol σ) (W : Int → Int → Prop) (n : Nat) (S' : Recv σ) (reads' : List Read) (r : Option Ret) :
    Prop where
  goesOn : r = none → S'.phase = .recvInit ∧ (arrived reads').length < n
  again : r = some .sckAgain → Held P W S'

variable {n : Nat} {r : Option Ret}

theorem recvPost_turned (hn : (arrived reads).length < n) (h : S.recvPost P reads = (S', reads', r)) :
    Turned P W n S' reads' r := by
  unfold recvPost at h
  dsimp only at h
  split_ifs at h
  · cases h
    exact ⟨fun _ => ⟨rfl, hn⟩, nofun⟩
  · cases h
    exact ⟨nofun, nofun⟩

theorem recvBody_turned (hW : Closed W) (hphase : S.phase = .recvBody) (hoff : IsInt S.off)
    (hask : W S.off (int (S.total - S.off)))
    (hn : (arrived reads).length < n ∨ 0 < int (S.total - S.off) ∧ (arrived reads).length ≤ n)
    (h : S.recvBody P reads = (S', reads', r)) : Turned P W n S' reads' r := by
  unfold recvBody at h
  rcases hloop : S.accRecvBody reads with ⟨S₁, reads₁, r₁⟩
  have hlooped : Looped W S.total S reads S₁ reads₁ r₁ :=
    recvLoop_looped hW S.total (by decide) (by decide) reads S hoff hloop
  rw [hloop] at h
  cases r₁ with
  | ok =>
    refine recvPost_turned ?_ h
    rcases hn with hn | ⟨hpos, hn⟩
    · exact hlooped.arrived.trans_lt hn
    · exact ((hlooped.ok rfl).2 hpos).trans_le hn
  | sckAgain =>
    cases h
    refine ⟨nofun, fun _ => ?_⟩
    have hagain := hlooped.again rfl
    unfold Held
    rw [hlooped.phase, hphase]
    simp only [hlooped.total]
    exact ⟨hlooped.off, hagain.1, hagain.2 hask⟩
  | err =>
    cases h
    exact ⟨nofun, nofun⟩
  | sckClose =>
    cases h
    exact ⟨nofun, nofun⟩

/-- A head that has been received as a whole, and its body. -/
theorem readyBody_turned (n : Nat) (S' : Recv σ) (reads reads' : List Read) (r : Option Ret) (hP : Suits P W)
    (hoff : S.off = P.perPacketHeadSize) (htotal : S.total = P.perPacketHeadSize) :
    ((∀ a ∈ readyBodyAsks P S reads, W a.off a.left) ↔ W P.perPacketHeadSize (int (S.bodySize P))) ∧
      (W P.perPacketHeadSize (int (S.bodySize P)) → (arrived reads).length < n →
        S.readyBody P reads = (S', reads', r) → Turned P W n S' reads' r) := by
  have hint : IsInt (S.ready P).off := by
    have hle := hP.le
    unfold INT_MAX at hle
    show IsInt S.off
    rw [hoff]
    constructor
    · omega
    · omega
  -- what is left to read is the body
  have hleft : int ((S.ready P).total - (S.ready P).off) = int (S.bodySize P) := by
    show int (int (S.total + S.bodySize P) - S.off) = int (S.bodySize P)
    unfold int
    rw [Int.bmod_sub_bmod, hoff, htotal, add_sub_cancel_left]
  have hready : W (S.ready P).off (int ((S.ready P).total - (S.ready P).off)) ↔
      W P.perPacketHeadSize (int (S.bodySize P)) := by
    rw [hleft, show (S.ready P).off = S.off from rfl, hoff]
  constructor
  · exact (loopAsks_iff hP.closed _ _ _ hint).trans hready
  · intro hask hn h
    exact recvBody_turned hP.closed rfl hint (hready.2 hask) (.inl hn) h

/-- A packet in whose head the call finds it. -/
theorem recvHead_turned (n : Nat) (S' : Recv σ) (reads reads' : List Read) (r : Option Ret) (hP : Suits P W)
    (hphase : S.phase = .recvHead) (hheld : Held P W S) :
    ((∀ a ∈ recvHeadAsks P S reads, W a.off a.left) ↔ ∀ head ∈ recvHeadHeads P S reads, HeadFits P W head) ∧
      ((∀ head ∈ recvHeadHeads P S reads, HeadFits P W head) → (arrived reads).length ≤ n →
        S.recvHead P reads = (S', reads', r) → Turned P W n S' reads' r) := by
  unfold Held at hheld
  rw [hphase] at hheld
  obtain ⟨hoff, htotal, hpos, hask⟩ := hheld
  have hasks := loopAsks_iff hP.closed P.perPacketHeadSize reads S hoff
  unfold recvHeadAsks recvHeadHeads recvHead
  rcases hloop : S.accRecvHead P reads with ⟨S₁, reads₁, r₁⟩
  have hlooped : Looped W P.perPacketHeadSize S reads S₁ reads₁ r₁ :=
    recvLoop_looped hP.closed _ (by decide) (by decide) reads S hoff hloop
  cases r₁ with
  | ok =>
    have hend : S₁.off = P.perPacketHeadSize := by
      have hzero := (hlooped.ok rfl).1
      obtain ⟨q, hq, -⟩ := int_spec (P.perPacketHeadSize - S₁.off)
      have hle := hP.le
      have hoff₁ := hlooped.off
      unfold INT_MAX at hle
      unfold IsInt at hoff₁
      omega
    have hlt := (hlooped.ok rfl).2 hpos
    have hbody := readyBody_turned (S := { S₁ with phase := .readyBody }) n S' reads₁ reads' r hP hend
      (hlooped.total.trans htotal)
    have hsize : ({ S₁ with phase := .readyBody } : Recv σ).bodySize P = S₁.bodySize P := rfl
    have hfits : HeadFits P W (S₁.mem.read S₁.addr 0 P.perPacketHeadSize) ↔
        S₁.bodySize P = 0 ∨ W P.perPacketHeadSize (int (S₁.bodySize P)) := Iff.rfl
    simp only [List.forall_mem_append, List.forall_mem_singleton, hasks, hask, true_and, hfits]
    by_cases hzero : S₁.bodySize P = 0
    · rw [if_neg (not_not.2 hzero), if_neg (not_not.2 hzero)]
      refine ⟨by simp [hzero], fun _ hn h => ?_⟩
      exact recvPost_turned (hlt.trans_le hn) h
    · rw [if_pos hzero, if_pos hzero]
      simp only [hzero, false_or]
      exact ⟨hbody.1, fun hfit hn h => hbody.2 hfit (hlt.trans_le hn) h⟩
  | sckAgain =>
    simp only [List.append_nil, hasks, hask, true_iff]
    refine ⟨fun _ h => absurd h List.not_mem_nil, fun _ _ h => ?_⟩
    cases h
    refine ⟨nofun, fun _ => ?_⟩
    have hagain := hlooped.again rfl
    unfold Held
    rw [hlooped.phase, hphase]
    exact ⟨hlooped.off, hlooped.total.trans htotal, hagain.1, hagain.2 hask⟩
  | err =>
    simp only [List.append_nil, hasks, hask, true_iff]
    refine ⟨fun _ h => absurd h List.not_mem_nil, fun _ _ h => ?_⟩
    cases h
    exact ⟨nofun, nofun⟩
  | sckClose =>
    simp only [List.append_nil, hasks, hask, true_iff]
    refine ⟨fun _ h => absurd h List.not_mem_nil, fun _ _ h => ?_⟩
    cases h
    exact ⟨nofun, nofun⟩

/-- One turn, from where a call finds the packet. -/
theorem turn_turned (S' : Recv σ) (reads reads' : List Read) (r : Option Ret) (hP : Suits P W) (hheld : Held P W S) :
    ((∀ a ∈ turnAsks P S reads, W a.off a.left) ↔ ∀ head ∈ turnHeads P S reads, HeadFits P W head) ∧
      ((∀ head ∈ turnHeads P S reads, HeadFits P W head) → S.turn P reads = (S', reads', r) →
        Turned P W (arrived reads).length S' reads' r) := by
  unfold turnAsks turnHeads turn
  rcases hphase : S.phase with _ | _ | _ | _ | _
  · unfold start recvInit
    by_cases halloc : P.size ≠ 0 ∧ P.alloc S.addr
    · rw [if_pos halloc, if_pos halloc]
      simp only [Option.elim_some]
      have hhead : int P.perPacketHeadSize = P.perPacketHeadSize := by
        obtain ⟨q, hq, hlo, hhi⟩ := int_spec P.perPacketHeadSize
        have hle := hP.le
        unfold INT_MAX at hle
        omega
      have hpos := hP.pos
      have hstart : Held P W { S with off := 0, total := int P.perPacketHeadSize, phase := .recvHead } := by
        have hint : IsInt 0 := by
          unfold IsInt
          omega
        have hleft : 0 < int (P.perPacketHeadSize - 0) ∧ W 0 (int (P.perPacketHeadSize - 0)) := by
          rw [sub_zero, hhead]
          exact ⟨by omega, hP.first⟩
        unfold Held
        dsimp only
        exact ⟨hint, hhead, hleft⟩
      have h := recvHead_turned (arrived reads).length S' reads reads' r hP rfl hstart
      exact ⟨h.1, fun hfit hturn => h.2 hfit le_rfl hturn⟩
    · rw [if_neg halloc, if_neg halloc]
      refine ⟨by simp, fun _ h => ?_⟩
      cases h
      exact ⟨nofun, nofun⟩
  · have h := recvHead_turned (arrived reads).length S' reads reads' r hP hphase hheld
    exact ⟨h.1, fun hfit hturn => h.2 hfit le_rfl hturn⟩
  · simp [Held, hphase] at hheld
  · simp only [Held, hphase] at hheld
    obtain ⟨hoff, hpos, hask⟩ := hheld
    refine ⟨?_, fun _ h => recvBody_turned hP.closed hphase hoff hask (.inr ⟨hpos, le_rfl⟩) h⟩
    dsimp only
    rw [loopAsks_iff hP.closed _ _ _ hoff]
    simp [hask]
  · simp [Held, hphase] at hheld

/-! ### Runs -/

theorem dataLog_iff (hP : Suits P W) : ∀ (fuel : Nat) (S : Recv σ) (reads : List Read), Held P W S →
    ((∀ a ∈ dataLog P (turnAsks P) fuel S reads, W a.off a.left) ↔
        ∀ head ∈ dataLog P (turnHeads P) fuel S reads, HeadFits P W head) ∧
      ((∀ head ∈ dataLog P (turnHeads P) fuel S reads, HeadFits P W head) → (arrived reads).length < fuel →
        ∃ S' r, recvDataLoop P fuel S reads = some (S', r) ∧ (r = .sckAgain → Held P W S')) := by
  intro fuel
  induction fuel with
  | zero => exact fun S reads _ => ⟨by simp [dataLog], fun _ h => absurd h (Nat.not_lt_zero _)⟩
  | succ fuel ih =>
    intro S reads hheld
    unfold dataLog recvDataLoop
    rcases hturn : S.turn P reads with ⟨S₁, reads₁, r⟩
    have h := turn_turned S₁ reads reads₁ r hP hheld
    cases r with
    | none =>
      simp only [List.forall_mem_append]
      have hinit (hfit : ∀ head ∈ turnHeads P S reads, HeadFits P W head) : Held P W S₁ := by
        unfold Held
        rw [((h.2 hfit hturn).goesOn rfl).1]
        trivial
      constructor
      · rw [h.1]
        exact and_congr_right fun hfit => (ih S₁ reads₁ (hinit hfit)).1
      · rintro ⟨hfit, hrest⟩ hfuel
        have hlt := ((h.2 hfit hturn).goesOn rfl).2
        exact (ih S₁ reads₁ (hinit hfit)).2 hrest (by omega)
    | some r =>
      simp only [List.append_nil]
      refine ⟨h.1, fun hfit _ => ⟨S₁, r, rfl, ?_⟩⟩
      rintro rfl
      exact (h.2 hfit hturn).again rfl

/-- Packets whose heads fit `W` are received to the end. -/
theorem runLog_iff (hP : Suits P W) : ∀ (calls : List (List Read)) (S : Recv σ), Held P W S →
    ((∀ a ∈ asks P S calls, W a.off a.left) ↔ ∀ head ∈ heads P S calls, HeadFits P W head) ∧
      ((∀ head ∈ heads P S calls, HeadFits P W head) → (S.recvAll P calls).isSome) := by
  intro calls
  induction calls with
  | nil => exact fun S _ => ⟨by simp [asks, heads, runLog], fun _ => rfl⟩
  | cons reads calls ih =>
    intro S hheld
    have h := dataLog_iff hP ((arrived reads).length + 1) S reads hheld
    simp only [asks, heads, runLog, recvAll, accRecvData, List.forall_mem_append] at ih ⊢
    constructor
    · rw [h.1]
      refine and_congr_right fun hfit => ?_
      obtain ⟨S', r, hdata, hagain⟩ := h.2 hfit (Nat.lt_succ_self _)
      rw [hdata]
      cases r with
      | sckAgain => exact (ih S' (hagain rfl)).1
      | ok => simp
      | err => simp
      | sckClose => simp
    · rintro ⟨hfit, hrest⟩
      obtain ⟨S', r, hdata, hagain⟩ := h.2 hfit (Nat.lt_succ_self _)
      rw [hdata] at hrest ⊢
      cases r with
      | sckAgain => exact (ih S' (hagain rfl)).2 hrest
      | ok => rfl
      | err => rfl
      | sckClose => rfl

end Recv

/-! ## The listener -/

namespace Recv

variable {σ : Type} {size : Nat} {receive : σ → List Byte → σ × Bool} {alloc : Nat → Bool} {mem : Blocks} {u : σ}

theorem lsndMesgBodyLength_lt (head : List Byte) : lsndMesgBodyLength head < 2 ^ 32 := BitVec.isLt _

theorem loopAsks_first (total : Int) (reads : List Read) (S : Recv σ) :
    ⟨S.off, int (total - S.off)⟩ ∈ loopAsks total reads S := by
  rw [loopAsks.eq_def]
  exact .head _

/-- The first `read` is for the head. -/
theorem asks_first (P : Protocol σ) (reads : List Read) (calls : List (List Read)) (h : P.size ≠ 0 ∧ P.alloc 0) :
    ⟨0, int (P.perPacketHeadSize - 0)⟩ ∈ asks P (.init mem u) (reads :: calls) := by
  have hstart : (init mem u).start P = some { init mem u with total := int P.perPacketHeadSize, phase := .recvHead } :=
    if_pos h
  have hturn : ⟨0, int (P.perPacketHeadSize - 0)⟩ ∈ turnAsks P (.init mem u) reads := by
    show _ ∈ ((init mem u).start P).elim [] fun S => recvHeadAsks P S reads
    rw [hstart]
    exact List.mem_append_left _ (loopAsks_first _ reads _)
  exact List.mem_append_left _ (List.mem_append_left _ hturn)

/-- Without memory there is no `read`. -/
theorem logs_nil (P : Protocol σ) (mem : Blocks) (u : σ) (reads : List Read) (calls : List (List Read))
    (h : ¬(P.size ≠ 0 ∧ P.alloc 0)) :
    asks P (.init mem u) (reads :: calls) = [] ∧ heads P (.init mem u) (reads :: calls) = [] := by
  have hstart : (init mem u).start P = none := if_neg h
  have hturn : (init mem u).turn P reads = (init mem u, reads, some .err) := if_neg h
  have hdata : (init mem u).accRecvData P reads = some (init mem u, .err) := by
    unfold accRecvData recvDataLoop
    rw [hturn]
  have hasks : turnAsks P (.init mem u) reads = [] := by
    show ((init mem u).start P).elim [] _ = []
    rw [hstart]
    rfl
  have hheads : turnHeads P (.init mem u) reads = [] := by
    show ((init mem u).start P).elim [] _ = []
    rw [hstart]
    rfl
  constructor
  · simp only [asks, runLog, dataLog, hturn, hasks, hdata, List.append_nil]
  · simp only [heads, runLog, dataLog, hturn, hheads, hdata, List.append_nil]

/-- The `read`s of a run of the listener go as far as `W` says if those for the heads and, as `Q`
says of each head, those for the bodies do. -/
theorem lsnd_asks_iff {Q : List Byte → Prop} (hW : Closed W) (hfirst : W 0 MESG_HEADER_SIZE ↔ MESG_HEADER_SIZE ≤ size)
    (hQ : MESG_HEADER_SIZE ≤ size → ∀ head, HeadFits (lsndProtocol size receive alloc) W head ↔ Q head)
    (calls : List (List Read)) :
    (∀ a ∈ asks (lsndProtocol size receive alloc) (.init mem u) calls, W a.off a.left) ↔
      (calls ≠ [] → size ≠ 0 → alloc 0 → MESG_HEADER_SIZE ≤ size) ∧
        ∀ head ∈ heads (lsndProtocol size receive alloc) (.init mem u) calls, Q head := by
  cases calls with
  | nil => simp [asks, heads, runLog]
  | cons reads calls =>
    by_cases hmem : size ≠ 0 ∧ alloc 0
    · by_cases hsize : MESG_HEADER_SIZE ≤ size
      · have hP : Suits (lsndProtocol size receive alloc) W :=
          ⟨hW, (by decide : 0 < MESG_HEADER_SIZE), (by decide : MESG_HEADER_SIZE ≤ INT_MAX), lsndMesgBodyLength_lt,
            hfirst.2 hsize⟩
        rw [(runLog_iff hP (reads :: calls) (.init mem u) trivial).1]
        simp only [hQ hsize, hsize, implies_true, true_and]
      · refine iff_of_false (fun hall => ?_) fun hall => hsize (hall.1 (List.cons_ne_nil _ _) hmem.1 hmem.2)
        have hint : int (MESG_HEADER_SIZE - 0) = MESG_HEADER_SIZE := by decide
        have hhead := hall _ (asks_first (lsndProtocol size receive alloc) reads calls hmem)
        dsimp only [lsndProtocol] at hhead
        rw [hint] at hhead
        exact hsize (hfirst.1 hhead)
    · obtain ⟨hasks, hheads⟩ := logs_nil (lsndProtocol size receive alloc) mem u reads calls hmem
      rw [hasks, hheads]
      refine iff_of_true (by simp) ⟨fun _ hne halloc => absurd ⟨hne, halloc⟩ hmem, by simp⟩

/-- In every run of the listener the offset and what is left to read stay in the buffer as long as
the buffer holds a head and the packet of each head received, but for bodies that an `int` cannot
count; and with these the `read`s are asked for less than no byte. -/
theorem lsnd_reads_fit_iff (size : Nat) (receive : σ → List Byte → σ × Bool) (alloc : Nat → Bool) (mem : Blocks) (u : σ)
    (calls : List (List Read)) :
    ((∀ a ∈ asks (lsndProtocol size receive alloc) (.init mem u) calls, a.off + a.left ≤ size) ↔
      (calls ≠ [] → size ≠ 0 → alloc 0 → MESG_HEADER_SIZE ≤ size) ∧
        ∀ head ∈ heads (lsndProtocol size receive alloc) (.init mem u) calls,
          MESG_HEADER_SIZE + lsndMesgBodyLength head ≤ size ∨ INT_MAX < lsndMesgBodyLength head) ∧
    ((∀ a ∈ asks (lsndProtocol size receive alloc) (.init mem u) calls, 0 ≤ a.left ∧ a.off + a.left ≤ size) ↔
      (calls ≠ [] → size ≠ 0 → alloc 0 → MESG_HEADER_SIZE ≤ size) ∧
        ∀ head ∈ heads (lsndProtocol size receive alloc) (.init mem u) calls,
          MESG_HEADER_SIZE + lsndMesgBodyLength head ≤ size ∧ lsndMesgBodyLength head ≤ INT_MAX) := by
  have hbody (head : List Byte) : lsndMesgBodyLength head < 2 ^ 32 ∧
      int (lsndMesgBodyLength head) = if lsndMesgBodyLength head ≤ INT_MAX then (lsndMesgBodyLength head : Int)
        else lsndMesgBodyLength head - 2 ^ 32 := by
    have hlt := lsndMesgBodyLength_lt head
    obtain ⟨q, hq, hlo, hhi⟩ := int_spec (lsndMesgBodyLength head)
    unfold INT_MAX
    refine ⟨hlt, ?_⟩
    split
    · omega
    · omega
  constructor
  · refine lsnd_asks_iff (W := fun o l => o + l ≤ size) ?_ ?_ ?_ calls
    · intro o l o' l' h _ hle
      exact hle.trans h
    · rw [zero_add, Int.ofNat_le]
    · intro hsize head
      obtain ⟨hlt, hint⟩ := hbody head
      show lsndMesgBodyLength head = 0 ∨ (MESG_HEADER_SIZE : Int) + int (lsndMesgBodyLength head) ≤ size ↔ _
      rw [hint]
      split
      · omega
      · omega
  · refine lsnd_asks_iff (W := fun o l => 0 ≤ l ∧ o + l ≤ size) ?_ ?_ ?_ calls
    · intro o l o' l' h hpos hle
      exact ⟨hpos.le, hle.trans h.2⟩
    · rw [zero_add, Int.ofNat_le, and_iff_right (Int.natCast_nonneg _)]
    · intro hsize head
      obtain ⟨hlt, hint⟩ := hbody head
      show lsndMesgBodyLength head = 0 ∨ 0 ≤ int (lsndMesgBodyLength head) ∧
        (MESG_HEADER_SIZE : Int) + int (lsndMesgBodyLength head) ≤ size ↔ _
      rw [hint]
      split
      · omega
      · omega

/-- A head that announces 100 bytes, at a listener with buffers of 64. -/
theorem lsnd_body_overruns :
    ¬∀ (size : Nat) (receive : Unit → List Byte → Unit × Bool) (alloc : Nat → Bool) (mem : Blocks)
      (calls : List (List Read)),
      ∀ a ∈ asks (lsndProtocol size receive alloc) (.init mem ()) calls, a.off + a.left ≤ size := by
  intro h
  have hask := h 64 (fun u _ => (u, true)) (fun _ => true) (fun _ _ => 0)
    [[.data ([0, 0, 0, 0, 0, 0, 0, 100] ++ List.replicate 44 0)]] ⟨52, 100⟩ (by decide)
  exact absurd hask (by decide)

end Recv

end BeehiveIm.Access
