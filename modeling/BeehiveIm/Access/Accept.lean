/-
How connections are accepted (`acc_lsn.c`). The number of a connection is a `uint64_t` in the
counter and wherever it is kept, but an `int` where the receiver is chosen: the two agree for the
first 2^31 - 1 connections, and then for as long as the number of receivers divides what comes.
-/
import BeehiveIm.Access.Kick
import BeehiveIm.Core.HashTab.Slots
import Mathlib.Data.List.Nodup

namespace BeehiveIm.Access

open BeehiveIm.Core

/-- `conf->rsvr_num`, an `int`. -/
structure AccConf where
  rsvrNum : Nat
  pos : 0 < rsvrNum
  lt : rsvrNum < 2 ^ 31

/-- A connection that is handed on: the queue it is put in, and its number there. -/
structure AddSck where
  idx : Nat
  cid : BitVec 64
  deriving DecidableEq

/-- `listen.cid`, the queues, and, which nobody keeps, the connections handed on so far. -/
structure Listen where
  cid : BitVec 64
  connq : Nat → List (BitVec 64)
  given : List AddSck

/-- `acc_init` -/
def Listen.init : Listen := ⟨0, fun _ => [], []⟩

/-- A call finds the lock taken, `accept` fails, or there is a connection; `place` is whether its
queue has a free block. -/
inductive Accept where
  | busy
  | failed
  | accepted (place : Bool)

namespace AccConf

variable (conf : AccConf)

/-- `ACC_GET_RID_BY_CID` of an `int` -/
def ridOfInt (cid : BitVec 32) : Int := cid.toInt.tmod conf.rsvrNum

/-- `ACC_GET_RID_BY_CID` of a `uint64_t`, as `acc_async_send` and `acc_async_kick` have it. -/
def ridOf (cid : BitVec 64) : Nat := cid.toNat % conf.rsvrNum

/-- `acc_lsvr_accept`; a queue there is not is a fault. -/
def accLsvrAccept (S : Listen) : Accept → Option Listen
  | .busy | .failed => some S
  | .accepted place =>
    let S := { S with cid := S.cid + 1 }
    let cid : BitVec 32 := S.cid.setWidth 32
    let idx := conf.ridOfInt cid
    if 0 ≤ idx ∧ idx < conf.rsvrNum then
      if place then
        some { S with
          connq := Function.update S.connq idx.toNat (S.connq idx.toNat ++ [cid.signExtend 64])
          given := S.given ++ [⟨idx.toNat, cid.signExtend 64⟩] }
      else some S
    else none

def run (es : List Accept) : Option Listen := es.foldlM conf.accLsvrAccept .init

/-- The connection is with the receiver that its number names, which finds it in its slot of the
table and what is sent to it and its kicks in its queues. -/
structure Routed (c : AddSck) : Prop where
  lt : c.idx < conf.rsvrNum
  idx : c.idx = c.cid.toNat % conf.rsvrNum
  slot : hashIdx conf.rsvrNum c.cid.toInt = c.idx
  sendq : conf.ridOf c.cid = c.idx
  kickq : ∀ ctx : AccCntx, ctx.rsvrNum = conf.rsvrNum → ctx.ridOf c.cid = c.idx

/-- No call goes wrong, no number is given out twice and all connections are where they should
be. -/
def AllRouted (es : List Accept) : Prop :=
  ∃ S, conf.run es = some S ∧ (S.given.map AddSck.cid).Nodup ∧ ∀ c ∈ S.given, conf.Routed c

end AccConf

/-- How many connections have been accepted. -/
def accepted : List Accept → Nat
  | [] => 0
  | .accepted _ :: es => accepted es + 1
  | _ :: es => accepted es

/-- Which of them have been handed on, `n` having been accepted before. -/
def placed : Nat → List Accept → List Nat
  | _, [] => []
  | n, .accepted true :: es => (n + 1) :: placed (n + 1) es
  | n, .accepted false :: es => placed (n + 1) es
  | n, _ :: es => placed n es

/-! ## The `int` -/

/-- What the counter is as an `int`. -/
def intOf (v : Nat) : Int := (BitVec.ofNat 32 v).toInt

theorem intOf_eq (v : Nat) : intOf v =
    if 2 * (v % 2 ^ 32) < 2 ^ 32 then ((v % 2 ^ 32 : Nat) : Int) else (v % 2 ^ 32 : Nat) - 2 ^ 32 := by
  unfold intOf
  rw [BitVec.toInt_eq_toNat_cond, BitVec.toNat_ofNat]
  norm_num

theorem intOf_of_lt {v : Nat} (h : v < 2 ^ 31) : intOf v = v := by
  rw [intOf_eq]
  split <;> omega

variable {conf : AccConf} {S : Listen} {es : List Accept} {v n : Nat}

/-- Up to `n` connections find a queue exactly if there are fewer than 2^31 of them, or as many and
the number of receivers divides that, or there is one receiver only. -/
theorem hashOk_iff (R n : Nat) :
    (∀ v, 0 < v → v ≤ n → HashOk R (intOf v)) ↔ n < 2 ^ 31 ∨ (n = 2 ^ 31 ∧ R ∣ 2 ^ 31) ∨ R = 1 := by
  have hlow : intOf (2 ^ 31) = -2 ^ 31 := by decide
  have hnext : intOf (2 ^ 31 + 1) = -(2 ^ 31 - 1) := by decide
  constructor
  · intro hall
    by_cases hlt : n < 2 ^ 31
    · exact .inl hlt
    · have hdvd : R ∣ 2 ^ 31 := by
        have h := (hall (2 ^ 31) (by decide) (by omega)).resolve_left (by rw [hlow]; decide)
        rw [hlow, Int.dvd_neg] at h
        exact_mod_cast h
      by_cases heq : n = 2 ^ 31
      · exact .inr (.inl ⟨heq, hdvd⟩)
      · have hdvd' : R ∣ 2 ^ 31 - 1 := by
          have h := (hall (2 ^ 31 + 1) (by decide) (by omega)).resolve_left (by rw [hnext]; decide)
          have hcast : (2 ^ 31 - 1 : Int) = (2 ^ 31 - 1 : Nat) := by decide
          rw [hnext, Int.dvd_neg, hcast] at h
          exact Int.natCast_dvd_natCast.1 h
        refine .inr (.inr (Nat.dvd_one.1 ?_))
        have h := Nat.dvd_sub hdvd hdvd'
        norm_num at h
        exact Nat.dvd_one.2 h
  · rintro (hlt | ⟨rfl, hdvd⟩ | rfl) v hv hle
    · exact .inl (by rw [intOf_of_lt (by omega)]; omega)
    · rcases hle.lt_or_eq with hlt | rfl
      · exact .inl (by rw [intOf_of_lt hlt]; omega)
      · refine .inr ?_
        rw [hlow, Int.dvd_neg]
        exact_mod_cast hdvd
    · exact .inr (one_dvd _)

/-! ## Runs -/

namespace AccConf

/-- The connection that is accepted as number `v`. -/
def give (conf : AccConf) (v : Nat) : AddSck :=
  ⟨(conf.ridOfInt (BitVec.ofNat 32 v)).toNat, (BitVec.ofNat 32 v).signExtend 64⟩

/-- The queue is there exactly if the remainder is not negative. -/
theorem ridOfInt_iff (conf : AccConf) (cid : BitVec 32) :
    0 ≤ conf.ridOfInt cid ∧ conf.ridOfInt cid < conf.rsvrNum ↔ HashOk conf.rsvrNum cid.toInt := by
  have hpos := conf.pos
  have hlt := conf.lt
  unfold ridOfInt
  constructor
  · rintro ⟨hnn, hidx⟩
    rw [← hashIdx_lt_iff hpos hlt]
    unfold hashIdx
    omega
  · intro h
    exact ⟨h.tmod_nonneg, Int.tmod_lt_of_pos _ (by omega)⟩

/-- What the next connection, which is number `v`, leaves. -/
def take (conf : AccConf) (S : Listen) (v : Nat) : Bool → Listen
  | true =>
    ⟨BitVec.ofNat 64 v, Function.update S.connq (conf.give v).idx (S.connq (conf.give v).idx ++ [(conf.give v).cid]),
      S.given ++ [conf.give v]⟩
  | false => { S with cid := BitVec.ofNat 64 v }

theorem accept_eq (hn : S.cid = BitVec.ofNat 64 n) (place : Bool) : conf.accLsvrAccept S (.accepted place) =
    if HashOk conf.rsvrNum (intOf (n + 1)) then some (conf.take S (n + 1) place) else none := by
  have hnext : S.cid + 1 = BitVec.ofNat 64 (n + 1) := by
    rw [hn, BitVec.ofNat_add]
    rfl
  have hint : (BitVec.ofNat 64 (n + 1)).setWidth 32 = BitVec.ofNat 32 (n + 1) := by
    apply BitVec.eq_of_toNat_eq
    simp only [BitVec.toNat_setWidth, BitVec.toNat_ofNat]
    omega
  simp only [accLsvrAccept, hnext, hint, ridOfInt_iff]
  cases place <;> rfl

theorem take_cid (place : Bool) : (conf.take S v place).cid = BitVec.ofNat 64 v := by
  cases place <;> rfl

/-- The numbers from the next one on. -/
theorem forall_next {P : Nat → Prop} {n k : Nat} : (∀ v, n < v → v ≤ n + (k + 1) → P v) ↔
    P (n + 1) ∧ ∀ v, n + 1 < v → v ≤ n + 1 + k → P v := by
  constructor
  · intro h
    exact ⟨h _ (by omega) (by omega), fun v hlt hle => h v (by omega) (by omega)⟩
  · rintro ⟨hfirst, hrest⟩ v hlt hle
    rcases Nat.eq_or_lt_of_le (Nat.succ_le_of_lt hlt) with rfl | hlt
    · exact hfirst
    · exact hrest v hlt (by omega)

theorem foldlM_spec : ∀ (es : List Accept) (S : Listen) (n : Nat), S.cid = BitVec.ofNat 64 n →
    ((∃ S', es.foldlM conf.accLsvrAccept S = some S') ↔
        ∀ v, n < v → v ≤ n + accepted es → HashOk conf.rsvrNum (intOf v)) ∧
      ∀ S', es.foldlM conf.accLsvrAccept S = some S' → S'.given = S.given ++ (placed n es).map conf.give := by
  intro es
  induction es with
  | nil =>
    intro S n _
    refine ⟨iff_of_true ⟨S, rfl⟩ fun v hlt hle => absurd hle (by simpa [accepted] using hlt), ?_⟩
    rintro S' h
    cases h
    simp [placed]
  | cons e es ih =>
    intro S n hn
    rw [List.foldlM_cons]
    cases e with
    | busy => exact ih S n hn
    | failed => exact ih S n hn
    | accepted place =>
      rw [accepted, forall_next]
      rw [accept_eq hn]
      split
      · rename_i hok
        obtain ⟨hruns, hgiven⟩ := ih (conf.take S (n + 1) place) (n + 1) (take_cid place)
        refine ⟨hruns.trans (and_iff_right hok).symm, fun S' hrun => (hgiven S' hrun).trans ?_⟩
        cases place with
        | true => simp [take, placed]
        | false => rfl
      · rename_i hbad
        exact ⟨iff_of_false (by simp) fun h => hbad h.1, nofun⟩

/-! ## Where the connections are -/

/-- A connection that finds a queue is where it should be, unless its number is negative and the
number of receivers is not a power of two. -/
theorem give_routed (h : 0 ≤ intOf v ∨ (conf.rsvrNum : Int) ∣ intOf v ∧ conf.rsvrNum ∣ 2 ^ 64) :
    conf.Routed (conf.give v) := by
  have hpos := conf.pos
  have hlt := conf.lt
  have hcid : (conf.give v).cid.toInt = intOf v := BitVec.toInt_signExtend_of_le (by decide)
  have hok : HashOk conf.rsvrNum (intOf v) := h.imp_right And.left
  have hidx : ((conf.give v).idx : Int) = (intOf v).tmod conf.rsvrNum := Int.toNat_of_nonneg hok.tmod_nonneg
  have hnat : (conf.give v).idx = (conf.give v).cid.toNat % conf.rsvrNum := by
    have hbound := (conf.give v).cid.isLt
    rw [BitVec.toInt_eq_toNat_cond] at hcid
    rcases h with hnn | ⟨hdvd, hpow⟩
    · have hsame : intOf v = (conf.give v).cid.toNat := by
        split at hcid
        · exact hcid.symm
        · omega
      rw [hsame, ← Int.ofNat_tmod] at hidx
      exact_mod_cast hidx
    · rw [Int.tmod_eq_zero_of_dvd hdvd] at hidx
      have hzero : conf.rsvrNum ∣ (conf.give v).cid.toNat := by
        rw [← Int.natCast_dvd_natCast]
        split at hcid
        · rwa [hcid]
        · have hpow' : (conf.rsvrNum : Int) ∣ (2 ^ 64 : Nat) := Int.natCast_dvd_natCast.2 hpow
          have hsum := Int.dvd_add (hcid ▸ hdvd) hpow'
          rwa [Int.sub_add_cancel] at hsum
      rw [Nat.mod_eq_zero_of_dvd hzero]
      exact_mod_cast hidx
  refine ⟨hnat ▸ Nat.mod_lt _ hpos, hnat, ?_, hnat.symm, fun ctx hctx => ?_⟩
  · have hslot := hok.hashIdx_eq hpos hlt
    rw [hcid]
    omega
  · rw [AccCntx.ridOf, hctx]
    exact hnat.symm

/-- Numbers are given out twice exactly if they agree as 32-bit numbers. -/
theorem nodup_give (conf : AccConf) (vs : List Nat) :
    ((vs.map conf.give).map AddSck.cid).Nodup ↔ (vs.map (· % 2 ^ 32)).Nodup := by
  have hword : ∀ v, (BitVec.ofNat 32 v).toNat = v % 2 ^ 32 := fun v => BitVec.toNat_ofNat v 32
  have hcid : (vs.map conf.give).map AddSck.cid = (vs.map (· % 2 ^ 32)).map fun w =>
      (BitVec.ofNat 32 w).signExtend 64 := by
    rw [List.map_map, List.map_map]
    refine List.map_congr_left fun v _ => ?_
    have hsame : BitVec.ofNat 32 v = BitVec.ofNat 32 (v % 2 ^ 32) := by
      apply BitVec.eq_of_toNat_eq
      rw [hword, hword, Nat.mod_mod]
    exact congrArg (BitVec.signExtend 64) hsame
  rw [hcid]
  constructor
  · exact List.Nodup.of_map _
  · refine fun h => h.map_on fun w hw w' hw' heq => ?_
    obtain ⟨v, -, rfl⟩ := List.mem_map.1 hw
    obtain ⟨v', -, rfl⟩ := List.mem_map.1 hw'
    have hint := congrArg BitVec.toInt heq
    rw [BitVec.toInt_signExtend_of_le (by decide), BitVec.toInt_signExtend_of_le (by decide)] at hint
    have hnat := congrArg BitVec.toNat (BitVec.eq_of_toInt_eq hint)
    rw [hword, hword] at hnat
    omega

theorem le_placed : ∀ (es : List Accept) (n : Nat), ∀ v ∈ placed n es, n < v ∧ v ≤ n + accepted es := by
  intro es
  induction es with
  | nil => exact fun n v h => absurd h List.not_mem_nil
  | cons e es ih =>
    intro n v hv
    cases e with
    | busy => exact ih n v hv
    | failed => exact ih n v hv
    | accepted place =>
      rw [accepted]
      cases place with
      | true =>
        rcases List.mem_cons.1 hv with rfl | hv
        · omega
        · have h := ih (n + 1) v hv
          omega
      | false =>
        have h := ih (n + 1) v hv
        omega

/-- In a run all goes well exactly if fewer than 2^31 connections have been accepted, or as many and
the number of receivers divides that, or there is one receiver only, and of those handed on no two
are a multiple of 2^32 apart. -/
theorem routed_iff (conf : AccConf) (es : List Accept) : conf.AllRouted es ↔
    (accepted es < 2 ^ 31 ∨ (accepted es = 2 ^ 31 ∧ conf.rsvrNum ∣ 2 ^ 31) ∨ conf.rsvrNum = 1) ∧
      ((placed 0 es).map (· % 2 ^ 32)).Nodup := by
  obtain ⟨hruns, hgiven⟩ := foldlM_spec es .init 0 rfl
  rw [Nat.zero_add, hashOk_iff] at hruns
  constructor
  · rintro ⟨S, hrun, hnodup, -⟩
    rw [hgiven S hrun] at hnodup
    exact ⟨hruns.1 ⟨S, hrun⟩, (nodup_give conf _).1 hnodup⟩
  · rintro ⟨hcount, hnodup⟩
    obtain ⟨S, hrun⟩ := hruns.2 hcount
    refine ⟨S, hrun, ?_, fun c hc => ?_⟩
    · rw [hgiven S hrun]
      exact (nodup_give conf _).2 hnodup
    · rw [hgiven S hrun] at hc
      obtain ⟨v, hv, rfl⟩ := List.mem_map.1 hc
      have hle := le_placed es 0 v hv
      apply give_routed
      rcases hcount with hlt | ⟨heq, hdvd⟩ | hone
      · rw [intOf_of_lt (by omega)]
        exact .inl (Int.natCast_nonneg v)
      · have hok := (hashOk_iff conf.rsvrNum (accepted es)).2 (.inr (.inl ⟨heq, hdvd⟩)) v (by omega) (by omega)
        exact hok.imp_right fun h => ⟨h, hdvd.trans (by decide)⟩
      · rw [hone]
        exact .inr ⟨one_dvd _, one_dvd _⟩

theorem accepted_replicate (n : Nat) (place : Bool) : accepted (List.replicate n (.accepted place)) = n := by
  induction n with
  | zero => rfl
  | succ n ih => rw [List.replicate_succ, accepted, ih]

/-- With three receivers the connection number 2^31 goes to queue -2. -/
theorem negative_queue : ¬AllRouted ⟨3, by decide, by decide⟩ (List.replicate (2 ^ 31) (.accepted true)) := by
  rintro ⟨S, hrun, -⟩
  have hok := (foldlM_spec _ .init 0 rfl).1.1 ⟨S, hrun⟩ (2 ^ 31) (by decide) (by rw [accepted_replicate, Nat.zero_add])
  exact absurd hok (by decide)

end AccConf

end BeehiveIm.Access
