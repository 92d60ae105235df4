/-
The statistics that the task server keeps (`exec/tasker/controllers/logic.go`): for each
precision, the largest and the smallest number of sessions in each segment of time. What a call
writes waits in a pipeline until the call ends, and the clean-up that the call defers comes before
that. Commands do not fail.
-/
import BeehiveIm.Lib.Keys
import BeehiveIm.Lib.Strconv
import Mathlib.Data.List.AList

namespace BeehiveIm.Tasker

open BeehiveIm.Lib

inductive Peak where
  | max
  | min
  deriving DecidableEq

/-- The hash `im:usr:statis:prec:%d:max:num` or `im:usr:statis:prec:%d:min:num` of a precision. -/
abbrev Key := Peak × Int

/-- The hashes, by the times at which the segments start. -/
abbrev Store := Key → AList fun _ : List Byte => Int

def Store.empty : Store := fun _ => ∅

inductive Cmd where
  | hset (key : Key) (field : List Byte) (n : Int)
  | hdel (key : Key) (field : List Byte)
  deriving DecidableEq

namespace Cmd

def exec (s : Store) : Cmd → Store
  | .hset key field n => put s key (AList.insert field n)
  | .hdel key field => put s key (AList.erase field)

end Cmd

/-- What one call reads beside the hashes: the number of sessions, the precisions with the numbers
of their records, the time, and the time when it cleans up. -/
structure Call where
  sidNum : Nat
  precNum : ZSet (List Byte)
  ctm : BitVec 64
  cleanTm : Int

/-- The loop over a reply that has members and scores by turns. -/
def parsePrecs : List (List Byte) → List (Int × Int)
  | prec :: rnum :: rest => (strconvParseInt 10 64 prec, strconvParseInt 10 64 rnum) :: parsePrecs rest
  | _ => []

/-- `ZRANGEBYSCORE im::prec:num:zset 0 +inf WITHSCORES` -/
def Call.precs (c : Call) : List (Int × Int) :=
  parsePrecs ((c.precNum.rangeByScore (some 0) none).flatMap fun e => [e.1, decimalInt e.2])

/-- The segment of the call's time. -/
def Call.seg (c : Call) (prec : Int) : BitVec 64 := c.ctm / BitVec.ofInt 64 prec * BitVec.ofInt 64 prec

/-- Whether a number of sessions takes the place of the stored one. -/
def Peak.beaten : Peak → Int → Int → Bool
  | .max, v, n => v ≤ n
  | .min, v, n => n < v

/-- What is sent for one peak, and whether the loop goes on to the other. -/
def peakCmds (s : Store) (key : Key) (seg : List Byte) (n : Int) : List Cmd × Bool :=
  let new := if seg ∈ s key then [] else [Cmd.hset key seg n]
  -- `HGET` does not see what waits in the pipeline
  match (s key).lookup seg with
  | none => (new, false)
  | some v => (new ++ if key.1.beaten v n then [Cmd.hset key seg n] else [], true)

def precCmds (s : Store) (c : Call) (prec rnum : Int) : List Cmd :=
  if prec = 0 ∨ rnum = 0 then []
  else
    let seg := decimal (c.seg prec).toNat
    match peakCmds s (.max, prec) seg c.sidNum with
    | (cmds, false) => cmds
    | (cmds, true) => cmds ++ (peakCmds s (.min, prec) seg c.sidNum).1

def cleanCmds (s : Store) (c : Call) (prec rnum : Int) : List Cmd :=
  if prec = 0 ∨ rnum = 0 then []
  else
    let seg := c.cleanTm.tdiv prec * prec
    [Peak.max, Peak.min].flatMap fun peak => (s (peak, prec)).keys.filterMap fun field =>
      let tm := strconvParseInt 10 64 field
      if rnum < (seg - tm).tdiv prec then some (.hdel (peak, prec) (decimalInt tm)) else none

def Call.cleanUps (s : Store) (c : Call) : List Cmd := c.precs.flatMap fun p => cleanCmds s c p.1 p.2

/-- `clean_prec_statis` -/
def cleanPrecStatis (s : Store) (c : Call) : Store := (c.cleanUps s).foldl Cmd.exec s

def Call.cmds (s : Store) (c : Call) : List Cmd := c.precs.flatMap fun p => precCmds s c p.1 p.2

/-- `update_prec_statis` -/
def updatePrecStatis (s : Store) (c : Call) : Store := (c.cmds s).foldl Cmd.exec (cleanPrecStatis s c)

/-! ## What the pipelines do -/

variable {s t : Store} {c : Call} {cmd : Cmd} {key : Key} {field : List Byte} {prec rnum n m : Int} {seg : BitVec 64}

namespace Cmd

theorem lookup_exec : (exec s cmd key).lookup field =
    match cmd with
    | .hset key' field' n => if key = key' ∧ field = field' then some n else (s key).lookup field
    | .hdel key' field' => if key = key' ∧ field = field' then none else (s key).lookup field := by
  cases cmd with
  | hset key' field' n =>
    simp only [exec, put_apply]
    by_cases hkey : key = key'
    · rw [if_pos hkey]
      by_cases hfield : field = field'
      · rw [if_pos ⟨hkey, hfield⟩, hfield, AList.lookup_insert]
      · rw [if_neg fun h => hfield h.2, AList.lookup_insert_ne hfield]
    · rw [if_neg hkey, if_neg fun h => hkey h.1]
  | hdel key' field' =>
    simp only [exec, put_apply]
    by_cases hkey : key = key'
    · rw [if_pos hkey]
      by_cases hfield : field = field'
      · rw [if_pos ⟨hkey, hfield⟩, hfield, AList.lookup_erase]
      · rw [if_neg fun h => hfield h.2, AList.lookup_erase_ne hfield]
    · rw [if_neg hkey, if_neg fun h => hkey h.1]

/-- A field that no command writes stays, or goes. -/
theorem lookup_foldl_none : ∀ (cmds : List Cmd) {s : Store}, (∀ n, .hset key field n ∉ cmds) →
    (s key).lookup field = none → (cmds.foldl exec s key).lookup field = none
  | [], _, _, hs => hs
  | cmd :: cmds, s, h, hs => by
    refine lookup_foldl_none cmds (fun n hn => h n (List.mem_cons_of_mem _ hn)) ?_
    rw [lookup_exec]
    cases cmd with
    | hset key' field' n =>
      refine (if_neg ?_).trans hs
      rintro ⟨rfl, rfl⟩
      exact h n List.mem_cons_self
    | hdel key' field' => exact (ite_eq_left_iff.2 fun _ => hs)

/-- A field that is not deleted, and written with one number if at all. -/
theorem lookup_foldl : ∀ (cmds : List Cmd) {s : Store}, (∀ m, .hset key field m ∈ cmds → m = n) →
    .hdel key field ∉ cmds →
    (cmds.foldl exec s key).lookup field = if .hset key field n ∈ cmds then some n else (s key).lookup field
  | [], _, _, _ => (if_neg List.not_mem_nil).symm
  | cmd :: cmds, s, h, hkept => by
    rw [List.foldl_cons, lookup_foldl cmds (fun m hm => h m (List.mem_cons_of_mem _ hm)) fun hm =>
      hkept (List.mem_cons_of_mem _ hm)]
    by_cases hlater : .hset key field n ∈ cmds
    · rw [if_pos hlater, if_pos (List.mem_cons_of_mem _ hlater)]
    · rw [if_neg hlater, lookup_exec]
      cases cmd with
      | hset key' field' m =>
        by_cases hsame : key = key' ∧ field = field'
        · obtain ⟨rfl, rfl⟩ := hsame
          obtain rfl := h m List.mem_cons_self
          simp
        · have hnot : .hset key field n ∉ Cmd.hset key' field' m :: cmds := by
            rw [List.mem_cons, not_or]
            refine ⟨?_, hlater⟩
            rintro ⟨⟩
            exact hsame ⟨rfl, rfl⟩
          rw [if_neg hnot]
          exact if_neg hsame
      | hdel key' field' =>
        have hother : ¬(key = key' ∧ field = field') := by
          rintro ⟨rfl, rfl⟩
          exact hkept List.mem_cons_self
        simp [hother, hlater]

end Cmd

/-! ## One call -/

/-- The call comes in the segment that starts at `seg`, which is one of those it keeps a record
of. -/
def Call.Falls (c : Call) (prec : Int) (seg : BitVec 64) : Prop :=
  prec ≠ 0 ∧ (∃ p ∈ c.precs, p.1 = prec ∧ p.2 ≠ 0) ∧ c.seg prec = seg

instance : Decidable (c.Falls prec seg) := inferInstanceAs (Decidable (_ ∧ _ ∧ _))

/-- What is stored of a segment. -/
def Store.stored (s : Store) (prec : Int) (seg : BitVec 64) (peak : Peak) : Option Int :=
  (s (peak, prec)).lookup (decimal seg.toNat)

theorem mem_peakCmds (s : Store) (key : Key) (field : List Byte) (n : Int) : cmd ∈ (peakCmds s key field n).1 ↔
    cmd = .hset key field n ∧ ∀ v, (s key).lookup field = some v → key.1.beaten v n := by
  unfold peakCmds
  cases hv : (s key).lookup field with
  | none => simp [AList.lookup_eq_none.1 hv]
  | some v =>
    have hmem : field ∈ s key := AList.lookup_isSome.1 (by rw [hv]; rfl)
    by_cases hb : key.1.beaten v n <;> simp [hmem, hb]

theorem peakCmds_snd (s : Store) (key : Key) (field : List Byte) (n : Int) :
    (peakCmds s key field n).2 = ((s key).lookup field).isSome := by
  unfold peakCmds
  cases (s key).lookup field <;> rfl

/-- A precision's commands: the smallest number is written only where the largest is there to be
read. -/
theorem mem_precCmds : cmd ∈ precCmds s c prec rnum ↔ prec ≠ 0 ∧ rnum ≠ 0 ∧ ∃ peak,
    cmd = .hset (peak, prec) (decimal (c.seg prec).toNat) c.sidNum ∧
    (peak = .min → s.stored prec (c.seg prec) .max ≠ none) ∧ ∀ v, s.stored prec (c.seg prec) peak = some v →
    peak.beaten v c.sidNum := by
  unfold precCmds
  split
  · rename_i h
    constructor
    · exact fun hc => absurd hc List.not_mem_nil
    · rintro ⟨hp, hr, -⟩
      exact absurd h (by simp [hp, hr])
  · rename_i h
    obtain ⟨hp, hr⟩ := not_or.1 h
    have hmax : cmd ∈ _ ↔ _ := mem_peakCmds s (.max, prec) (decimal (c.seg prec).toNat) c.sidNum
    have hgo := peakCmds_snd s (.max, prec) (decimal (c.seg prec).toNat) c.sidNum
    simp only []
    generalize peakCmds s (.max, prec) (decimal (c.seg prec).toNat) c.sidNum = first at hmax hgo ⊢
    obtain ⟨cmds, go⟩ := first
    cases go with
    | false =>
      have hnone : s.stored prec (c.seg prec) .max = none :=
        Option.isNone_iff_eq_none.1 (Option.isSome_eq_false_iff.1 hgo.symm)
      refine hmax.trans ⟨fun ⟨he, hb⟩ => ⟨hp, hr, .max, he, nofun, hb⟩, ?_⟩
      rintro ⟨-, -, _ | _, he, hm, hb⟩
      · exact ⟨he, hb⟩
      · exact absurd hnone (hm rfl)
    | true =>
      have hsome : s.stored prec (c.seg prec) .max ≠ none := Option.isSome_iff_ne_none.1 hgo.symm
      rw [List.mem_append, hmax, mem_peakCmds]
      constructor
      · rintro (⟨he, hb⟩ | ⟨he, hb⟩)
        · exact ⟨hp, hr, .max, he, nofun, hb⟩
        · exact ⟨hp, hr, .min, he, fun _ => hsome, hb⟩
      · rintro ⟨-, -, _ | _, he, -, hb⟩
        · exact .inl ⟨he, hb⟩
        · exact .inr ⟨he, hb⟩

/-- What a call writes for a segment. -/
theorem hset_mem_cmds {peak : Peak} : Cmd.hset (peak, prec) (decimal seg.toNat) n ∈ c.cmds s ↔
    c.Falls prec seg ∧ n = c.sidNum ∧ (peak = .min → s.stored prec seg .max ≠ none) ∧
    ∀ v, s.stored prec seg peak = some v → peak.beaten v n := by
  simp only [Call.cmds, List.mem_flatMap, mem_precCmds]
  constructor
  · rintro ⟨⟨p, r⟩, hmem, hp, hr, peak', he, hmax, hb⟩
    obtain ⟨⟨rfl, rfl⟩, hseg, rfl⟩ := Cmd.hset.inj he
    obtain rfl : seg = c.seg p := BitVec.eq_of_toNat_eq (decimal_injective hseg)
    exact ⟨⟨hp, ⟨(p, r), hmem, rfl, hr⟩, rfl⟩, rfl, hmax, hb⟩
  · rintro ⟨⟨hp, ⟨p, hmem, rfl, hr⟩, rfl⟩, rfl, hmax, hb⟩
    exact ⟨p, hmem, hp, hr, peak, rfl, hmax, hb⟩

theorem hdel_notMem_cmds : Cmd.hdel key field ∉ c.cmds s := by
  simp only [Call.cmds, List.mem_flatMap, mem_precCmds]
  rintro ⟨p, -, -, -, peak, he, -⟩
  cases he

/-- What the call leaves in a segment, from what the clean-up has left. -/
theorem stored_update {peak : Peak} : (updatePrecStatis s c).stored prec seg peak =
    if Cmd.hset (peak, prec) (decimal seg.toNat) c.sidNum ∈ c.cmds s then some (c.sidNum : Int)
      else (cleanPrecStatis s c).stored prec seg peak :=
  Cmd.lookup_foldl (c.cmds s) (fun _ hm => (hset_mem_cmds.1 hm).2.1) hdel_notMem_cmds

/-- The clean-up deletes fields of old segments and writes none. -/
theorem mem_cleanUps (h : cmd ∈ c.cleanUps s) : ∃ p ∈ c.precs, ∃ peak tm, cmd = .hdel (peak, p.1) (decimalInt tm) ∧
    p.2 < (c.cleanTm.tdiv p.1 * p.1 - tm).tdiv p.1 := by
  obtain ⟨p, hp, h⟩ := List.mem_flatMap.1 h
  unfold cleanCmds at h
  split at h
  · exact absurd h List.not_mem_nil
  · obtain ⟨peak, -, h⟩ := List.mem_flatMap.1 h
    obtain ⟨field, -, h⟩ := List.mem_filterMap.1 h
    simp only [] at h
    split at h
    · rename_i hold
      exact ⟨p, hp, peak, strconvParseInt 10 64 field, (Option.some.inj h).symm, hold⟩
    · cases h


theorem stored_clean_none {peak : Peak} (h : s.stored prec seg peak = none) :
    (cleanPrecStatis s c).stored prec seg peak = none := by
  refine Cmd.lookup_foldl_none (c.cleanUps s) (fun n hn => ?_) h
  obtain ⟨_, _, _, _, he, -⟩ := mem_cleanUps hn
  cases he

/-- A call in other segments leaves the segment without a field. -/
theorem stored_update_none (hf : ¬c.Falls prec seg) {peak : Peak} (h : s.stored prec seg peak = none) :
    (updatePrecStatis s c).stored prec seg peak = none := by
  rw [stored_update, if_neg fun hm => hf (hset_mem_cmds.1 hm).1, stored_clean_none h]

/-- The first call of a segment creates no smallest number. -/
theorem stored_min_first (hmax : s.stored prec seg .max = none) (hmin : s.stored prec seg .min = none) :
    (updatePrecStatis s c).stored prec seg .min = none := by
  rw [stored_update, if_neg, stored_clean_none hmin]
  intro hm
  exact (hset_mem_cmds.1 hm).2.2.1 rfl hmax

/-- A segment that is not too old for any of its records. -/
def Call.Spares (c : Call) (prec : Int) (seg : BitVec 64) : Prop :=
  ∀ p ∈ c.precs, p.1 = prec → (c.cleanTm.tdiv prec * prec - seg.toNat).tdiv prec ≤ p.2

theorem stored_clean {peak : Peak} (h : c.Spares prec seg) :
    (cleanPrecStatis s c).stored prec seg peak = s.stored prec seg peak := by
  have hset : ∀ n, Cmd.hset (peak, prec) (decimal seg.toNat) n ∉ c.cleanUps s := fun n hn => by
    obtain ⟨_, _, _, _, he, -⟩ := mem_cleanUps hn
    cases he
  have hdel : Cmd.hdel (peak, prec) (decimal seg.toNat) ∉ c.cleanUps s := fun hm => by
    obtain ⟨p, hp, peak', tm, he, hold⟩ := mem_cleanUps hm
    obtain ⟨hkey, hfield⟩ := Cmd.hdel.inj he
    obtain ⟨rfl, hprec⟩ := Prod.mk.inj hkey
    obtain rfl := decimalInt_eq_decimal hfield.symm
    rw [← hprec] at hold
    exact absurd hold (not_lt.2 (h p hp hprec.symm))
  rw [Store.stored, cleanPrecStatis, Cmd.lookup_foldl _ (fun n hn => absurd hn (hset n)) hdel, if_neg (hset 0)]
  rfl

/-- What a call makes of the numbers of its segment. -/
def peakStep : Option Int × Option Int → Int → Option Int × Option Int
  | (none, b), n => (some n, b)
  | (some a, none), n => (some (max a n), some n)
  | (some a, some b), n => (some (max a n), some (min b n))

theorem stored_step (hf : c.Falls prec seg) (hs : c.Spares prec seg) :
    ((updatePrecStatis s c).stored prec seg .max, (updatePrecStatis s c).stored prec seg .min) =
      peakStep (s.stored prec seg .max, s.stored prec seg .min) c.sidNum := by
  have hlarger : ∀ a n : Int, (if a ≤ n then some n else some a) = some (max a n) := fun a n => by
    rw [max_def]
    exact (apply_ite some _ _ _).symm
  have hsmaller : ∀ b n : Int, (if n < b then some n else some b) = some (min b n) := fun b n => by
    rw [min_comm, min_def_lt]
    exact (apply_ite some _ _ _).symm
  simp only [stored_update, hset_mem_cmds, stored_clean hs, hf, true_and]
  cases hmax : s.stored prec seg .max with
  | none => simp [peakStep]
  | some a =>
    cases hmin : s.stored prec seg .min with
    | none => simp [peakStep, Peak.beaten, hlarger]
    | some b => simp [peakStep, Peak.beaten, hlarger, hsmaller]

/-! ## A run -/

theorem stored_run_none {peak : Peak} : ∀ (calls : List Call) {s : Store}, (∀ c ∈ calls, ¬c.Falls prec seg) →
    s.stored prec seg peak = none → (calls.foldl updatePrecStatis s).stored prec seg peak = none
  | [], _, _, hs => hs
  | c :: calls, _, h, hs =>
    stored_run_none calls (fun c hc => h c (List.mem_cons_of_mem _ hc)) (stored_update_none (h c List.mem_cons_self) hs)

/-- The numbers of sessions at the calls of a segment. -/
def counts (prec : Int) (seg : BitVec 64) (calls : List Call) : List Int :=
  (calls.filter fun c => c.Falls prec seg).map fun c => (c.sidNum : Int)

/-- The stored numbers are the largest and the smallest of those given. -/
def Store.Exact (s : Store) (prec : Int) (seg : BitVec 64) (ns : List Int) : Prop :=
  s.stored prec seg .max = ns.max? ∧ s.stored prec seg .min = ns.min?

theorem counts_eq_nil {calls : List Call} (h : ∀ c ∈ calls, ¬c.Falls prec seg) : counts prec seg calls = [] := by
  rw [counts, List.map_eq_nil_iff, List.filter_eq_nil_iff]
  exact fun c hc => by simpa using h c hc

theorem counts_append (calls calls' : List Call) :
    counts prec seg (calls ++ calls') = counts prec seg calls ++ counts prec seg calls' := by
  rw [counts, List.filter_append, List.map_append]
  rfl

/-- After each call of a run both numbers are those of the segment's calls so far:
only where there are none. -/
theorem peaks_exact_iff (prec : Int) (seg : BitVec 64) (calls : List Call) :
    (∀ k ≤ calls.length, ((calls.take k).foldl updatePrecStatis .empty).Exact prec seg
      (counts prec seg (calls.take k))) ↔
      ∀ c ∈ calls, ¬c.Falls prec seg := by
  have hempty : ∀ peak, Store.empty.stored prec seg peak = none := fun _ => rfl
  constructor
  · intro h c hc hf
    cases hfirst : calls.find? fun c => c.Falls prec seg with
    | none => exact absurd hf (by simpa using List.find?_eq_none.1 hfirst c hc)
    | some first =>
      obtain ⟨hfalls, before, after, hsplit, hbefore⟩ := List.find?_eq_some_iff_append.1 hfirst
      have hnone : ∀ c ∈ before, ¬c.Falls prec seg := fun c hc => by simpa using hbefore c hc
      -- after the segment's first call
      have htake : calls.take (before.length + 1) = before ++ [first] := by simp [hsplit, List.take_append]
      have hmin := (h (before.length + 1) (by simp [hsplit])).2
      rw [htake, List.foldl_append, List.foldl_cons, List.foldl_nil,
        stored_min_first (stored_run_none before hnone (hempty _)) (stored_run_none before hnone (hempty _))] at hmin
      have hcount : counts prec seg (before ++ [first]) = [(first.sidNum : Int)] := by
        rw [counts_append, counts_eq_nil hnone, List.nil_append, counts, List.filter_cons, if_pos hfalls]
        rfl
      rw [hcount] at hmin
      cases hmin
  · intro h k _
    have hnone : ∀ c ∈ calls.take k, ¬c.Falls prec seg := fun c hc => h c (List.mem_of_mem_take hc)
    rw [counts_eq_nil hnone]
    exact ⟨stored_run_none _ hnone (hempty _), stored_run_none _ hnone (hempty _)⟩

/-- A segment with no number of sessions but 5 and 7 so far, and no smallest one
after the first of them. -/
theorem peaks_absent_min : ¬∀ (prec : Int) (seg : BitVec 64) (calls : List Call), calls ≠ [] →
    (∀ c ∈ calls, c.Falls prec seg) →
    ∀ k < calls.length, ((calls.take (k + 1)).foldl updatePrecStatis .empty).Exact prec seg
      ((calls.take (k + 1)).map fun c => (c.sidNum : Int)) := by
  intro h
  let call (n : Nat) : Call := ⟨n, ⟨[(ascii ['6', '0'], 10)], by decide⟩, 600, 600⟩
  have hmin := (h 60 600 [call 5, call 7] (by decide) (by decide) 0 (by decide)).2
  revert hmin
  decide

theorem foldl_peakStep : ∀ (ns : List Int) (a b : Int), ns.foldl peakStep (some a, some b) =
    (some (ns.foldl max a), some (ns.foldl min b))
  | [], _, _ => rfl
  | n :: ns, a, b => foldl_peakStep ns (max a n) (min b n)

theorem foldl_peakStep_none : ∀ ns : List Int, ns.foldl peakStep (none, none) = (ns.max?, ns.tail.min?)
  | [] => rfl
  | [_] => rfl
  | n :: m :: ns => foldl_peakStep ns (max n m) m

theorem stored_run : ∀ (calls : List Call) {s : Store}, (∀ c ∈ calls, c.Falls prec seg ∧ c.Spares prec seg) →
    ((calls.foldl updatePrecStatis s).stored prec seg .max, (calls.foldl updatePrecStatis s).stored prec seg .min) =
      (calls.map fun c => (c.sidNum : Int)).foldl peakStep (s.stored prec seg .max, s.stored prec seg .min)
  | [], _, _ => rfl
  | c :: calls, s, h => by
    rw [List.map_cons, List.foldl_cons, List.foldl_cons, stored_run calls fun c hc => h c (List.mem_cons_of_mem _ hc),
      stored_step (h c List.mem_cons_self).1 (h c List.mem_cons_self).2]

/-- What a segment's calls do store: the largest number, and the smallest of all but the first. -/
theorem peaks_stored {calls : List Call} (h : ∀ c ∈ calls, c.Falls prec seg ∧ c.Spares prec seg)
    (hmax : s.stored prec seg .max = none) (hmin : s.stored prec seg .min = none) :
    (calls.foldl updatePrecStatis s).stored prec seg .max = (calls.map fun c => (c.sidNum : Int)).max? ∧
      (calls.foldl updatePrecStatis s).stored prec seg .min = (calls.map fun c => (c.sidNum : Int)).tail.min? := by
  refine Prod.mk.inj ((stored_run calls h).trans ?_)
  rw [hmax, hmin, foldl_peakStep_none]

end BeehiveIm.Tasker
