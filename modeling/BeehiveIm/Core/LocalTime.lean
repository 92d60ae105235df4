/-
`local_time` of redo.c: the civil time at UTC+8 without `localtime_r`.

The hours since 1970 are cut into blocks of four years, then a loop over the years of the block and
one over the months of the year give the date. The day of the year alone is taken from the block
itself, modulo 365. The leap day of the block comes after three years, so from the last day of the
leap year on it is a day off.
-/
import BeehiveIm.Lib.Gregorian

namespace BeehiveIm.Core

open BeehiveIm.Lib.Gregorian

/-- `struct tm`: the year counts from 1900, the month and the day of the year from 0. -/
structure Tm where
  sec : Nat
  min : Nat
  hour : Nat
  mday : Nat
  mon : Nat
  year : Nat
  wday : Nat
  yday : Nat
  isdst : Nat
  deriving DecidableEq, Repr

/-- `mon_days` -/
def monDays : List Nat := [31, 28, 31, 30, 31, 30, 31, 31, 30, 31, 30, 31]

/-- The loop over the years of a block; `time` are hours. -/
def yearLoop : Nat → Nat → Nat → Option (Nat × Nat)
  | 0, _, _ => none
  | fuel + 1, year, time =>
    let hpery := 8760 + if year &&& 3 = 0 then 24 else 0
    if time < hpery then some (year, time)
    else yearLoop fuel (year + 1) (time - hpery)

/-- The loop over the months from `mon` on, which stops at the month `time` falls in. A read
outside the table is a fault. -/
def monLoop : List Nat → Nat → Nat → Option (Nat × Nat)
  | [], _, _ => none
  | days :: rest, mon, time => if days < time then monLoop rest (mon + 1) (time - days) else some (mon, time)

/-- `local_time` at a time from 1970 on. -/
def localTime (timep : Nat) : Option Tm :=
  let time := timep + 28800
  let sec := time % 60
  let time := time / 60
  let min := time % 60
  let time := time / 60
  let wday := (time / 24 + 4) % 7
  let pass4yearNum := time % 2 ^ 32 / 35064
  let year := (pass4yearNum <<< 2) + 70
  let time := time % 35064
  let yday := time / 24 % 365
  match yearLoop (time + 1) year time with
  | none => none
  | some (year, time) =>
    let hour := time % 24
    let tm := fun mon mday => (⟨sec, min, hour, mday, mon, year, wday, yday, 0⟩ : Tm)
    let time := time / 24 + 1
    let months := fun time => (monLoop monDays 0 time).map fun r => tm r.1 r.2
    if year &&& 3 = 0 then
      if 60 < time then months (time - 1)
      else if 60 = time then some (tm 1 29)
      else months time
    else months time

/-! ## The civil time -/

/-- The civil time `s` seconds after the beginning of 1970, which was a Thursday. -/
structure IsCivil (tm : Tm) (s : Nat) : Prop where
  sec : tm.sec = s % 60
  min : tm.min = s / 60 % 60
  hour : tm.hour = s / 3600 % 24
  wday : tm.wday = (s / 86400 + 4) % 7
  date : IsDate (s / 86400) (tm.year + 1900) tm.mon tm.mday
  yday : yearStart (tm.year + 1900) + tm.yday = s / 86400

/-! ## The loops -/

theorem and_three (year : Nat) : year &&& 3 = 0 ↔ 4 ∣ year + 1900 := by
  rw [show year &&& 3 = year % 4 from Nat.and_two_pow_sub_one_eq_mod year 2]
  omega

/-- The hours the loop takes from a year are those the year has. -/
theorem hpery_eq {year : Nat} (h : 70 ≤ year) (h' : year < 200) :
    8760 + (if year &&& 3 = 0 then 24 else 0) = 24 * yearLen (year + 1900) := by
  rw [yearLen_eq (by omega) (by omega)]
  simp only [and_three]
  split <;> rfl

/-- The years and the hours left always make up the same time; the loop stops in the year the time
is in. -/
theorem yearLoop_spec {fuel year time : Nat} (hf : time < fuel) (hy : 70 ≤ year)
    (ht : 24 * yearStart (year + 1900) + time < 24 * yearStart 2100) :
    ∃ year' time', yearLoop fuel year time = some (year', time') ∧ 70 ≤ year' ∧ year' < 200 ∧
      24 * yearStart (year' + 1900) + time' = 24 * yearStart (year + 1900) + time ∧
      time' < 24 * yearLen (year' + 1900) := by
  induction fuel generalizing year time with
  | zero => omega
  | succ fuel ih =>
    have hlt : year < 200 := by
      by_contra hge
      have := yearStart_mono (show 2100 ≤ year + 1900 by omega)
      omega
    have hsucc := yearStart_succ (show 1970 ≤ year + 1900 by omega)
    have hpery := hpery_eq hy hlt
    simp only [yearLoop]
    rw [hpery]
    split_ifs with h
    · exact ⟨year, time, rfl, hy, hlt, rfl, h⟩
    · have hpos : 8760 ≤ 24 * yearLen (year + 1900) := by
        rw [← hpery]
        exact Nat.le_add_right _ _
      have hyear : year + 1 + 1900 = year + 1900 + 1 := by omega
      obtain ⟨year', time', hloop, hy', hlt', heq, htime⟩ :=
        @ih (year + 1) (time - 24 * yearLen (year + 1900)) (by omega) (by omega)
          (by rw [hyear, hsucc]; omega)
      refine ⟨year', time', hloop, hy', hlt', ?_, htime⟩
      rw [heq, hyear, hsucc]
      omega

/-- The loop over the months stays inside its table, if that has enough days. -/
theorem monLoop_spec : ∀ {ds : List Nat} {mon time : Nat}, 1 ≤ time → time ≤ ds.sum →
    ∃ m d, monLoop ds mon time = some (mon + m, d) ∧ m < ds.length ∧ 1 ≤ d ∧ d ≤ ds[m]! ∧
      (ds.take m).sum + d = time
  | [], _, _, hpos, hle => by simp at hle; omega
  | days :: rest, mon, time, hpos, hle => by
    rw [monLoop]
    split_ifs with h
    · rw [List.sum_cons] at hle
      obtain ⟨m, d, hloop, hm, hd, hdle, heq⟩ :=
        @monLoop_spec rest (mon + 1) (time - days) (by omega) (by omega)
      refine ⟨m + 1, d, by rw [hloop, Nat.add_assoc, Nat.add_comm 1 m], Nat.succ_lt_succ hm, hd, by simpa using hdle,
        ?_⟩
      rw [List.take_succ_cons, List.sum_cons]
      omega
    · exact ⟨0, time, rfl, Nat.succ_pos _, hpos, by simpa using h, by simp⟩

theorem yearLoop_total {fuel year time : Nat} (hf : time < fuel) : ∃ year' time',
    yearLoop fuel year time = some (year', time') ∧ time' < 8760 + if year' &&& 3 = 0 then 24 else 0 := by
  induction fuel generalizing year time with
  | zero => omega
  | succ fuel ih =>
    simp only [yearLoop]
    by_cases h : time < 8760 + if year &&& 3 = 0 then 24 else 0
    · rw [if_pos h]
      exact ⟨year, time, rfl, h⟩
    · rw [if_neg h]
      exact ih (by omega)

/-! ## The date -/

/-- The month and the day the code finds from the days of the year up to and with today. -/
def monthDay (year time : Nat) : Option (Nat × Nat) :=
  if year &&& 3 = 0 then
    if 60 < time then monLoop monDays 0 (time - 1)
    else if 60 = time then some (1, 29)
    else monLoop monDays 0 time
  else monLoop monDays 0 time

theorem monDays_sum : monDays.sum = 365 := rfl

/-- The table is that of the year, but for the leap day. -/
theorem monthStart_table {y m : Nat} (hm : m < 12) :
    monthStart y m = (monDays.take m).sum + if Leap y ∧ 2 ≤ m then 1 else 0 := by
  unfold monthStart monthLens monDays
  by_cases hl : Leap y <;> simp only [hl, if_true, if_false, true_and, false_and] <;> interval_cases m <;> rfl

theorem monthLens_table {y m : Nat} (hm : m < 12) :
    (monthLens y)[m]! = monDays[m]! + if Leap y ∧ m = 1 then 1 else 0 := by
  unfold monthLens monDays
  by_cases hl : Leap y <;> simp only [hl, if_true, if_false, true_and, false_and] <;> interval_cases m <;> rfl

theorem take_monDays_lt {m d : Nat} (hm : m < 12) (hd : d ≤ monDays[m]!) :
    (m < 2 → (monDays.take m).sum + d < 60) ∧ (2 ≤ m → 59 ≤ (monDays.take m).sum) := by
  interval_cases m <;> simp [monDays] at hd ⊢ <;> omega

theorem monthDay_spec {year time : Nat} (h : 70 ≤ year) (h' : year < 200) (hpos : 1 ≤ time)
    (hle : time ≤ yearLen (year + 1900)) :
    ∃ m d, monthDay year time = some (m, d) ∧ m < 12 ∧ 1 ≤ d ∧ d ≤ (monthLens (year + 1900))[m]! ∧
      monthStart (year + 1900) m + d = time := by
  have hleap : Leap (year + 1900) ↔ year &&& 3 = 0 :=
    (leap_iff (by omega) (by omega)).trans (and_three year).symm
  have hlen : yearLen (year + 1900) = if year &&& 3 = 0 then 366 else 365 := by simp only [yearLen, hleap]
  rw [hlen] at hle
  unfold monthDay
  by_cases hy : year &&& 3 = 0
  · rw [if_pos hy] at hle ⊢
    split_ifs with h60 h60'
    · obtain ⟨m, d, hloop, hm, hd, hdle, heq⟩ := @monLoop_spec monDays 0 (time - 1)
        (by omega) (by rw [monDays_sum]; omega)
      obtain ⟨hlow, -⟩ := take_monDays_lt hm hdle
      have h2 : 2 ≤ m := by
        by_contra hm2
        have := hlow (by omega)
        omega
      refine ⟨m, d, by rw [hloop, Nat.zero_add], hm, hd, ?_, ?_⟩
      · rw [monthLens_table hm]
        omega
      · rw [monthStart_table hm, if_pos ⟨hleap.2 hy, h2⟩]
        omega
    · refine ⟨1, 29, rfl, by omega, by omega, ?_, ?_⟩
      · rw [monthLens_table (by omega), if_pos ⟨hleap.2 hy, rfl⟩]
        rfl
      · rw [monthStart_table (by omega), if_neg (by omega)]
        exact h60'
    · obtain ⟨m, d, hloop, hm, hd, hdle, heq⟩ := @monLoop_spec monDays 0 time hpos
        (by rw [monDays_sum]; omega)
      obtain ⟨-, hhigh⟩ := take_monDays_lt hm hdle
      have h2 : ¬ 2 ≤ m := by
        intro hm2
        have := hhigh hm2
        omega
      refine ⟨m, d, by rw [hloop, Nat.zero_add], hm, hd, ?_, ?_⟩
      · rw [monthLens_table hm]
        omega
      · rw [monthStart_table hm, if_neg (by omega)]
        exact heq
  · rw [if_neg hy] at hle ⊢
    obtain ⟨m, d, hloop, hm, hd, hdle, heq⟩ := @monLoop_spec monDays 0 time hpos
      (by rw [monDays_sum]; omega)
    refine ⟨m, d, by rw [hloop, Nat.zero_add], hm, hd, ?_, ?_⟩
    · rw [monthLens_table hm]
      omega
    · rw [monthStart_table hm, if_neg fun hl => hy (hleap.1 hl.1)]
      exact heq

/-- No day of a year is outside the table of the months. -/
theorem monthDay_total {year time : Nat} (hpos : 1 ≤ time) (hle : time ≤ 365 + if year &&& 3 = 0 then 1 else 0) :
    ∃ r, monthDay year time = some r := by
  have hloop {time : Nat} (hpos : 1 ≤ time) (hle : time ≤ 365) : ∃ r, monLoop monDays 0 time = some r := by
    obtain ⟨m, d, h, -⟩ := @monLoop_spec monDays 0 _ hpos hle
    exact ⟨_, h⟩
  unfold monthDay
  by_cases hy : year &&& 3 = 0
  · rw [if_pos hy] at hle ⊢
    split_ifs
    · exact hloop (by omega) (by omega)
    · exact ⟨_, rfl⟩
    · exact hloop hpos (by omega)
  · rw [if_neg hy] at hle ⊢
    exact hloop hpos hle

/-! ## The civil time of the code -/

theorem localTime_eq (t : Nat) : localTime t =
    (yearLoop ((t + 28800) / 60 / 60 % 35064 + 1) (((t + 28800) / 60 / 60 % 2 ^ 32 / 35064) <<< 2 + 70)
      ((t + 28800) / 60 / 60 % 35064)).bind fun r => (monthDay r.1 (r.2 / 24 + 1)).map fun md =>
        { sec := (t + 28800) % 60, min := (t + 28800) / 60 % 60, hour := r.2 % 24, mday := md.2, mon := md.1,
          year := r.1, wday := ((t + 28800) / 60 / 60 / 24 + 4) % 7,
          yday := (t + 28800) / 60 / 60 % 35064 / 24 % 365, isdst := 0 } := by
  simp only [localTime, monthDay]
  cases yearLoop ((t + 28800) / 60 / 60 % 35064 + 1) (((t + 28800) / 60 / 60 % 2 ^ 32 / 35064) <<< 2 + 70)
    ((t + 28800) / 60 / 60 % 35064) with
  | none => rfl
  | some r =>
    simp only [Option.bind_some]
    split_ifs <;> rfl

/-- Both loops end inside their bounds, at any time. -/
theorem localTime_total (t : Nat) : ∃ tm, localTime t = some tm := by
  rw [localTime_eq]
  obtain ⟨year, time, hloop, htime⟩ := @yearLoop_total _ (((t + 28800) / 60 / 60 % 2 ^ 32 / 35064) <<< 2 + 70) _
    (Nat.lt_add_one ((t + 28800) / 60 / 60 % 35064))
  have hday : time / 24 + 1 ≤ 365 + if year &&& 3 = 0 then 1 else 0 := by
    by_cases hy : year &&& 3 = 0
    · rw [if_pos hy] at htime ⊢
      omega
    · rw [if_neg hy] at htime ⊢
      omega
  obtain ⟨r, hr⟩ := monthDay_total (Nat.le_add_left 1 _) hday
  simp only [hloop, Option.bind_some, hr, Option.map_some]
  exact ⟨_, rfl⟩

theorem yearStart_2100 : yearStart 2100 = 47482 := yearStart_eq (k := 130) (by omega)

/-- Up to the end of 2099 all but the day of the year is that of the calendar. -/
theorem localTime_spec {t : Nat} (h : t + 28800 < 86400 * yearStart 2100) :
    ∃ tm, localTime t = some tm ∧ tm.yday = (t + 28800) / 86400 % 1461 % 365 ∧
      IsCivil { tm with yday := (t + 28800) / 86400 - yearStart (tm.year + 1900) } (t + 28800) := by
  rw [localTime_eq]
  generalize hs : t + 28800 = s at h ⊢
  rw [yearStart_2100] at h
  have hmod : s / 60 / 60 % 2 ^ 32 = s / 60 / 60 := Nat.mod_eq_of_lt (by omega)
  rw [hmod, Nat.shiftLeft_eq]
  have hblock : yearStart (s / 60 / 60 / 35064 * 2 ^ 2 + 70 + 1900) = 1461 * (s / 60 / 60 / 35064) := by
    rw [show s / 60 / 60 / 35064 * 2 ^ 2 + 70 + 1900 = 1970 + 4 * (s / 60 / 60 / 35064) by omega,
      yearStart_eq (by omega)]
    omega
  obtain ⟨year, time, hloop, hy, hlt, heq, htime⟩ := @yearLoop_spec _ _ (s / 60 / 60 % 35064)
    (Nat.lt_add_one _) (show 70 ≤ s / 60 / 60 / 35064 * 2 ^ 2 + 70 by omega)
    (by rw [hblock, yearStart_2100]; omega)
  rw [hblock] at heq
  obtain ⟨m, d, hmd, hm, hd, hdle, hday⟩ := @monthDay_spec _ (time / 24 + 1) hy hlt (by omega) (by omega)
  simp only [hloop, Option.bind_some, hmd, Option.map_some]
  refine ⟨_, rfl, ?_, ?_⟩
  · show s / 60 / 60 % 35064 / 24 % 365 = s / 86400 % 1461 % 365
    have hblockDay : s / 60 / 60 % 35064 / 24 = s / 86400 % 1461 := by omega
    rw [hblockDay]
  · refine ⟨rfl, rfl, ?_, ?_, ⟨show 1970 ≤ year + 1900 by omega, hm, hd, hdle, ?_⟩, ?_⟩
    · show time % 24 = s / 3600 % 24
      omega
    · show (s / 60 / 60 / 24 + 4) % 7 = (s / 86400 + 4) % 7
      omega
    · show yearStart (year + 1900) + monthStart (year + 1900) m + d = s / 86400 + 1
      omega
    · show yearStart (year + 1900) + (s / 86400 - yearStart (year + 1900)) = s / 86400
      omega

/-- The day of the year is wrong from the leap day of a block of four years to its end: on the last
day of the leap year, and in the year after. -/
theorem localTime_right_iff {t : Nat} (h : t + 28800 < 86400 * yearStart 2100) :
    (∃ tm, localTime t = some tm ∧ IsCivil tm (t + 28800)) ↔ (t + 28800) / 86400 % 1461 < 1095 := by
  obtain ⟨tm, htm, hyday, hcivil⟩ := localTime_spec h
  have hyear := hcivil.date.year
  have hepoch := hcivil.date.epoch
  generalize hn : (t + 28800) / 86400 = n at *
  simp only at hyear hepoch
  have hn' : n < 47482 := by
    rw [yearStart_2100] at h
    omega
  have hlt : tm.year + 1900 < 2100 := by
    by_contra hge
    have := yearStart_mono (show 2100 ≤ tm.year + 1900 by omega)
    rw [yearStart_2100] at this
    omega
  have hstart : yearStart (tm.year + 1900) = 365 * (tm.year - 70) + (tm.year - 69) / 4 := by
    rw [show tm.year + 1900 = 1970 + (tm.year - 70) by omega, yearStart_eq (by omega)]
    omega
  have hlen := yearStart_succ hepoch
  rw [yearLen_eq hepoch hlt] at hlen
  have hright : (∃ tm, localTime t = some tm ∧ IsCivil tm (t + 28800)) ↔
      n - yearStart (tm.year + 1900) = n % 1461 % 365 := by
    rw [htm]
    constructor
    · rintro ⟨tm', htm', hc⟩
      obtain rfl : tm = tm' := Option.some.inj htm'
      have := hc.yday
      rw [hn] at this
      omega
    · intro hday
      refine ⟨tm, rfl, ?_⟩
      rw [hday, ← hyday] at hcivil
      exact hcivil
  rw [hright, hstart]
  rw [hstart] at hyear hlen
  -- the block and the year of it
  obtain ⟨q, r, hr, hq⟩ : ∃ q r, r < 4 ∧ tm.year = 70 + (4 * q + r) :=
    ⟨(tm.year - 70) / 4, (tm.year - 70) % 4, by omega, by omega⟩
  interval_cases r
  · rw [if_neg (by omega)] at hlen
    omega
  · rw [if_neg (by omega)] at hlen
    omega
  · rw [if_pos (by omega)] at hlen
    omega
  · rw [if_neg (by omega)] at hlen
    omega

/-- The first second of 1970 at UTC. -/
theorem localTime_right_iff_zero :
    (∃ tm, localTime 0 = some tm ∧ IsCivil tm (0 + 28800)) ↔ (0 + 28800) / 86400 % 1461 < 1095 :=
  localTime_right_iff (by rw [yearStart_2100]; omega)

/-- On the first of January 1973 the code says day 1 of the year, counted from 0. -/
theorem localTime_wrong : ¬ ∀ t, t + 28800 < 86400 * yearStart 2100 →
    ∃ tm, localTime t = some tm ∧ IsCivil tm (t + 28800) := by
  intro hall
  obtain ⟨tm, htm, hc⟩ := hall 94665600 (by rw [yearStart_2100]; omega)
  obtain ⟨tm', htm', hyday, hcivil⟩ := localTime_spec (t := 94665600) (by rw [yearStart_2100]; omega)
  obtain rfl : tm = tm' := Option.some.inj (htm.symm.trans htm')
  have hstart : yearStart 1973 = 1096 := yearStart_eq (k := 3) (by omega)
  have hdate : IsDate 1096 1973 0 1 := ⟨by omega, by omega, by omega, by simp [monthLens], by rw [hstart]; rfl⟩
  have hday := hc.yday
  rw [(hc.date.unique hdate).1, hstart, hyday] at hday
  omega

end BeehiveIm.Core
