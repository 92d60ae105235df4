/-
The buffer of a log object (`log.c`, `logsvr.c`): `log_write`, `log_print_dump` and the sync to the
disk. Both hold the lock of the object, so that a call is one step.

A dump is printed when the space left exceeds its length, but it takes about five times as much. The
space left that decides on a sync is that before the dump.
-/
import BeehiveIm.Core.LocalTime
import BeehiveIm.Lib.Buffer
import BeehiveIm.Lib.CStr
import BeehiveIm.Lib.Run
import BeehiveIm.Lib.Strconv

namespace BeehiveIm.Core

open BeehiveIm.Lib

namespace Log

/-! ## The texts -/

/-- `log_level_e`; `LOG_LEVEL_TOTAL` stands for all that are no level. -/
inductive LogLevel where
  | trace
  | debug
  | info
  | warn
  | error
  | fatal
  | total
  deriving DecidableEq

def LogLevel.str : LogLevel → List Byte
  | fatal => ascii "FATAL".toList
  | error => ascii "ERROR".toList
  | warn => ascii "WARN".toList
  | info => ascii "INFO".toList
  | debug => ascii "DEBUG".toList
  | trace => ascii "TRACE".toList
  | total => ascii "OTHER".toList

/-- `struct timeb` -/
structure Timeb where
  time : Nat
  millitm : Nat

/-- A number filled up with zeros on the left. -/
def zeroPad (width : Nat) (s : List Byte) : List Byte := List.replicate (width - s.length) 48#8 ++ s

/-- `%x` -/
def hexadecimal (n : Nat) : List Byte := ascii (Nat.toDigits 16 n)

/-- The line of a message: `@%d|%04d%02d%02d|%02d:%02d:%02d.%03d|FATAL %s\n`. -/
def logLine (pid : Nat) (loctm : Tm) (millitm : Nat) (level : LogLevel) (errmsg : CStr) : List Byte :=
  ascii ['@'] ++ decimal pid ++ ascii ['|'] ++ zeroPad 4 (decimal (loctm.year + 1900)) ++
    zeroPad 2 (decimal (loctm.mon + 1)) ++ zeroPad 2 (decimal loctm.mday) ++ ascii ['|'] ++
    zeroPad 2 (decimal loctm.hour) ++ ascii [':'] ++ zeroPad 2 (decimal loctm.min) ++ ascii [':'] ++
    zeroPad 2 (decimal loctm.sec) ++ ascii ['.'] ++ zeroPad 3 (decimal millitm) ++ ascii ['|'] ++ level.str ++
    ascii [' '] ++ errmsg.val ++ ascii ['\n']

/-- `LOG_DUMP_HEAD_STR` -/
def logDumpHeadStr : List Byte :=
  ascii "\nDisplacement -1--2--3--4--5--6--7--8-Hex-0--1--2--3--4--5--6  --ASCII Value--\n".toList

/-- The prints of a row of the dump. A string is printed with its NUL, which the cursor does not
pass; a byte from 128 on is printed as the negative number it is, over the place of the next. -/
def rowPrints (row : Nat) (bytes : List Byte) : List Print :=
  (if (row + 1) % 20 = 0 then [⟨logDumpHeadStr ++ [0], logDumpHeadStr.length⟩] else []) ++
  [⟨zeroPad 5 (decimal (row * 16)) ++ [0], 5⟩,
    ⟨ascii ['('] ++ zeroPad 5 (hexadecimal (row * 16)) ++ ascii [')', ' '] ++ [0], 8⟩] ++
  bytes.map (fun b => ⟨zeroPad 2 (hexadecimal (b.signExtend 32).toNat) ++ ascii [' '] ++ [0], 3⟩) ++
  List.replicate (16 - bytes.length) ⟨ascii [' ', ' ', ' '] ++ [0], 3⟩ ++
  [⟨ascii [' '] ++ [0], 1⟩] ++
  bytes.map (fun b => ⟨if b ≤ 31 then ascii ['*'] else [b], 1⟩) ++
  [⟨ascii ['\n'], 1⟩]

/-- The rows of a dump of 16 bytes each, the last of the rest. -/
def dumpPrints (dump : List Byte) : List Print :=
  (List.range ((dump.length - 1) / 16 + 1)).flatMap fun row => rowPrints row ((dump.drop (16 * row)).take 16)

/-- `log_print_dump` at `addr`: the text, and the end of the dump in it. The loop over the rows
takes the whole dump, so that the loop around it makes one round. -/
def logPrintDump (text : List Byte) (addr : Nat) (dump : List Byte) : Option (List Byte × Nat) :=
  (dumpPrints dump).foldlM Print.put (text, addr)

/-- `snprintf(addr, left, …)` of a line; the space left is taken for a `size_t`. -/
def snprintfAt (text : List Byte) (addr : Nat) (left : Int) (line : List Byte) : Option (List Byte) :=
  let n := (left % 2 ^ 64).toNat
  if n = 0 then some text else putAt text addr (line.take (n - 1) ++ [0])

/-! ## The log object -/

/-- `LOG_MEM_SIZE` -/
def logMemSize : Nat := 1024 * 1024

/-- `log_cycle_t` -/
structure LogCycle where
  pid : Nat
  size : Nat
  inoff : Nat
  outoff : Nat
  text : List Byte

/-- `log_init` -/
def logInit (pid : Nat) : LogCycle := ⟨pid, logMemSize, 0, 0, List.replicate logMemSize 0⟩

/-- `log_sync`: what `log_sync_to_disk` leaves of the buffer, whether or not the file could be
written. -/
def logSync (log : LogCycle) : Option LogCycle :=
  if log.inoff = log.outoff then some log
  else
    (putAt log.text 0 (List.replicate (log.inoff - log.outoff) 0)).map fun text =>
      { log with text := text, inoff := 0, outoff := 0 }

/-- `log_write` -/
def logWrite (log : LogCycle) (level : LogLevel) (dump : Option (List Byte)) (errmsg : CStr) (ctm : Timeb) :
    Option LogCycle := do
  let loctm ← localTime ctm.time
  let left : Int := log.size - log.inoff
  let text ← snprintfAt log.text log.inoff left (logLine log.pid loctm ctm.millitm level errmsg)
  let msglen ← strlenAt text log.inoff
  let addr := log.inoff + msglen
  let left := left - msglen
  let r ← match dump with
    | none => some (text, addr)
    | some dump =>
      if 0 < dump.length ∧ (dump.length : Int) < left then logPrintDump text addr dump else some (text, addr)
  let log := { log with text := r.1, inoff := r.2 }
  -- `left <= 0.8 * log->size`
  if 5 * left ≤ 4 * log.size then logSync log else some log

/-- A call, or the thread that syncs. -/
inductive Op where
  | write (level : LogLevel) (dump : Option (List Byte)) (errmsg : CStr) (ctm : Timeb)
  | sync

/-- A step; `none` when a byte outside the buffer is written or read. -/
def LogCycle.step (log : LogCycle) : Op → Option LogCycle
  | .write level dump errmsg ctm => logWrite log level dump errmsg ctm
  | .sync => logSync log

/-! ## The space a call takes -/

/-- The length of the text of a dump of `n` bytes: 63 bytes for each row, one for each
byte, and 79 for each head. -/
def dumpLen (n : Nat) : Nat := 63 * ((n - 1) / 16 + 1) + n + 79 * (((n - 1) / 16 + 1) / 20)

/-- The space left behind the message, which is cut off where the buffer ends. -/
def leftBehind (log : LogCycle) (line : List Byte) : Nat :=
  log.size - log.inoff - min line.length (log.size - log.inoff - 1)

/-- There is room for the message, if only for its NUL; and the space behind it is as large as the
text of the dump, or is not larger than the dump. -/
def Fits (log : LogCycle) : Op → Prop
  | .sync => True
  | .write level dump errmsg ctm => log.inoff < log.size ∧ ∀ loctm ∈ localTime ctm.time, ∀ d ∈ dump, d ≠ [] →
      d.length < leftBehind log (logLine log.pid loctm ctm.millitm level errmsg) →
      dumpLen d.length ≤ leftBehind log (logLine log.pid loctm ctm.millitm level errmsg)

/-! ## The dump -/

theorem length_zeroPad (width : Nat) (s : List Byte) : (zeroPad width s).length = max width s.length := by
  rw [zeroPad, List.length_append, List.length_replicate]
  omega

theorem length_ascii (l : List Char) : (ascii l).length = l.length := List.length_map _

theorem length_decimal_le {n k : Nat} (hk : 0 < k) (h : n < 10 ^ k) : (decimal n).length ≤ k := by
  rw [decimal, length_ascii]
  exact (Nat.length_toDigits_le_iff (by omega) hk).2 h

theorem length_hexadecimal_le {n k : Nat} (hk : 0 < k) (h : n < 16 ^ k) : (hexadecimal n).length ≤ k := by
  rw [hexadecimal, length_ascii]
  exact (Nat.length_toDigits_le_iff (by omega) hk).2 h

theorem length_logDumpHeadStr : logDumpHeadStr.length = 79 := by decide

/-- The length of a row of `k` bytes. -/
def rowLen (row k : Nat) : Nat := (if (row + 1) % 20 = 0 then 79 else 0) + 63 + k

section Row

variable {row off limit : Nat} {bytes : List Byte}

open Print

theorem moved_hex : moved (bytes.map fun b =>
    ⟨zeroPad 2 (hexadecimal (b.signExtend 32).toNat) ++ ascii [' '] ++ [0], 3⟩) = 3 * bytes.length := by
  rw [moved_of_eq (k := 3), List.length_map]
  intro p hp
  obtain ⟨b, -, rfl⟩ := List.mem_map.1 hp
  rfl

theorem moved_pad : moved (List.replicate (16 - bytes.length) ⟨ascii [' ', ' ', ' '] ++ [0], 3⟩) =
    3 * (16 - bytes.length) := by
  rw [moved_of_eq (k := 3), List.length_replicate]
  intro p hp
  rw [List.eq_of_mem_replicate hp]

theorem moved_chars : moved (bytes.map fun b => ⟨if b ≤ 31 then ascii ['*'] else [b], 1⟩) = bytes.length := by
  rw [moved_of_eq (k := 1), List.length_map, Nat.one_mul]
  intro p hp
  obtain ⟨b, -, rfl⟩ := List.mem_map.1 hp
  rfl

theorem moved_head : moved (if (row + 1) % 20 = 0 then [⟨logDumpHeadStr ++ [0], logDumpHeadStr.length⟩] else []) =
    if (row + 1) % 20 = 0 then 79 else 0 := by
  split_ifs
  · simp [length_logDumpHeadStr]
  · rfl

theorem moved_row (hlen : bytes.length ≤ 16) : moved (rowPrints row bytes) = rowLen row bytes.length := by
  simp only [rowPrints, moved_append, moved_head, moved_hex, moved_pad, moved_chars, moved_cons, moved_nil, rowLen]
  omega

/-- A row stays inside just when its last byte does. -/
theorem stays_row (hrow : row * 16 < 10 ^ 7) (hlen : bytes.length ≤ 16) :
    Stays limit off (rowPrints row bytes) ↔ off + rowLen row bytes.length ≤ limit := by
  have hmoved : moved (rowPrints row bytes) = rowLen row bytes.length := moved_row hlen
  have hdec : (zeroPad 5 (decimal (row * 16))).length ≤ 7 := by
    rw [length_zeroPad]
    have := length_decimal_le (k := 7) (by omega) hrow
    omega
  have hhex : (zeroPad 5 (hexadecimal (row * 16))).length ≤ 7 := by
    rw [length_zeroPad]
    have := length_hexadecimal_le (n := row * 16) (k := 7) (by omega) (by omega)
    omega
  constructor
  · intro h
    rw [rowPrints, stays_append] at h
    have hlast := h.2.1
    simp only [moved_append, moved_head, moved_hex, moved_pad, moved_chars, moved_cons, moved_nil, length_ascii,
      List.length_singleton] at hlast
    rw [rowLen]
    omega
  · intro h
    rw [rowLen] at h
    simp only [rowPrints, stays_append, moved_append, moved_head, moved_hex, moved_pad, moved_chars, moved_cons,
      moved_nil]
    refine ⟨⟨⟨⟨⟨⟨?_, ?_⟩, ?_⟩, ?_⟩, ?_⟩, ?_⟩, ?_⟩
    · split_ifs with hhead
      · rw [if_pos hhead] at h
        refine ⟨?_, trivial⟩
        rw [List.length_append, length_logDumpHeadStr, List.length_singleton]
        omega
      · trivial
    · refine ⟨?_, ?_, trivial⟩
      · rw [List.length_append, List.length_singleton]
        omega
      · simp only [List.length_append, length_ascii, List.length_cons, List.length_nil]
        omega
    · refine stays_of_le (k := 3) (m := 10) (fun p hp => ?_) ?_
      · obtain ⟨b, -, rfl⟩ := List.mem_map.1 hp
        refine ⟨rfl, ?_⟩
        have hb := length_hexadecimal_le (n := (b.signExtend 32).toNat) (k := 8) (by omega) (b.signExtend 32).isLt
        simp only [List.length_append, length_zeroPad, length_ascii, List.length_cons, List.length_nil]
        omega
      · rw [List.length_map]
        omega
    · refine stays_of_le (k := 3) (m := 4) (fun p hp => ?_) ?_
      · rw [List.eq_of_mem_replicate hp]
        exact ⟨rfl, Nat.le_refl _⟩
      · rw [List.length_replicate]
        omega
    · refine ⟨?_, trivial⟩
      simp only [List.length_append, length_ascii, List.length_cons, List.length_nil]
      omega
    · refine stays_of_le (k := 1) (m := 1) (fun p hp => ?_) ?_
      · obtain ⟨b, -, rfl⟩ := List.mem_map.1 hp
        refine ⟨rfl, ?_⟩
        show (if b ≤ 31 then ascii ['*'] else [b]).length ≤ 1
        split_ifs <;> exact Nat.le_refl _
      · rw [List.length_map]
        omega
    · refine ⟨?_, trivial⟩
      rw [length_ascii, List.length_singleton]
      omega

end Row

section Dump

variable {off limit R : Nat} {dump text : List Byte}

open Print

/-- The first rows of a dump. -/
def rows (dump : List Byte) (R : Nat) : List Print :=
  (List.range R).flatMap fun row => rowPrints row ((dump.drop (16 * row)).take 16)

theorem rows_succ : rows dump (R + 1) = rows dump R ++ rowPrints R ((dump.drop (16 * R)).take 16) := by
  rw [rows, List.range_succ, List.flatMap_append, List.flatMap_singleton]
  rfl

/-- The length of the first rows. -/
def rowsLen (n R : Nat) : Nat := 63 * R + min (16 * R) n + 79 * (R / 20)

theorem rowsLen_succ : rowsLen dump.length (R + 1) =
    rowsLen dump.length R + rowLen R ((dump.drop (16 * R)).take 16).length := by
  rw [rowsLen, rowsLen, rowLen, List.length_take, List.length_drop]
  split <;> omega

theorem moved_rows : moved (rows dump R) = rowsLen dump.length R := by
  induction R with
  | zero => simp [rows, rowsLen]
  | succ R ih => rw [rows_succ, moved_append, ih, moved_row (by simp), rowsLen_succ]

theorem stays_rows (hoff : off ≤ limit) (hR : R * 16 ≤ 10 ^ 7) :
    Stays limit off (rows dump R) ↔ off + rowsLen dump.length R ≤ limit := by
  induction R with
  | zero => simpa [rows, rowsLen, Stays] using hoff
  | succ R ih =>
    rw [rows_succ, stays_append, ih (by omega), moved_rows, stays_row (by omega) (by simp), rowsLen_succ]
    omega

theorem rowsLen_dump (h : dump ≠ []) : rowsLen dump.length ((dump.length - 1) / 16 + 1) = dumpLen dump.length := by
  have hpos : 0 < dump.length := List.length_pos_iff.2 h
  rw [rowsLen, dumpLen]
  omega

/-- A dump is printed just when its text has room, and the text ends as far behind its
beginning as it is long. -/
theorem logPrintDump_iff (h : dump ≠ []) (hoff : off ≤ text.length) (hlen : dump.length ≤ 2 * logMemSize) :
    (∃ r, logPrintDump text off dump = some r) ↔ off + dumpLen dump.length ≤ text.length := by
  rw [logPrintDump, foldlM_put_iff, show dumpPrints dump = rows dump _ from rfl, 
    stays_rows hoff (by rw [logMemSize] at hlen; omega), rowsLen_dump h]

theorem logPrintDump_some (h : dump ≠ []) {r : List Byte × Nat} (hr : logPrintDump text off dump = some r) :
    r.1.length = text.length ∧ r.2 = off + dumpLen dump.length := by
  rw [← rowsLen_dump h, ← moved_rows]
  exact foldlM_put_some hr

end Dump

/-! ## A call -/

/-- The buffer of the size it was made with, nothing synced without all of it. -/
structure Inv (log : LogCycle) : Prop where
  size : log.size = logMemSize
  text : log.text.length = log.size
  outoff : log.outoff = 0
  inoff : log.inoff ≤ log.size

theorem logInit_inv (pid : Nat) : Inv (logInit pid) where
  size := rfl
  text := List.length_replicate
  outoff := rfl
  inoff := Nat.zero_le _

variable {log log' : LogCycle} {level : LogLevel} {dump : Option (List Byte)} {errmsg : CStr} {ctm : Timeb}

theorem logSync_spec (h : Inv log) : ∃ log', logSync log = some log' ∧ Inv log' := by
  have hin := h.inoff
  unfold logSync
  split_ifs
  · exact ⟨log, rfl, h⟩
  · obtain ⟨text, htext⟩ := (@putAt_isSome log.text 0 (List.replicate (log.inoff - log.outoff) 0)).2
      (by rw [List.length_replicate, h.text]; omega)
    rw [htext]
    exact ⟨_, rfl, h.size, (length_putAt htext).trans h.text, rfl, Nat.zero_le _⟩

theorem notMem_decimal_zero (n : Nat) : (0 : Byte) ∉ decimal n :=
  notMem_decimal fun d hd => by interval_cases d <;> decide

theorem notMem_zeroPad {width : Nat} {s : List Byte} (h : (0 : Byte) ∉ s) : (0 : Byte) ∉ zeroPad width s := by
  rw [zeroPad, List.mem_append, not_or]
  refine ⟨fun h0 => ?_, h⟩
  have := List.eq_of_mem_replicate h0
  revert this
  decide

/-- A line has no NUL. -/
theorem notMem_logLine (pid : Nat) (loctm : Tm) (millitm : Nat) (level : LogLevel) (errmsg : CStr) :
    (0 : Byte) ∉ logLine pid loctm millitm level errmsg := by
  have hstr : (0 : Byte) ∉ level.str := by cases level <;> decide
  have hchar : ∀ c ∈ ['@', '|', ':', '.', ' ', '\n'], (0 : Byte) ∉ ascii [c] := by simp [ascii]
  simp only [List.forall_mem_cons] at hchar
  obtain ⟨h1, h2, h3, h4, h5, h6, -⟩ := hchar
  have hnum (width n : Nat) : (0 : Byte) ∉ zeroPad width (decimal n) := notMem_zeroPad (notMem_decimal_zero n)
  simp only [logLine, List.mem_append, not_or]
  exact ⟨⟨⟨⟨⟨⟨⟨⟨⟨⟨⟨⟨⟨⟨⟨⟨⟨⟨h1, notMem_decimal_zero pid⟩, h2⟩, hnum _ _⟩, hnum _ _⟩, hnum _ _⟩, h2⟩, hnum _ _⟩, h3⟩,
    hnum _ _⟩, h3⟩, hnum _ _⟩, h4⟩, hnum _ _⟩, h2⟩, hstr⟩, h5⟩, errmsg.prop⟩, h6⟩

/-- The message is printed up to the end of the buffer at most, and its length is found again. -/
theorem snprintfAt_spec (h : Inv log) (hlt : log.inoff < log.size) {line : List Byte} (hline : (0 : Byte) ∉ line) :
    ∃ text, snprintfAt log.text log.inoff (log.size - log.inoff) line = some text ∧ text.length = log.size ∧
      strlenAt text log.inoff = some (min line.length (log.size - log.inoff - 1)) := by
  have hsize := h.size
  have hleft : ((log.size - log.inoff : Int) % 2 ^ 64).toNat = log.size - log.inoff := by
    rw [hsize, logMemSize] at hlt ⊢
    omega
  have htake : (line.take (log.size - log.inoff - 1)).length = min line.length (log.size - log.inoff - 1) := by
    rw [List.length_take, Nat.min_comm]
  obtain ⟨text, htext⟩ := (@putAt_isSome log.text log.inoff (line.take (log.size - log.inoff - 1) ++ [0])).2
    (by rw [List.length_append, htake, List.length_singleton, h.text]; omega)
  refine ⟨text, ?_, (length_putAt htext).trans h.text, ?_⟩
  · unfold snprintfAt
    simp only [hleft]
    rw [if_neg (by omega), htext]
  · rw [strlenAt_putAt (fun h0 => hline (List.mem_of_mem_take h0)) htext, htake]

/-- What a call leaves that has printed up to `r.2`. -/
def flush (log : LogCycle) (left : Int) (r : List Byte × Nat) : Option LogCycle :=
  if 5 * left ≤ 4 * log.size then logSync { log with text := r.1, inoff := r.2 }
  else some { log with text := r.1, inoff := r.2 }

theorem flush_spec (h : Inv log) (left : Int) {r : List Byte × Nat} (htext : r.1.length = log.size)
    (hin : r.2 ≤ log.size) : ∃ log', flush log left r = some log' ∧ Inv log' := by
  have hinv : Inv { log with text := r.1, inoff := r.2 } := ⟨h.size, htext, h.outoff, hin⟩
  unfold flush
  split_ifs
  · exact logSync_spec hinv
  · exact ⟨_, rfl, hinv⟩

/-- The print of a dump where it is made. -/
def printDump (text : List Byte) (addr left : Nat) : Option (List Byte) → Option (List Byte × Nat)
  | none => some (text, addr)
  | some dump => if 0 < dump.length ∧ dump.length < left then logPrintDump text addr dump else some (text, addr)

/-- A call with room for its message prints it, then the dump, and syncs. -/
theorem logWrite_eq (h : Inv log) (hlt : log.inoff < log.size) {loctm : Tm} (htm : localTime ctm.time = some loctm) :
    ∃ text addr left, text.length = log.size ∧ addr + left = log.size ∧
      left = leftBehind log (logLine log.pid loctm ctm.millitm level errmsg) ∧
      logWrite log level dump errmsg ctm = (printDump text addr left dump).bind (flush log left) := by
  obtain ⟨text, hprint, hlen, hstrlen⟩ := snprintfAt_spec h hlt (notMem_logLine log.pid loctm ctm.millitm level errmsg)
  generalize hm : min (logLine log.pid loctm ctm.millitm level errmsg).length (log.size - log.inoff - 1) = m at hstrlen
  have hmle : m ≤ log.size - log.inoff - 1 := by rw [← hm]; exact Nat.min_le_right _ _
  refine ⟨text, log.inoff + m, log.size - log.inoff - m, hlen, by omega, by rw [leftBehind, hm], ?_⟩
  have hleft : (log.size : Int) - log.inoff - m = ((log.size - log.inoff - m : Nat) : Int) := by omega
  unfold logWrite
  rw [htm]
  simp only [Option.bind_eq_bind, Option.bind_some, hprint, hstrlen, hleft, Nat.cast_lt]
  cases dump with
  | none => rfl
  | some d =>
    simp only [printDump]
    by_cases hcond : 0 < d.length ∧ d.length < log.size - log.inoff - m
    · rw [if_pos hcond, if_pos hcond]
      rfl
    · rw [if_neg hcond, if_neg hcond]
      rfl

/-- Where there is no room for the message, not for its NUL either, its length is
read behind the buffer. -/
theorem logWrite_full (h : Inv log) (hfull : ¬ log.inoff < log.size) : logWrite log level dump errmsg ctm = none := by
  obtain ⟨loctm, htm⟩ := localTime_total ctm.time
  have hin := h.inoff
  have hleft : (log.size : Int) - log.inoff = 0 := by omega
  have hend : strlenAt log.text log.inoff = none := by
    rw [strlenAt, List.drop_eq_nil_of_le (by rw [h.text]; omega)]
    rfl
  unfold logWrite
  rw [htm]
  simp [hleft, snprintfAt, hend]

/-- A dump that is printed takes the room of its text. -/
theorem printDump_iff {text : List Byte} {addr left : Nat} (htext : text.length = logMemSize)
    (hleft : addr + left = logMemSize) :
    (∃ r, printDump text addr left dump = some r) ↔
      ∀ d ∈ dump, d ≠ [] → d.length < left → dumpLen d.length ≤ left := by
  cases dump with
  | none => exact iff_of_true ⟨_, rfl⟩ (by simp)
  | some dump =>
    simp only [Option.mem_def, Option.some.injEq, forall_eq', printDump]
    split_ifs with hcond
    · have hne : dump ≠ [] := List.length_pos_iff.1 hcond.1
      rw [logPrintDump_iff hne (by omega) (by omega)]
      constructor
      · intro hle _ _
        omega
      · intro hle
        have := hle hne hcond.2
        omega
    · exact iff_of_true ⟨_, rfl⟩ fun hne hlt => absurd ⟨List.length_pos_iff.2 hne, hlt⟩ hcond

theorem printDump_some {text : List Byte} {addr left : Nat} (htext : text.length = logMemSize)
    (hleft : addr + left = logMemSize) {r : List Byte × Nat} (hr : printDump text addr left dump = some r) :
    r.1.length = logMemSize ∧ r.2 ≤ logMemSize := by
  cases dump with
  | none =>
    cases hr
    exact ⟨htext, by omega⟩
  | some dump =>
    have hfits := (printDump_iff htext hleft).1 ⟨r, hr⟩ dump rfl
    simp only [printDump] at hr
    split_ifs at hr with hcond
    · have hne : dump ≠ [] := List.length_pos_iff.1 hcond.1
      obtain ⟨hlen, hend⟩ := logPrintDump_some hne hr
      have := hfits hne hcond.2
      exact ⟨hlen.trans htext, by omega⟩
    · cases hr
      exact ⟨htext, by omega⟩

/-- A step stays inside the buffer just when its text fits. -/
theorem step_iff (h : Inv log) (op : Op) : (∃ log', log.step op = some log') ↔ Fits log op := by
  cases op with
  | sync =>
    obtain ⟨log', hsync, -⟩ := logSync_spec h
    exact iff_of_true ⟨log', hsync⟩ trivial
  | write level dump errmsg ctm =>
    by_cases hlt : log.inoff < log.size
    · obtain ⟨loctm, htm⟩ := localTime_total ctm.time
      obtain ⟨text, addr, left, htext, hsize, hleft, hwrite⟩ := @logWrite_eq log level dump errmsg _ h hlt
        loctm htm
      have hprint := @printDump_iff dump _ _ _ (htext.trans h.size) (hsize.trans h.size)
      simp only [Fits, hlt, true_and, htm, Option.mem_def, Option.some.injEq, forall_eq', ← hleft] at hprint ⊢
      rw [← hprint, LogCycle.step, hwrite]
      constructor
      · rintro ⟨log', hlog'⟩
        obtain ⟨r, hr, -⟩ := Option.bind_eq_some_iff.1 hlog'
        exact ⟨r, hr⟩
      · rintro ⟨r, hr⟩
        obtain ⟨hlen, hend⟩ := printDump_some (htext.trans h.size) (hsize.trans h.size) hr
        obtain ⟨log', hlog', -⟩ := flush_spec h left (hlen.trans h.size.symm) (hend.trans h.size.ge)
        exact ⟨log', by rw [hr]; exact hlog'⟩
    · refine iff_of_false ?_ fun hfits => hlt hfits.1
      rintro ⟨log', hlog'⟩
      rw [LogCycle.step, logWrite_full h hlt] at hlog'
      cases hlog'

theorem Inv.step (h : Inv log) {op : Op} (hs : log.step op = some log') : Inv log' := by
  cases op with
  | sync =>
    obtain ⟨log'', hsync, hinv⟩ := logSync_spec h
    rw [LogCycle.step, hsync] at hs
    cases hs
    exact hinv
  | write level dump errmsg ctm =>
    by_cases hlt : log.inoff < log.size
    · obtain ⟨loctm, htm⟩ := localTime_total ctm.time
      obtain ⟨text, addr, left, htext, hsize, -, hwrite⟩ := @logWrite_eq log level dump errmsg _ h hlt
        loctm htm
      rw [LogCycle.step, hwrite] at hs
      obtain ⟨r, hr, hflush⟩ := Option.bind_eq_some_iff.1 hs
      obtain ⟨hlen, hend⟩ := printDump_some (htext.trans h.size) (hsize.trans h.size) hr
      obtain ⟨log'', hlog'', hinv⟩ := flush_spec h left (hlen.trans h.size.symm) (hend.trans h.size.ge)
      cases hflush.symm.trans hlog''
      exact hinv
    · rw [LogCycle.step, logWrite_full h hlt] at hs
      cases hs

/-- A run stays inside the buffer just when every call of it finds room: for its message at all, and
for the text of its dump if the space behind the message exceeds the dump. -/
theorem log_inside_iff (pid : Nat) (ops : List Op) :
    (∃ log, ops.foldlM LogCycle.step (logInit pid) = some log ∧ log.inoff ≤ log.size) ↔
      Along LogCycle.step Fits (logInit pid) ops := by
  have hrun : ∀ (ops : List Op) {log : LogCycle}, Inv log →
      ((∃ log', ops.foldlM LogCycle.step log = some log' ∧ log'.inoff ≤ log'.size) ↔
        Along LogCycle.step Fits log ops) := by
    intro ops
    induction ops with
    | nil => exact fun h => iff_of_true ⟨_, rfl, h.inoff⟩ trivial
    | cons op ops ih =>
      intro log h
      rw [Along, ← step_iff h op]
      constructor
      · rintro ⟨log', hlog', hle⟩
        rw [List.foldlM_cons] at hlog'
        obtain ⟨log₁, h₁, hlog'⟩ := Option.bind_eq_some_iff.1 hlog'
        refine ⟨⟨log₁, h₁⟩, fun log₂ h₂ => ?_⟩
        cases h₁.symm.trans h₂
        exact (ih (h.step h₁)).1 ⟨log', hlog', hle⟩
      · rintro ⟨⟨log₁, h₁⟩, hrest⟩
        obtain ⟨log', hlog', hle⟩ := (ih (h.step h₁)).2 (hrest log₁ h₁)
        exact ⟨log', by rw [List.foldlM_cons, h₁]; exact hlog', hle⟩
  exact hrun ops (logInit_inv pid)

/-- A dump of 300000 bytes is printed into the empty buffer, and takes 1.5 million. -/
theorem log_overflows : ¬ ∀ (pid : Nat) (ops : List Op),
    ∃ log, ops.foldlM LogCycle.step (logInit pid) = some log ∧ log.inoff ≤ log.size := by
  intro h
  obtain ⟨dump, hlen⟩ : ∃ dump : List Byte, dump.length = 300000 := ⟨List.replicate 300000 65, List.length_replicate⟩
  obtain ⟨log, hrun, -⟩ := h 1 [.write .trace (some dump) ⟨[], List.not_mem_nil⟩ ⟨0, 0⟩]
  rw [List.foldlM_cons] at hrun
  obtain ⟨log₁, h₁, -⟩ := Option.bind_eq_some_iff.1 hrun
  obtain ⟨loctm, htm, htm0⟩ : ∃ loctm, localTime 0 = some loctm ∧ loctm = ⟨0, 0, 8, 1, 0, 70, 4, 0, 0⟩ :=
    ⟨_, rfl, by decide⟩
  have hline : (logLine 1 loctm 0 .trace ⟨[], List.not_mem_nil⟩).length ≤ 100 := by
    rw [htm0]
    decide
  have hne : dump ≠ [] := by
    rintro rfl
    cases hlen
  have hfits : dump.length < leftBehind (logInit 1) (logLine 1 loctm 0 .trace ⟨[], List.not_mem_nil⟩) →
      dumpLen dump.length ≤ leftBehind (logInit 1) (logLine 1 loctm 0 .trace ⟨[], List.not_mem_nil⟩) :=
    ((step_iff (logInit_inv 1) _).1 ⟨log₁, h₁⟩).2 loctm htm dump rfl hne
  have hleft : leftBehind (logInit 1) (logLine 1 loctm 0 .trace ⟨[], List.not_mem_nil⟩) =
      1048576 - min (logLine 1 loctm 0 .trace ⟨[], List.not_mem_nil⟩).length 1048575 := rfl
  rw [hleft, hlen, dumpLen] at hfits
  omega

end Log

end BeehiveIm.Core
