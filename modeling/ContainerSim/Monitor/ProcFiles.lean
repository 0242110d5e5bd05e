import ContainerSim.Lib.KeyLines
import ContainerSim.Monitor.ProcStat

/-!
# `monitor_read`

`stat` gives most of the numbers, `status` the threads and `io` the bytes read
and written. Each file is read into a buffer of its own size, so what stands
behind the buffer's end is lost (`monitor_read_iff`).
-/

namespace ContainerSim.Monitor

open Lib

/-! ## The readers -/

/-- What `monitor_read` fills in. `cpu_seconds` is the sum of the two ticks over
the clock's rate and is left out. -/
structure Monitored where
  pid : Int
  stat : MonitorStats
  rssBytes : UInt64
  readBytesIo : UInt64
  writeBytesIo : UInt64
  deriving DecidableEq, Repr

/-- The contents of the files under `/proc/<pid>`, none where one cannot be read. -/
structure ProcFiles where
  stat : Option Bytes
  status : Option Bytes
  io : Option Bytes
  deriving DecidableEq, Repr

def parseProcStatus (content : Option Bytes) (out : Monitored) : Monitored :=
  match readFileToBuffer 8192 content with
  | none => out
  | some buffer =>
    let threads := (textLines buffer).foldl
      (readLine (bytes "Threads:") fun _ value => strtol value) (-1)
    if 0 < threads then { out with stat.threads := threads } else out

/-- One line in the loop of `parse_proc_io`. -/
def ioLine (out : Monitored) (line : Bytes) : Monitored :=
  if (bytes "read_bytes:").isPrefixOf line then
    { out with readBytesIo := UInt64.ofNat (strtoul (line.drop 11)) }
  else if (bytes "write_bytes:").isPrefixOf line then
    { out with writeBytesIo := UInt64.ofNat (strtoul (line.drop 12)) }
  else out

def parseProcIo (content : Option Bytes) (out : Monitored) : Monitored :=
  match readFileToBuffer 1024 content with
  | none => out
  | some buffer => (textLines buffer).foldl ioLine out

/-- After the `memset`. -/
def Monitored.init (pid : Int) : Monitored where
  pid
  stat :=
    { state := 0, utimeTicks := 0, stimeTicks := 0, vsizeBytes := 0, rssPages := 0, threads := -1 }
  rssBytes := 0
  readBytesIo := 0
  writeBytesIo := 0

/-- `pageSize` is what `sysconf` returns. -/
def monitorRead (pid : Int) (files : ProcFiles) (pageSize : Int64) (out : Monitored) :
    Monitored × Int :=
  if pid ≤ 0 then (out, -1)
  else
    let out := Monitored.init pid
    let (stat, rc) := parseProcStat files.stat out.stat
    let out := { out with stat }
    if rc ≠ 0 then (out, -1)
    else
      let out := parseProcIo files.io (parseProcStatus files.status out)
      if 0 < pageSize ∧ 0 < out.stat.rssPages then
        ({ out with rssBytes := out.stat.rssPages.toUInt64 * pageSize.toUInt64 }, 0)
      else (out, 0)

/-! ## What the kernel prints -/

/-- `status` and `io` of a process. The name of the process is among the lines
in front of `Threads:`, and so are its groups. -/
structure ProcEntry where
  statusBefore : List KeyLine
  statusAfter : List KeyLine
  threads : Nat
  ioBefore : List KeyLine
  ioAfter : List KeyLine
  readBytes : Nat
  writeBytes : Nat

/-- The line of a number. -/
def numberLine (key : Bytes) (blank : UInt8) (n : Nat) (hkey : (58 : UInt8) ∉ key)
    (hline : (10 : UInt8) ∉ key) (hblank : (10 : UInt8) ≠ blank) : KeyLine where
  key
  value := blank :: fmtNat n
  key_plain := hkey
  one_line := by
    have hdigits : (10 : UInt8) ∉ fmtNat n := fun h => absurd (isSpace_of_mem_fmtNat h) (by decide)
    simp only [List.mem_append, List.mem_cons, not_or]
    exact ⟨hline, by decide, hblank, hdigits⟩

namespace ProcEntry

variable (p : ProcEntry)

def threadsEntry : KeyLine :=
  numberLine (bytes "Threads") 9 p.threads (by decide +kernel) (by decide +kernel) (by decide)

def readEntry : KeyLine :=
  numberLine (bytes "read_bytes") 32 p.readBytes (by decide +kernel) (by decide +kernel)
    (by decide)

def writeEntry : KeyLine :=
  numberLine (bytes "write_bytes") 32 p.writeBytes (by decide +kernel) (by decide +kernel)
    (by decide)

def status : Bytes := KeyLine.textOf (p.statusBefore ++ p.threadsEntry :: p.statusAfter)

def io : Bytes := KeyLine.textOf (p.ioBefore ++ p.readEntry :: p.writeEntry :: p.ioAfter)

/-- Every number has one line, and the files are text. -/
structure Ok : Prop where
  threads_pos : 0 < p.threads
  threads_lt : p.threads < 2 ^ 63
  read_lt : p.readBytes < 2 ^ 64
  write_lt : p.writeBytes < 2 ^ 64
  threads_once : ∀ e ∈ p.statusBefore ++ p.statusAfter, e.key ≠ bytes "Threads"
  io_once : ∀ e ∈ p.ioBefore ++ p.ioAfter, e.key ≠ bytes "read_bytes" ∧ e.key ≠ bytes "write_bytes"
  status_text : (0 : UInt8) ∉ p.status
  io_text : (0 : UInt8) ∉ p.io

/-- Where the digits of the three numbers begin. -/
def threadsAt : Nat := (KeyLine.textOf p.statusBefore).length + 9

def readAt : Nat := (KeyLine.textOf p.ioBefore).length + 12

def writeAt : Nat := (KeyLine.textOf (p.ioBefore ++ [p.readEntry])).length + 13

end ProcEntry

/-- What the first `i` digits of a number make. -/
def firstDigits (n i : Nat) : Nat := n / 10 ^ ((fmtNat n).length - i)

/-- The numbers as the kernel prints them. -/
def ProcEntry.monitored (p : ProcEntry) (pid : Int) (stat : MonitorStats) (pageSize : Int64) :
    Monitored where
  pid
  stat
  rssBytes :=
    if 0 < pageSize ∧ 0 < stat.rssPages then stat.rssPages.toUInt64 * pageSize.toUInt64 else 0
  readBytesIo := UInt64.ofNat p.readBytes
  writeBytesIo := UInt64.ofNat p.writeBytes

/-! ## The beginning of a number -/

theorem firstDigits_all {n i : Nat} (h : (fmtNat n).length ≤ i) : firstDigits n i = n := by
  have hnone : (fmtNat n).length - i = 0 := by omega
  rw [firstDigits, hnone, pow_zero, Nat.div_one]

theorem firstDigits_le (n i : Nat) : firstDigits n i ≤ n := Nat.div_le_self _ _

@[simp] theorem firstDigits_none (n : Nat) : firstDigits n 0 = 0 := by
  have hread : readDigits 10 ((fmtNat n).take 0) = n / 10 ^ ((fmtNat n).drop 0).length :=
    readDigits_take_fmtBase (by omega) (by omega) n 0
  rw [firstDigits, Nat.sub_zero]
  simpa [readDigits] using hread.symm

theorem firstDigits_lt {n i : Nat} (hn : 0 < n) (hi : i < (fmtNat n).length) :
    firstDigits n i < n :=
  Nat.div_lt_self hn (Nat.one_lt_pow (by omega) (by omega))

theorem firstDigits_eq_iff {n i : Nat} :
    firstDigits n i = n ↔ n = 0 ∨ (fmtNat n).length ≤ i := by
  constructor
  · intro heq
    by_contra h
    push Not at h
    have hlt := firstDigits_lt (Nat.pos_of_ne_zero h.1) h.2
    omega
  · rintro (rfl | h)
    · exact Nat.zero_div _
    · exact firstDigits_all h

/-- A number does not begin with a zero. -/
theorem firstDigits_pos {n i : Nat} (hn : 0 < n) (hi : 0 < i) : 0 < firstDigits n i := by
  have hlen : (fmtNat n).length = (Nat.digits 10 n).length := by
    simp [fmtNat, fmtBase, Nat.ne_of_gt hn]
  have hle : 10 ^ ((fmtNat n).length - i) ≤ n := by
    by_contra hlt
    have hshort : (Nat.digits 10 n).length ≤ (fmtNat n).length - i :=
      (Nat.digits_length_le_iff (by omega) n).mpr (by omega)
    have hpos := List.length_pos_iff.mpr (fmtBase_ne_nil 10 n)
    unfold fmtNat at hlen hshort
    omega
  exact Nat.div_pos hle (Nat.pow_pos (by omega))

theorem readDigits_take_fmtNat (n i : Nat) :
    readDigits 10 ((fmtNat n).take i) = firstDigits n i := by
  have hread : readDigits 10 ((fmtNat n).take i) = n / 10 ^ ((fmtNat n).drop i).length :=
    readDigits_take_fmtBase (by omega) (by omega) n i
  rw [hread, List.length_drop]
  rfl

/-- The value of a line that is cut behind `j` bytes. -/
theorem atoi_take {c : UInt8} (hc : isSpace c = true) (n j : Nat) :
    atoi ((c :: fmtNat n).take j) = firstDigits n (j - 1) := by
  cases j with
  | zero => simp [atoi, scanInt, scanNat]
  | succ i =>
    have hblank : scanInt (c :: (fmtNat n).take i) = scanInt ((fmtNat n).take i) :=
      scanInt_blanks (List.forall_mem_singleton.mpr hc) _
    rw [List.take_succ_cons, atoi, hblank, Nat.add_sub_cancel]
    by_cases hnil : (fmtNat n).take i = []
    · rw [← readDigits_take_fmtNat, hnil]
      rfl
    · have hscan := scanInt_digits hnil (fun d hd => fmtBase_isDigit (by omega) (by omega) n d
        (List.mem_of_mem_take hd)) (NoDigit.nil 10)
      rw [List.append_nil] at hscan
      rw [hscan, readDigits_take_fmtNat]
      rfl

theorem strtol_take {n : Nat} (hn : n < 2 ^ 63) (j : Nat) :
    strtol ((9 :: fmtNat n).take j) = Int64.ofNat (firstDigits n (j - 1)) := by
  have hle := firstDigits_le n (j - 1)
  have hclamp : max (-2 ^ 63) (min (firstDigits n (j - 1) : Int) (2 ^ 63 - 1)) =
      firstDigits n (j - 1) := by
    omega
  rw [strtol, atoi_take (by decide), hclamp]
  rfl

theorem strtoul_take {n : Nat} (hn : n < 2 ^ 64) (j : Nat) :
    strtoul ((32 :: fmtNat n).take j) = firstDigits n (j - 1) := by
  cases j with
  | zero => simp [strtoul, scanInt, scanNat]
  | succ i =>
    have hblank : strtoul (32 :: (fmtNat n).take i) = strtoul ((fmtNat n).take i) :=
      strtoul_blanks (List.forall_mem_singleton.mpr (by decide)) _
    rw [List.take_succ_cons, hblank, strtoul_take_fmtNat hn, List.length_drop, Nat.add_sub_cancel]
    rfl

theorem int64_ofNat_inj {m n : Nat} (hm : m < 2 ^ 63) (hn : n < 2 ^ 63) :
    Int64.ofNat m = Int64.ofNat n ↔ m = n := by
  constructor
  · intro heq
    have hint := congrArg Int64.toInt heq
    rw [Int64.toInt_ofNat_of_lt hm, Int64.toInt_ofNat_of_lt hn] at hint
    exact Int.ofNat_inj.mp hint
  · rintro rfl
    rfl

theorem int64_ofNat_pos {n : Nat} (hn : n < 2 ^ 63) : 0 < Int64.ofNat n ↔ 0 < n := by
  rw [Int64.lt_iff_toInt_lt, Int64.toInt_ofNat_of_lt hn]
  simp

/-! ## `io` -/

/-- No line begins with both labels, so the loop reads the one as if it did not
look for the other. -/
theorem ioLine_eq (out : Monitored) (line : Bytes) :
    ioLine out line =
      { out with
        readBytesIo := readLine (bytes "read_bytes" ++ [58])
          (fun _ value => UInt64.ofNat (strtoul value)) out.readBytesIo line
        writeBytesIo := readLine (bytes "write_bytes" ++ [58])
          (fun _ value => UInt64.ofNat (strtoul value)) out.writeBytesIo line } := by
  have hread : bytes "read_bytes" ++ [58] = bytes "read_bytes:" := by decide +kernel
  have hwrite : bytes "write_bytes" ++ [58] = bytes "write_bytes:" := by decide +kernel
  have hread_len : (bytes "read_bytes:").length = 11 := by decide +kernel
  have hwrite_len : (bytes "write_bytes:").length = 12 := by decide +kernel
  rw [hread, hwrite]
  unfold ioLine readLine
  rw [hread_len, hwrite_len]
  by_cases h : (bytes "read_bytes:").isPrefixOf line = true
  · have hother : (bytes "write_bytes:").isPrefixOf line = false := by
      refine Bool.eq_false_iff.mpr fun h' => ?_
      have hcmp := List.prefix_or_prefix_of_prefix (List.isPrefixOf_iff_prefix.mp h)
        (List.isPrefixOf_iff_prefix.mp h')
      simp only [← List.isPrefixOf_iff_prefix] at hcmp
      exact absurd hcmp (by decide +kernel)
    simp [h, hother]
  · rw [if_neg h, if_neg h]
    split
    · rfl
    · rfl

theorem foldl_ioLine (lines : List Bytes) (out : Monitored) :
    lines.foldl ioLine out =
      { out with
        readBytesIo := lines.foldl (readLine (bytes "read_bytes" ++ [58])
          fun _ value => UInt64.ofNat (strtoul value)) out.readBytesIo
        writeBytesIo := lines.foldl (readLine (bytes "write_bytes" ++ [58])
          fun _ value => UInt64.ofNat (strtoul value)) out.writeBytesIo } := by
  induction lines generalizing out with
  | nil => rfl
  | cons line lines ih =>
    rw [List.foldl_cons, ih, ioLine_eq]
    rfl

/-- A number of `io` in a text of which `n` bytes are left. -/
theorem foldl_number {key : Bytes} (hkey : (58 : UInt8) ∉ key) {pre post : List KeyLine}
    {e : KeyLine} (he : e.key = key) (hpre : ∀ d ∈ pre, d.key ≠ key)
    (hpost : ∀ d ∈ post, d.key ≠ key) {k : Nat} (hvalue : e.value = 32 :: fmtNat k)
    (hk : k < 2 ^ 64) (n : Nat) :
    (textLines ((KeyLine.textOf (pre ++ e :: post)).take n)).foldl
        (readLine (key ++ [58]) fun _ value => UInt64.ofNat (strtoul value)) 0 =
      UInt64.ofNat (firstDigits k (n - ((KeyLine.textOf pre).length + (key.length + 2)))) := by
  rw [foldl_key hkey he hpre hpost]
  by_cases hn : (KeyLine.textOf pre).length + (key.length + 1) ≤ n
  · have hdigits : n - ((KeyLine.textOf pre).length + (key.length + 1)) - 1 =
        n - ((KeyLine.textOf pre).length + (key.length + 2)) := by
      omega
    rw [if_pos hn, hvalue, strtoul_take hk, hdigits]
  · have hnone : n - ((KeyLine.textOf pre).length + (key.length + 2)) = 0 := by omega
    rw [if_neg hn, hnone, firstDigits_none]
    rfl

theorem readFileToBuffer_text {s : Bytes} (h : (0 : UInt8) ∉ s) (size : Nat) :
    readFileToBuffer size (some s) = some (s.take (size - 1)) := by
  show some (cstr (s.take (size - 1))) = _
  rw [cstr_eq_self fun hmem => h (List.mem_of_mem_take hmem)]

namespace ProcEntry

variable {p : ProcEntry}

theorem parseProcIo_entry (hok : p.Ok) {out : Monitored} (hread : out.readBytesIo = 0)
    (hwrite : out.writeBytesIo = 0) :
    parseProcIo (some p.io) out =
      { out with
        readBytesIo := UInt64.ofNat (firstDigits p.readBytes (1023 - p.readAt))
        writeBytesIo := UInt64.ofNat (firstDigits p.writeBytes (1023 - p.writeAt)) } := by
  have hbefore : ∀ e ∈ p.ioBefore, e.key ≠ bytes "read_bytes" ∧ e.key ≠ bytes "write_bytes" :=
    fun e he => hok.io_once e (List.mem_append_left _ he)
  have hafter : ∀ e ∈ p.ioAfter, e.key ≠ bytes "read_bytes" ∧ e.key ≠ bytes "write_bytes" :=
    fun e he => hok.io_once e (List.mem_append_right _ he)
  have hne : bytes "write_bytes" ≠ bytes "read_bytes" := by decide +kernel
  have hreads := @foldl_number (bytes "read_bytes") (by decide +kernel) p.ioBefore
    (p.writeEntry :: p.ioAfter) p.readEntry rfl (fun e he => (hbefore e he).1)
    (List.forall_mem_cons.mpr ⟨hne, fun e he => (hafter e he).1⟩) p.readBytes rfl hok.read_lt 1023
  have hwrites := @foldl_number (bytes "write_bytes") (by decide +kernel)
    (p.ioBefore ++ [p.readEntry]) p.ioAfter p.writeEntry rfl
    (by
      intro e he
      rcases List.mem_append.mp he with h | h
      · exact (hbefore e h).2
      · rw [List.mem_singleton.mp h]
        exact hne.symm)
    (fun e he => (hafter e he).2) p.writeBytes rfl hok.write_lt 1023
  rw [List.append_assoc, List.singleton_append] at hwrites
  unfold parseProcIo
  rw [readFileToBuffer_text hok.io_text]
  show (textLines (p.io.take 1023)).foldl ioLine out = _
  rw [foldl_ioLine, hread, hwrite]
  unfold io
  rw [hreads, hwrites]
  rfl

/-- Digits that are there are taken; where there are none, the number that `stat`
gave is kept. -/
theorem parseProcStatus_entry (hok : p.Ok) (out : Monitored) :
    parseProcStatus (some p.status) out =
      { out with
        stat.threads :=
          if 0 < firstDigits p.threads (8191 - p.threadsAt) then
            Int64.ofNat (firstDigits p.threads (8191 - p.threadsAt))
          else out.stat.threads } := by
  have hlabel : bytes "Threads:" = bytes "Threads" ++ [58] := by decide +kernel
  have hlen : (bytes "Threads").length = 7 := by decide +kernel
  have hlt : firstDigits p.threads (8191 - p.threadsAt) < 2 ^ 63 :=
    Nat.lt_of_le_of_lt (firstDigits_le _ _) hok.threads_lt
  have hfold := @foldl_key Int64 (bytes "Threads") (fun _ value => strtol value)
    (by decide +kernel) p.statusBefore p.statusAfter p.threadsEntry rfl
    (fun e he => hok.threads_once e (List.mem_append_left _ he))
    (fun e he => hok.threads_once e (List.mem_append_right _ he)) 8191 (-1)
  unfold parseProcStatus
  rw [readFileToBuffer_text hok.status_text]
  simp only [hlabel]
  unfold status
  rw [hfold, hlen]
  -- the colon is inside the buffer, or the line is cut in front of its digits
  by_cases hcolon : (KeyLine.textOf p.statusBefore).length + (7 + 1) ≤ 8191
  · have hvalue : strtol (p.threadsEntry.value.take
        (8191 - ((KeyLine.textOf p.statusBefore).length + (7 + 1)))) =
        Int64.ofNat (firstDigits p.threads (8191 - p.threadsAt)) := by
      have hdigits : 8191 - ((KeyLine.textOf p.statusBefore).length + (7 + 1)) - 1 =
          8191 - p.threadsAt := by
        unfold threadsAt
        omega
      rw [← hdigits]
      exact strtol_take hok.threads_lt _
    rw [if_pos hcolon, hvalue]
    simp only [int64_ofNat_pos hlt]
    split <;> rfl
  · have hnone : 8191 - p.threadsAt = 0 := by
      unfold threadsAt
      omega
    rw [if_neg hcolon, hnone, firstDigits_none, if_neg (by decide), if_neg (by decide)]

end ProcEntry

/-! ## The whole reading -/

theorem uint64_ofNat_inj {m n : Nat} (hm : m < 2 ^ 64) (hn : n < 2 ^ 64) :
    UInt64.ofNat m = UInt64.ofNat n ↔ m = n := by
  constructor
  · intro heq
    have hnat := congrArg UInt64.toNat heq
    rwa [UInt64.toNat_ofNat_of_lt' hm, UInt64.toNat_ofNat_of_lt' hn] at hnat
  · rintro rfl
    rfl

namespace ProcEntry

variable {p : ProcEntry}

/-- What `monitor_read` reports once `stat` is read. -/
theorem monitorRead_entry (hok : p.Ok) {pid : Int} (hpid : 0 < pid) {stat : Option Bytes}
    {s : MonitorStats} (hstat : parseProcStat stat (Monitored.init pid).stat = (s, 0))
    (pageSize : Int64) (out : Monitored) :
    monitorRead pid ⟨stat, some p.status, some p.io⟩ pageSize out =
      ({ p.monitored pid s pageSize with
          stat.threads :=
            if 0 < firstDigits p.threads (8191 - p.threadsAt) then
              Int64.ofNat (firstDigits p.threads (8191 - p.threadsAt))
            else s.threads
          readBytesIo := UInt64.ofNat (firstDigits p.readBytes (1023 - p.readAt))
          writeBytesIo := UInt64.ofNat (firstDigits p.writeBytes (1023 - p.writeAt)) }, 0) := by
  unfold monitorRead
  rw [if_neg (by omega)]
  simp only [hstat, ne_eq, not_true_eq_false, if_false]
  rw [parseProcStatus_entry hok, parseProcIo_entry hok rfl rfl]
  simp only [monitored]
  split <;> rfl

/-- The thread count survives unless the buffer ends among its digits. -/
theorem threads_kept_iff (hok : p.Ok) :
    (if 0 < firstDigits p.threads (8191 - p.threadsAt) then
        Int64.ofNat (firstDigits p.threads (8191 - p.threadsAt))
      else Int64.ofNat p.threads) = Int64.ofNat p.threads ↔
      (p.threadsAt < 8191 → p.threadsAt + (fmtNat p.threads).length ≤ 8191) := by
  have hlt : firstDigits p.threads (8191 - p.threadsAt) < 2 ^ 63 :=
    Nat.lt_of_le_of_lt (firstDigits_le _ _) hok.threads_lt
  have hpos := hok.threads_pos
  by_cases hat : p.threadsAt < 8191
  · have hdigits := firstDigits_pos hpos (show 0 < 8191 - p.threadsAt by omega)
    rw [if_pos hdigits, int64_ofNat_inj hlt hok.threads_lt, firstDigits_eq_iff]
    omega
  · have hnone : 8191 - p.threadsAt = 0 := by omega
    rw [hnone, firstDigits_none]
    simp [hat]

/-- **A cut file**: with `stat` and `status` of one moment, the reading is what
the kernel printed unless a buffer ends among the digits of a number; a number
of `io` must be in the buffer or be zero. A thread count behind the buffer of
`status` is no loss, it is in `stat` too. -/
theorem monitorRead_iff (hok : p.Ok) {pid : Int} (hpid : 0 < pid) {stat : Option Bytes}
    {s : MonitorStats} (hstat : parseProcStat stat (Monitored.init pid).stat = (s, 0))
    (hthreads : s.threads = Int64.ofNat p.threads) (pageSize : Int64) (out : Monitored) :
    monitorRead pid ⟨stat, some p.status, some p.io⟩ pageSize out =
        (p.monitored pid s pageSize, 0) ↔
      (p.threadsAt < 8191 → p.threadsAt + (fmtNat p.threads).length ≤ 8191) ∧
      (p.readBytes = 0 ∨ p.readAt + (fmtNat p.readBytes).length ≤ 1023) ∧
      (p.writeBytes = 0 ∨ p.writeAt + (fmtNat p.writeBytes).length ≤ 1023) := by
  have hpart : ∀ n i, n < 2 ^ 64 →
      (UInt64.ofNat (firstDigits n i) = UInt64.ofNat n ↔ n = 0 ∨ (fmtNat n).length ≤ i) := by
    intro n i hn
    rw [uint64_ofNat_inj (Nat.lt_of_le_of_lt (firstDigits_le n i) hn) hn, firstDigits_eq_iff]
  have hlength : ∀ n, 0 < (fmtNat n).length :=
    fun n => List.length_pos_iff.mpr (fmtBase_ne_nil 10 n)
  have hread_pos := hlength p.readBytes
  have hwrite_pos := hlength p.writeBytes
  have hread := hpart p.readBytes (1023 - p.readAt) hok.read_lt
  have hwrite := hpart p.writeBytes (1023 - p.writeAt) hok.write_lt
  have hkept := threads_kept_iff hok
  rw [← hthreads] at hkept
  rw [monitorRead_entry hok hpid hstat]
  constructor
  · intro heq
    have hout := congrArg Prod.fst heq
    have hreads := hread.mp (congrArg Monitored.readBytesIo hout)
    have hwrites := hwrite.mp (congrArg Monitored.writeBytesIo hout)
    refine ⟨hkept.mp ?_, by omega, by omega⟩
    exact congrArg (fun o : Monitored => o.stat.threads) hout
  · rintro ⟨hthreads, hreads, hwrites⟩
    rw [hkept.mpr hthreads, hread.mpr (by omega), hwrite.mpr (by omega)]
    rfl

end ProcEntry

/-- A process with 12 threads. -/
def busyLine : StatLine where
  pid := 4321
  comm := bytes "worker"
  state := 82
  fields := [1, 4321, 4321, 0, -1, 4194560, 2, 0, 0, 0, 150, 25, 0, 0, 20, 0, 12, 0, 77, 8192000,
    250, -1]
  comm_string := by decide +kernel
  state_letter := by decide
  enough := by decide

/-- A `Groups:` line with `k` bytes of groups. -/
def groupsEntry (k : Nat) : KeyLine where
  key := bytes "Groups"
  value := List.replicate k 49
  key_plain := by decide +kernel
  one_line := by
    have hkey : (10 : UInt8) ∉ bytes "Groups" := by decide +kernel
    simp only [List.mem_append, List.mem_cons, not_or]
    exact ⟨hkey, by decide, fun h => absurd (List.eq_of_mem_replicate h) (by decide)⟩

theorem groupsEntry_no_nul (k : Nat) : (0 : UInt8) ∉ (groupsEntry k).text := by
  have hkey : (0 : UInt8) ∉ bytes "Groups" := by decide +kernel
  unfold KeyLine.text
  simp only [List.mem_append, List.mem_cons, not_or]
  exact ⟨hkey, by decide, fun h => absurd (List.eq_of_mem_replicate h) (by decide)⟩

theorem length_textOf_groups (k : Nat) : (KeyLine.textOf [groupsEntry k]).length = k + 8 := by
  have hkey : (groupsEntry k).key.length = 6 := rfl
  have hvalue : (groupsEntry k).value.length = k := List.length_replicate
  rw [KeyLine.textOf_cons]
  simp only [KeyLine.text, KeyLine.textOf, List.flatMap_nil, List.length_append, List.length_cons,
    List.length_nil, hkey, hvalue]
  omega

/-- A process in so many groups that its `Threads:` line is the last in the buffer. -/
def crowded : ProcEntry where
  statusBefore := [groupsEntry 8173]
  statusAfter := []
  threads := 12
  ioBefore := []
  ioAfter := []
  readBytes := 4096
  writeBytes := 0

theorem crowded_ok : crowded.Ok where
  threads_pos := by decide
  threads_lt := by decide
  read_lt := by decide
  write_lt := by decide
  threads_once := by
    intro e he
    rw [List.mem_singleton.mp he]
    decide +kernel
  io_once := by
    intro e he
    cases he
  status_text := by
    have hthreads : (0 : UInt8) ∉ KeyLine.textOf [crowded.threadsEntry] := by decide +kernel
    show (0 : UInt8) ∉ KeyLine.textOf (groupsEntry 8173 :: [crowded.threadsEntry])
    rw [KeyLine.textOf_cons]
    simp only [List.mem_append, List.mem_cons, not_or]
    exact ⟨groupsEntry_no_nul 8173, by decide, hthreads⟩
  io_text := by decide +kernel

/-- Of the 12 threads one is reported: the buffer ends between the digits. -/
theorem monitorRead_crowded :
    monitorRead 4321 ⟨some (busyLine.text true), some crowded.status, some crowded.io⟩ 4096
        (Monitored.init 0) ≠
      (crowded.monitored 4321
        (parseProcStat (some (busyLine.text true)) (Monitored.init 4321).stat).1 4096, 0) := by
  have hstat : parseProcStat (some (busyLine.text true)) (Monitored.init 4321).stat =
      ((parseProcStat (some (busyLine.text true)) (Monitored.init 4321).stat).1, 0) :=
    Prod.ext rfl (by decide +kernel)
  have hat : crowded.threadsAt = 8190 := by
    have hgroups := length_textOf_groups 8173
    show (KeyLine.textOf [groupsEntry 8173]).length + 9 = 8190
    omega
  have hdigits : (fmtNat crowded.threads).length = 2 := by decide +kernel
  intro heq
  have hiff := ProcEntry.monitorRead_iff crowded_ok (show (0 : Int) < 4321 by omega) hstat
    (by decide +kernel) 4096 (Monitored.init 0)
  obtain ⟨hthreads, -, -⟩ := hiff.mp heq
  omega

end ContainerSim.Monitor
