import ContainerSim.Lib.Lines
import ContainerSim.Lib.RingBuf
import ContainerSim.Runtime.Pairing
import ContainerSim.Web.Escape

/-!
# The end of a log

`container_logs_tail` and `container_logs_json_tail` read a log through a ring
of as many lines as are asked for. The index of a line is computed in an `int`:
`start + i` leaves it if more than `2 ^ 30` lines are asked for and the ring has
gone round far enough.
-/

namespace ContainerSim.Runtime

open Lib Sched ContainerSim.Web

/-- Answers of the system to one reading of a log. -/
structure LogOutcome where
  poll : PollOutcome
  /-- what the file holds that `fopen` opens -/
  fopen : Bytes → Option Bytes
  calloc : Bool
  /-- the copy of line `k` of the file -/
  strdup : Nat → Bool

theorem neZero_of_pos {n : Int} (h : ¬ n ≤ 0) : NeZero n.toNat := ⟨by omega⟩

section
variable {n : Nat} [NeZero n]

/-- The reading loop; `keep` is what is done to the copy of a line. -/
def readTail (o : LogOutcome) (keep : Bytes → Bytes) (file : Bytes) : Window n (Option Bytes) :=
  ((chunks 1024 file).zipIdx.map fun e =>
      if o.strdup e.2 then some (keep (cstr e.1)) else none).foldl
    Window.push { ring := ⟨fun _ => none⟩, head := 0, count := 0 }

/-- `ring[(start + i) % n]`, unless the index is negative. -/
def tailSlot (w : Window n (Option Bytes)) (i : Nat) : Option (Option Bytes) :=
  let idx := (toInt32 (w.start + i)).tmod n
  if 0 ≤ idx then some (w.ring.get idx.toNat) else none

end

/-- The printing loop of `container_logs_tail`; `slot` reads the ring. -/
def printTail (slot : Nat → Option (Option Bytes)) : List Nat → Option Bytes
  | [] => some []
  | i :: is =>
    (slot i).bind fun line => (printTail slot is).map fun text => line.getD [] ++ text

/-- How the loop of `container_logs_json_tail` ends: behind the last line, when
the buffer is used up, or at an index outside the ring. -/
inductive TailEnd where
  | done (o : OutBuf)
  | full (o : OutBuf)
  | outside

/-- `"%s\"%s\""` with `line_json`. -/
def lineJson (first : Bool) (line : Bytes) : Bytes :=
  (if first then [] else [44]) ++ escaped 2048 line

/-- The loop of `container_logs_json_tail`. -/
def writeTail (slot : Nat → Option (Option Bytes)) : Bool → List Nat → OutBuf → TailEnd
  | _, [], o => .done o
  | first, i :: is, o =>
    match slot i with
    | none => .outside
    | some none => writeTail slot first is o
    | some (some line) =>
      let o := o.snprintf (lineJson first line)
      if toInt32 o.written < 0 ∨ o.mem.length ≤ toInt32 o.written then .full o
      else writeTail slot false is o

/-- `written += snprintf(..., "]}")` and the result. -/
def closeTail (o : OutBuf) : Bytes × Int :=
  let o := o.snprintf (bytes "]\x7d")
  (o.mem, if toInt32 o.written < o.mem.length then toInt32 o.written else -1)

def tailHeader (count : Nat) (path : Bytes) : Bytes :=
  bytes "\n--- logs (last " ++ fmtNat count ++ bytes "): " ++ path ++ bytes " ---\n"

/-- `container_logs_tail`: the manager after the poll, what is printed and the
result; nothing if it reads outside the ring. -/
def containerLogsTail (o : LogOutcome) (id : Bytes) (n : Int) (m : Manager) :
    Option (Manager × Bytes × Int) :=
  if id = [] then some (m, bytes "[error] usage: logs -n N <id>\n\n", -1)
  else if hn : n ≤ 0 then some (m, bytes "[error] usage: logs -n N <id>\n\n", -1)
  else
    let m := pollStates o.poll m
    match findContainer m.list id with
    | none => some (m, bytes "[error] container " ++ id ++ bytes " not found\n\n", -1)
    | some c =>
      if c.logPath = [] then
        some (m, bytes "[manager] " ++ id ++
          bytes " has no log file (use runbg to capture output)\n\n", 0)
      else
        match o.fopen c.logPath with
        | none => some (m, bytes "[manager] log file not yet created for " ++ id ++ bytes "\n\n", 0)
        | some file =>
          if !o.calloc then some (m, [], -1)
          else
            haveI : NeZero n.toNat := neZero_of_pos hn
            let w : Window n.toNat (Option Bytes) := readTail o (fun line => line) file
            (printTail (tailSlot w) (List.range w.count)).map fun text =>
              (m, tailHeader w.count c.logPath ++ (text ++ bytes "--- end ---\n\n"), 0)

def logsOpening (c : Container) : Bytes :=
  bytes "\x7b\"id\":\"" ++ c.id ++ bytes "\",\"found\":true,\"log_path\":\"" ++ c.logPath ++
    bytes "\",\"lines\":["

/-- `container_logs_json_tail`: the manager after the poll, the buffer and the
result; nothing if it reads outside the ring. -/
def containerLogsJsonTail (o : LogOutcome) (id : Bytes) (n : Int) (m : Manager) (buf : Bytes) :
    Option (Manager × Bytes × Int) :=
  if buf.length ≤ 2 ∨ id = [] then some (m, buf, -1)
  else if hn : n ≤ 0 then some (m, buf, -1)
  else
    let m := pollStates o.poll m
    match findContainer m.list id with
    | none =>
      let out := OutBuf.snprintf { mem := buf, written := 0 }
        (bytes "\x7b\"id\":\"" ++ id ++
          bytes "\",\"found\":false,\"log_path\":\"\",\"lines\":[]\x7d")
      some (m, out.mem, out.written)
    | some c =>
      let out := OutBuf.snprintf { mem := buf, written := 0 } (logsOpening c)
      if buf.length ≤ out.written then some (m, out.mem, -1)
      else if c.logPath = [] then some (m, closeTail out)
      else
        match o.fopen c.logPath with
        | none => some (m, closeTail out)
        | some file =>
          if !o.calloc then some (m, out.mem, -1)
          else
            haveI : NeZero n.toNat := neZero_of_pos hn
            let w : Window n.toNat (Option Bytes) := readTail o trimNewline file
            match writeTail (tailSlot w) true (List.range w.count) out with
            | .done out => some (m, closeTail out)
            | .full out => some (m, out.mem, -1)
            | .outside => none

/-! ## What the ring shows -/

/-- The indices from `k` on read the lines. -/
def Shows (slot : Nat → Option (Option Bytes)) (k : Nat) (lines : List Bytes) : Prop :=
  ∀ i line, lines[i]? = some line → slot (k + i) = some (some line)

section
variable {slot : Nat → Option (Option Bytes)}

theorem Shows.head {k : Nat} {line : Bytes} {lines : List Bytes}
    (h : Shows slot k (line :: lines)) : slot k = some (some line) := h 0 line rfl

theorem Shows.tail {k : Nat} {line : Bytes} {lines : List Bytes}
    (h : Shows slot k (line :: lines)) : Shows slot (k + 1) lines := by
  intro i line' hline
  have hnext := h (i + 1) line' hline
  rwa [Nat.add_assoc, Nat.add_comm 1]

theorem Shows.left {k : Nat} {lines lines' : List Bytes}
    (h : Shows slot k (lines ++ lines')) : Shows slot k lines := by
  intro i line hline
  have hlt : i < lines.length := (List.getElem?_eq_some_iff.mp hline).1
  exact h i line (by rwa [List.getElem?_append_left hlt])

end

section
variable {n : Nat} [NeZero n]

theorem tailSlot_of_fits {w : Window n (Option Bytes)} {i : Nat} (h : w.start + i < 2 ^ 31) :
    tailSlot w i = some (w.ring.get (w.start + i)) := by
  have hint : toInt32 (w.start + i) = ((w.start + i : Nat) : Int) := by
    rw [toInt32_of_fits (by omega) (by omega), Nat.cast_add]
  have hmod : ((w.start + i : Nat) : Int).tmod n = ((w.start + i) % n : Nat) := rfl
  rw [tailSlot, hint]
  simp only [hmod]
  rw [if_pos (Int.natCast_nonneg _), Int.toNat_natCast]
  exact congrArg some (RingBuf.get_congr _ (Nat.mod_mod _ _))

/-- The first sum that leaves the `int` is a negative index. -/
theorem tailSlot_of_carry {w : Window n (Option Bytes)} {i : Nat} (h : w.start + i = 2 ^ 31)
    (hstart : w.start < n) (hi : i < n) (hn : n < 2 ^ 31) : tailSlot w i = none := by
  have hint : toInt32 (w.start + i) = -(2 ^ 31 : Nat) := by
    rw [toInt32_of_carry (by omega) (by omega)]
    omega
  have hmod : (2 ^ 31 : Nat) % n = 2 ^ 31 - n := by
    rw [Nat.mod_eq_sub_mod (Nat.le_of_lt hn), Nat.mod_eq_of_lt (by omega)]
  have hidx : (-((2 ^ 31 : Nat) : Int)).tmod n = -((2 ^ 31 - n : Nat) : Int) := by
    rw [Int.neg_tmod, ← hmod]
    rfl
  rw [tailSlot, hint]
  simp only [hidx]
  exact if_neg (by omega)

/-- `start`. -/
def tailStart (n lines : Nat) : Nat := if lines < n then 0 else lines % n

theorem tailStart_lt (n lines : Nat) [NeZero n] : tailStart n lines < n := by
  have hpos : 0 < n := Nat.pos_of_ne_zero (NeZero.ne n)
  rw [tailStart]
  split
  · exact hpos
  · exact Nat.mod_lt _ hpos

theorem readTail_eq {o : LogOutcome} (hstrdup : ∀ k, o.strdup k = true) (keep : Bytes → Bytes)
    {file : Bytes} (hnul : ∀ line ∈ chunks 1024 file, (0 : UInt8) ∉ line) :
    ∃ r : RingBuf n (Option Bytes), readTail o keep file =
      Window.after (r.fill 0 ((chunks 1024 file).map fun line => some (keep line)))
        (chunks 1024 file).length := by
  have hlines : ((chunks 1024 file).zipIdx.map fun e =>
      if o.strdup e.2 then some (keep (cstr e.1)) else none) =
        (chunks 1024 file).map fun line => some (keep line) := by
    have hfst : (chunks 1024 file).map (fun line => some (keep line)) =
        (chunks 1024 file).zipIdx.map fun e => some (keep e.1) := by
      calc (chunks 1024 file).map (fun line => some (keep line))
          = ((chunks 1024 file).zipIdx.map Prod.fst).map fun line => some (keep line) := by
            rw [List.zipIdx_map_fst]
        _ = (chunks 1024 file).zipIdx.map fun e => some (keep e.1) := List.map_map
    rw [hfst]
    refine List.map_congr_left fun e he => ?_
    rw [if_pos (hstrdup e.2), cstr_eq_self (hnul e.1 (List.fst_mem_of_mem_zipIdx he))]
  refine ⟨⟨fun _ => none⟩, ?_⟩
  rw [readTail, hlines, Window.foldl_push, List.length_map]

/-- The last `n` lines. -/
def lastLines (n : Nat) (lines : List Bytes) : List Bytes := lines.drop (lines.length - n)

omit [NeZero n] in
theorem length_lastLines (lines : List Bytes) : (lastLines n lines).length = min lines.length n := by
  rw [lastLines, List.length_drop]
  omega

variable {o : LogOutcome} {keep : Bytes → Bytes} {file : Bytes}

theorem readTail_spec (hstrdup : ∀ k, o.strdup k = true)
    (hnul : ∀ line ∈ chunks 1024 file, (0 : UInt8) ∉ line) :
    let w : Window n (Option Bytes) := readTail o keep file
    w.count = (lastLines n (chunks 1024 file)).length ∧
    w.start = tailStart n (chunks 1024 file).length ∧
    ∀ i line, (lastLines n (chunks 1024 file))[i]? = some line →
      w.ring.get (w.start + i) = some (keep line) := by
  obtain ⟨r, hread⟩ := @readTail_eq n _ o hstrdup keep file hnul
  intro w
  have hw : w = _ := hread
  rw [hw]
  refine ⟨?_, Window.start_after _ _, fun i line hline => ?_⟩
  · rw [length_lastLines]
    rfl
  · have hlt := (List.getElem?_eq_some_iff.mp hline).1
    rw [length_lastLines] at hlt
    have hlen : ((chunks 1024 file).map fun line => some (keep line)).length =
        (chunks 1024 file).length := List.length_map _
    have hget := Window.get_start (n := n) r ((chunks 1024 file).map fun line => some (keep line))
      (i := i) (by rwa [hlen])
    rw [hlen, ← List.map_drop, List.getElem?_map] at hget
    rw [lastLines] at hline
    rw [hline] at hget
    exact (Option.some.inj hget).symm

/-- Up to the sum that leaves the `int` the ring shows the last lines. -/
theorem shows_readTail (hstrdup : ∀ k, o.strdup k = true)
    (hnul : ∀ line ∈ chunks 1024 file, (0 : UInt8) ∉ line) {k : Nat}
    (hk : tailStart n (chunks 1024 file).length + k ≤ 2 ^ 31) :
    Shows (tailSlot (n := n) (readTail o keep file)) 0
      (((lastLines n (chunks 1024 file)).take k).map keep) := by
  obtain ⟨-, hstart, hring⟩ := @readTail_spec n _ o keep file hstrdup hnul
  intro i line hline
  rw [List.getElem?_map, Option.map_eq_some_iff] at hline
  obtain ⟨line, htake, rfl⟩ := hline
  have hlt : i < k := by
    have hlt := (List.getElem?_eq_some_iff.mp htake).1
    rw [List.length_take] at hlt
    omega
  rw [Nat.zero_add, tailSlot_of_fits (by omega), hring i line]
  rw [← htake, List.getElem?_take, if_pos hlt]

end

/-! ## The loops -/

section
variable {slot : Nat → Option (Option Bytes)}

theorem printTail_of_shows {k : Nat} {lines : List Bytes} (h : Shows slot k lines) :
    printTail slot (List.range' k lines.length) = some lines.flatten := by
  induction lines generalizing k with
  | nil => rfl
  | cons line lines ih =>
    rw [List.length_cons, List.range'_succ, printTail, h.head, ih h.tail]
    rfl

theorem printTail_of_outside {is : List Nat} {i : Nat} (hi : i ∈ is) (h : slot i = none) :
    printTail slot is = none := by
  induction is with
  | nil => exact absurd hi List.not_mem_nil
  | cons j is ih =>
    rw [printTail]
    rcases List.mem_cons.mp hi with rfl | hi
    · rw [h]
      rfl
    · rw [ih hi]
      cases slot j with
      | none => rfl
      | some line => rfl

theorem writeTail_outside {i : Nat} (h : slot i = none) (first : Bool) (is : List Nat) (o : OutBuf) :
    writeTail slot first (i :: is) o = .outside := by
  rw [writeTail, h]

/-- One turn, on a line that is shown. -/
theorem writeTail_cons {i : Nat} {line : Bytes} (h : slot i = some (some line))
    (first : Bool) (is : List Nat) (o : OutBuf) :
    writeTail slot first (i :: is) o =
      let o' := o.snprintf (if first then escaped 2048 line else 44 :: escaped 2048 line)
      if toInt32 o'.written < 0 ∨ o'.mem.length ≤ toInt32 o'.written then .full o'
      else writeTail slot false is o' := by
  have hline : lineJson first line = if first then escaped 2048 line else 44 :: escaped 2048 line := by
    rw [lineJson]
    generalize escaped 2048 line = t
    cases first
    · rfl
    · rfl
  rw [← hline, writeTail, h]

variable {opening : Bytes} {len : Nat}

/-- Shown lines are written for as long as they fit. -/
theorem writeTail_of_shows (hlen : len < 2 ^ 31) {lines : List Bytes} {k : Nat}
    (h : Shows slot k lines) (is : List Nat) {printed : List Bytes} {o : OutBuf}
    (hholds : OutBuf.Holds o len (OutBuf.body opening printed)) :
    let all := printed ++ lines.map (escaped 2048)
    let loop := writeTail slot printed.isEmpty (List.range' k lines.length ++ is) o
    (∃ o', loop = writeTail slot all.isEmpty is o' ∧ OutBuf.Holds o' len (OutBuf.body opening all)) ∨
      ∃ o', loop = .full o' ∧ len ≤ (OutBuf.body opening all).length := by
  induction lines generalizing k printed o with
  | nil =>
    simp only [List.map_nil, List.append_nil, List.length_nil, List.range'_zero, List.nil_append]
    exact .inl ⟨o, rfl, hholds⟩
  | cons line lines ih =>
    have hsnoc := OutBuf.body_snoc opening printed (escaped 2048 line)
    have hsum := congrArg List.length hsnoc
    rw [List.length_append] at hsum
    have hcons : printed ++ (line :: lines).map (escaped 2048) =
        (printed ++ [escaped 2048 line]) ++ lines.map (escaped 2048) := by
      rw [List.map_cons, List.append_cons]
    have hheld := hholds.lt
    have hcount := hholds.2.1
    rw [hcons]
    simp only [List.length_cons, List.range'_succ, List.cons_append]
    rw [writeTail_cons h.head]
    by_cases hroom : (OutBuf.body opening (printed ++ [escaped 2048 line])).length < len
    · -- the line fits
      have hnext := hholds.snprintf (hsum ▸ hroom)
      rw [← hsnoc] at hnext
      have hint := toInt32_of_fits
        (x := (OutBuf.body opening (printed ++ [escaped 2048 line])).length) (by omega) (by omega)
      have hfalse : (printed ++ [escaped 2048 line]).isEmpty = false := by simp
      have hrest := ih h.tail hnext
      rw [hfalse] at hrest
      rw [if_neg]
      · exact hrest
      · rw [hnext.2.1, hnext.1, hint]
        omega
    · -- it does not, and the loop ends
      have hover := hholds.overruns (Nat.le_of_not_lt (hsum ▸ hroom))
      have hwritten : (o.snprintf
          (if printed.isEmpty then escaped 2048 line else 44 :: escaped 2048 line)).written =
            (OutBuf.body opening (printed ++ [escaped 2048 line])).length := by
        show o.written + List.length _ = _
        rw [hcount, hsum]
      have hline := @length_escaped_le 2048 (by decide) line
      have hshort : (if printed.isEmpty then escaped 2048 line else 44 :: escaped 2048 line).length
          ≤ 2050 := by
        split
        · omega
        · rw [List.length_cons]
          omega
      refine .inr ⟨_, if_pos ?_, ?_⟩
      · rw [hwritten, hover.1]
        -- the test is on an `int`: a sum past its range is negative, and ends the loop too
        rcases Nat.lt_or_ge (OutBuf.body opening (printed ++ [escaped 2048 line])).length (2 ^ 31)
          with hint | hcarry
        · rw [toInt32_of_fits (by omega) (by omega)]
          omega
        · rw [toInt32_of_carry (by omega) (by omega)]
          omega
      · have hle := OutBuf.length_body_le opening (printed ++ [escaped 2048 line])
          (lines.map (escaped 2048))
        omega

theorem closeTail_mem {o : OutBuf} {t : Bytes} (h : OutBuf.Holds o len t) (hlen : len < 2 ^ 31)
    (hroom : t.length + 2 < len) :
    (closeTail o).2 = (t.length + 2 : Nat) ∧
      (closeTail o).1.take (t.length + 2) = t ++ bytes "]\x7d" := by
  have htwo : (bytes "]\x7d").length = 2 := by decide
  have hclosed : OutBuf.Holds (o.snprintf (bytes "]\x7d")) len (t ++ bytes "]\x7d") :=
    h.snprintf (by omega)
  have hwritten := hclosed.2.1
  rw [List.length_append, htwo] at hwritten
  refine ⟨?_, ?_⟩
  · rw [closeTail]
    simp only
    rw [hwritten, hclosed.1, toInt32_of_fits (by omega) (by omega), if_pos (by omega)]
  · rw [← hwritten]
    exact hclosed.take

/-- No room for the closing text, or for its length in an `int`. -/
theorem closeTail_of_full {o : OutBuf} {t : Bytes} (h : OutBuf.Holds o len t) (hlen : len < 2 ^ 31)
    (hfull : len ≤ t.length + 2) :
    (closeTail o).2 = if t.length + 2 < 2 ^ 31 then -1 else -2 ^ 31 := by
  have htwo : (bytes "]\x7d").length = 2 := by decide
  have hheld := h.lt
  have hcount := h.2.1
  have hwritten : (o.snprintf (bytes "]\x7d")).written = t.length + 2 := by
    show o.written + (bytes "]\x7d").length = _
    rw [htwo, hcount]
  have hover : (o.snprintf (bytes "]\x7d")).mem.length = len := (h.overruns (by omega)).1
  rw [closeTail]
  simp only
  rw [hwritten, hover]
  by_cases hint : t.length + 2 < 2 ^ 31
  · rw [if_pos hint, toInt32_of_fits (by omega) (by omega), if_neg (by omega)]
  · rw [if_neg hint, toInt32_of_carry (by omega) (by omega), if_pos (by omega)]
    omega

/-- The result is `-1` or the length of a document. -/
def DocumentOr (v : Json.Value) (len : Nat) (mem : Bytes) (r : Int) : Prop :=
  r = -1 ∨ 0 ≤ r ∧ r < len ∧ Json.Document v (mem.take r.toNat)

theorem closeTail_iff {o : OutBuf} {t : Bytes} {v : Json.Value} (h : OutBuf.Holds o len t)
    (hlen : len < 2 ^ 31) (hdoc : Json.Document v (t ++ bytes "]\x7d")) :
    DocumentOr v len (closeTail o).1 (closeTail o).2 ↔ t.length + 2 < 2 ^ 31 := by
  by_cases hroom : t.length + 2 < len
  · obtain ⟨hresult, hmem⟩ := closeTail_mem h hlen hroom
    refine iff_of_true (.inr ?_) (by omega)
    rw [hresult, Int.toNat_natCast, hmem]
    exact ⟨Int.natCast_nonneg _, by omega, hdoc⟩
  · have hresult := closeTail_of_full h hlen (Nat.le_of_not_lt hroom)
    rw [DocumentOr, hresult]
    constructor
    · intro hor
      by_contra hcarry
      rw [if_neg hcarry] at hor
      omega
    · intro hint
      exact .inl (if_pos hint)

end

/-! ## The two tails -/

/-- What `fgets` hands out of the log of a container. -/
def logLines (o : LogOutcome) (c : Container) : List Bytes :=
  if c.logPath = [] then [] else ((o.fopen c.logPath).map (chunks 1024)).getD []

/-- The object of a log, with its lines as they are printed. -/
def logsValue (c : Container) (lines : List Bytes) : Json.Value :=
  .obj [(bytes "id", .str c.id),
    (bytes "found", .bool true),
    (bytes "log_path", .str c.logPath),
    (bytes "lines", .arr (lines.map fun line => .str (visible (trimNewline line))))]

/-- The texts of the last lines. -/
def lineTexts (n : Nat) (lines : List Bytes) : List Bytes :=
  ((lastLines n lines).map trimNewline).map (escaped 2048)

/-- The sums `start + i` of the loops stay inside an `int`. -/
def IndexFits (n lines : Nat) : Prop := tailStart n lines + min lines n ≤ 2 ^ 31

/-- The buffer is used up before a sum leaves the `int`. -/
def StopsInTime (c : Container) (n : Nat) (lines : List Bytes) (len : Nat) : Prop :=
  len ≤ (OutBuf.body (logsOpening c)
    ((lineTexts n lines).take (2 ^ 31 - tailStart n lines.length))).length

/-- Either the lines do not fit the buffer, or the length of the text with its
closing brackets is an `int`. -/
def LengthFits (c : Container) (n : Nat) (lines : List Bytes) (len : Nat) : Prop :=
  len ≤ (OutBuf.body (logsOpening c) (lineTexts n lines)).length ∨
    (OutBuf.body (logsOpening c) (lineTexts n lines)).length + 2 < 2 ^ 31

theorem body_logs (c : Container) (ts : List Bytes) :
    OutBuf.body (logsOpening c) ts ++ bytes "]\x7d" =
      Json.object ([("id", Json.quoted c.id), ("found", Json.boolText true),
        ("log_path", Json.quoted c.logPath)] ++ [("lines", Json.array ts)]) := by
  have hid : bytes "\x7b\"id\":\"" = 123 :: (Json.quoted (bytes "id") ++ [58, 34]) := by decide
  have hfound : bytes "\",\"found\":true,\"log_path\":\"" =
      34 :: 44 :: (Json.member ("found", Json.boolText true) ++
        44 :: (Json.quoted (bytes "log_path") ++ [58, 34])) := by decide
  have hlines : bytes "\",\"lines\":[" =
      34 :: 44 :: (Json.quoted (bytes "lines") ++ [58, 91]) := by decide
  have hopening : logsOpening c =
      123 :: (([("id", Json.quoted c.id), ("found", Json.boolText true),
          ("log_path", Json.quoted c.logPath)].map Json.member).flatMap (· ++ [44]) ++
        (Json.quoted (bytes "lines") ++ [58, 91])) := by
    rw [logsOpening, hid, hfound, hlines]
    simp [Json.member, Json.quoted]
  rw [hopening]
  exact body_object _ "lines" ts

theorem denotes_logs {c : Container} (hid : Json.Plain c.id) (hpath : Json.Plain c.logPath)
    {lines : List Bytes} (hlines : ∀ line ∈ lines, line.length ≤ 1023) :
    Json.Denotes (logsValue c lines)
      (OutBuf.body (logsOpening c) ((lines.map trimNewline).map (escaped 2048)) ++ bytes "]\x7d") := by
  have harray := @denotes_entries _ (fun line => Json.Value.str (visible (trimNewline line))) lines
    (fun line => escaped 2048 (trimNewline line)) fun line hline => by
      have hcut : (trimNewline line).length ≤ line.length := (List.takeWhile_prefix _).length_le
      have hlen := hlines line hline
      exact denotes_escaped (by omega)
  rw [body_logs, List.map_map]
  refine Json.denotes_object ?_
  refine .cons (Json.memberOf (by decide) (.str hid.chars)) ?_
  refine .cons (Json.memberOf (by decide) (Json.denotes_boolText true)) ?_
  refine .cons (Json.memberOf (by decide) (.str hpath.chars)) ?_
  exact .cons (Json.memberOf (by decide) harray) .nil

theorem jsonPlain_containerId (k : Nat) : Json.Plain (containerId k) := by
  have hstem : Json.Plain (bytes "container-") := by decide
  exact List.forall_mem_append.mpr ⟨hstem, Json.plain_of_isDigit (fmtPadded_isDigit 4 k)⟩

section
variable {o : LogOutcome} {m : Manager} {id : Bytes} {c : Container} {n : Int}

/-- `container_logs_tail` prints the last lines of the log, with a line before
and a line behind them. -/
def TailExact (o : LogOutcome) (id : Bytes) (n : Int) (m : Manager) (c : Container) : Prop :=
  containerLogsTail o id n m =
    some (pollStates o.poll m,
      tailHeader (min (logLines o c).length n.toNat) c.logPath ++
        ((lastLines n.toNat (logLines o c)).flatten ++ bytes "--- end ---\n\n"), 0)

theorem containerLogsTail_iff (hcalloc : o.calloc = true) (hstrdup : ∀ k, o.strdup k = true)
    (hid : id ≠ []) (hfind : findContainer (pollStates o.poll m).list id = some c)
    (hpath : c.logPath ≠ []) {file : Bytes} (hfile : o.fopen c.logPath = some file)
    (hnul : ∀ line ∈ logLines o c, (0 : UInt8) ∉ line) (hn : 0 < n) (hint : n < 2 ^ 31) :
    TailExact o id n m c ↔ IndexFits n.toNat (logLines o c).length := by
  have hlines : logLines o c = chunks 1024 file := by
    rw [logLines, if_neg hpath, hfile]
    rfl
  rw [hlines] at hnul
  rw [TailExact, hlines]
  have : NeZero n.toNat := neZero_of_pos (Int.not_le.mpr hn)
  let w : Window n.toNat (Option Bytes) := readTail o (fun line => line) file
  have hspec := @readTail_spec n.toNat _ o (fun line => line) file hstrdup hnul
  have hstart : w.start = tailStart n.toNat (chunks 1024 file).length := hspec.2.1
  have hlen := @length_lastLines n.toNat (chunks 1024 file)
  have hmin : w.count = min (chunks 1024 file).length n.toNat := hspec.1.trans hlen
  have heq : containerLogsTail o id n m =
      (printTail (tailSlot w) (List.range w.count)).map fun text =>
        (pollStates o.poll m, tailHeader w.count c.logPath ++ (text ++ bytes "--- end ---\n\n"),
          0) := by
    rw [containerLogsTail, if_neg hid, dif_neg (Int.not_le.mpr hn)]
    simp only [hfind, hpath, hfile, hcalloc]
    rfl
  rw [heq, ← hmin]
  constructor
  · intro hprinted
    by_contra hfits
    rw [IndexFits] at hfits
    -- the sum for this line is the first outside an `int`
    have hlow := tailStart_lt n.toNat (chunks 1024 file).length
    have hslot : 2 ^ 31 - w.start < w.count := by
      rw [hmin, hstart]
      omega
    have hnone := tailSlot_of_carry (w := w) (i := 2 ^ 31 - w.start) (by omega) (by omega)
      (by omega) (by omega)
    rw [printTail_of_outside (List.mem_range.mpr hslot) hnone] at hprinted
    cases hprinted
  · intro hfits
    have hshows := @shows_readTail n.toNat _ o (fun line => line) file hstrdup hnul
      (min (chunks 1024 file).length n.toNat) hfits
    rw [List.map_id', List.take_of_length_le (by omega)] at hshows
    have hprint := printTail_of_shows hshows
    rw [hlen, ← hmin] at hprint
    rw [List.range_eq_range', hprint]
    rfl

section
variable {N : Nat} [NeZero N] {file : Bytes} {len : Nat} {out : OutBuf}

/-- The loop of the JSON tail while the sums stay inside an `int`. -/
theorem writeTail_of_fits (hstrdup : ∀ k, o.strdup k = true)
    (hnul : ∀ line ∈ chunks 1024 file, (0 : UInt8) ∉ line)
    (hfits : IndexFits N (chunks 1024 file).length) (hlen : len < 2 ^ 31)
    (hout : OutBuf.Holds out len (logsOpening c)) :
    let w : Window N (Option Bytes) := readTail o trimNewline file
    let loop := writeTail (tailSlot w) true (List.range w.count) out
    let text := OutBuf.body (logsOpening c) (lineTexts N (chunks 1024 file))
    (∃ o', loop = .done o' ∧ OutBuf.Holds o' len text) ∨
      ∃ o', loop = .full o' ∧ len ≤ text.length := by
  intro w loop text
  have hspec := @readTail_spec N _ o trimNewline file hstrdup hnul
  have hlast := @length_lastLines N (chunks 1024 file)
  have hmin : w.count = min (chunks 1024 file).length N := hspec.1.trans hlast
  have hopening : OutBuf.Holds out len (OutBuf.body (logsOpening c) []) := by
    rwa [OutBuf.body_nil]
  have hshows := @shows_readTail N _ o trimNewline file hstrdup hnul
    (min (chunks 1024 file).length N) hfits
  rw [List.take_of_length_le (by omega)] at hshows
  have hloop := writeTail_of_shows hlen hshows [] hopening
  rw [List.length_map, hlast, ← hmin, List.append_nil, ← List.range_eq_range'] at hloop
  exact hloop

/-- Otherwise it ends at the first sum outside, unless the buffer ends before. -/
theorem writeTail_of_not_fits (hstrdup : ∀ k, o.strdup k = true)
    (hnul : ∀ line ∈ chunks 1024 file, (0 : UInt8) ∉ line) (hN : N < 2 ^ 31)
    (hfits : ¬ IndexFits N (chunks 1024 file).length) (hlen : len < 2 ^ 31)
    (hout : OutBuf.Holds out len (logsOpening c)) :
    let w : Window N (Option Bytes) := readTail o trimNewline file
    let loop := writeTail (tailSlot w) true (List.range w.count) out
    (loop = .outside ∧ ¬ StopsInTime c N (chunks 1024 file) len) ∨
      ∃ o', loop = .full o' ∧ StopsInTime c N (chunks 1024 file) len := by
  intro w loop
  have hspec := @readTail_spec N _ o trimNewline file hstrdup hnul
  have hstart : w.start = tailStart N (chunks 1024 file).length := hspec.2.1
  have hlast := @length_lastLines N (chunks 1024 file)
  have hmin : w.count = min (chunks 1024 file).length N := hspec.1.trans hlast
  have hlow := tailStart_lt N (chunks 1024 file).length
  have hopening : OutBuf.Holds out len (OutBuf.body (logsOpening c) []) := by
    rwa [OutBuf.body_nil]
  rw [IndexFits] at hfits
  rw [StopsInTime]
  -- `k` lines are in front of the one whose index overflows
  obtain ⟨k, hk⟩ : ∃ k, k = 2 ^ 31 - tailStart N (chunks 1024 file).length := ⟨_, rfl⟩
  obtain ⟨rest, hrest⟩ : ∃ rest, w.count = k + (rest + 1) := ⟨w.count - k - 1, by omega⟩
  have hshows := @shows_readTail N _ o trimNewline file hstrdup hnul k (by omega)
  have hloop := writeTail_of_shows hlen hshows (k :: List.range' (k + 1) rest) hopening
  have hlength : (((lastLines N (chunks 1024 file)).take k).map trimNewline).length = k := by
    rw [List.length_map, List.length_take]
    omega
  have hrange : List.range' 0 k ++ k :: List.range' (k + 1) rest = List.range w.count := by
    rw [List.range_eq_range', hrest, ← List.range'_append_1, Nat.zero_add, List.range'_succ]
  have htexts : (((lastLines N (chunks 1024 file)).take k).map trimNewline).map (escaped 2048) =
      (lineTexts N (chunks 1024 file)).take k := by
    rw [lineTexts, List.map_take, List.map_take]
  simp only [hlength, hrange, htexts, List.nil_append] at hloop
  rw [← hk]
  rcases hloop with ⟨o', hloop, hheld⟩ | ⟨o', hloop, hfull⟩
  · have hnone : tailSlot w k = none := tailSlot_of_carry (by omega) (by omega) (by omega) hN
    refine .inl ⟨?_, ?_⟩
    · rw [writeTail_outside hnone] at hloop
      exact hloop
    · have hroom := hheld.lt
      rw [hheld.2.1] at hroom
      exact Nat.not_le.mpr hroom
  · exact .inr ⟨o', hloop, hfull⟩

end

theorem exists_result_iff {D : Bytes → Int → Prop} (m : Manager) (p : Bytes × Int) :
    (∃ m' mem r, some (m, p) = some (m', mem, r) ∧ D mem r) ↔ D p.1 p.2 := by
  obtain ⟨mem, r⟩ := p
  simp

/-- `container_logs_json_tail` returns `-1` or the length of the log's object. -/
def JsonTailOk (o : LogOutcome) (id : Bytes) (n : Int) (m : Manager) (buf : Bytes) (c : Container) :
    Prop :=
  ∃ m' mem r, containerLogsJsonTail o id n m buf = some (m', mem, r) ∧
    DocumentOr (logsValue c (lastLines n.toNat (logLines o c))) buf.length mem r

theorem length_logsOpening_le (c : Container) (ts : List Bytes) :
    (logsOpening c).length ≤ (OutBuf.body (logsOpening c) ts).length := by
  have hle := OutBuf.length_body_le (logsOpening c) [] ts
  rwa [OutBuf.body_nil] at hle

theorem two_lt_length_logsOpening (c : Container) : 2 < (logsOpening c).length := by
  rw [logsOpening]
  simp only [List.length_append]
  have hid : (bytes "\x7b\"id\":\"").length = 7 := by decide
  omega

theorem document_logs (hplain : Json.Plain c.id) (hpath : Json.Plain c.logPath) {N : Nat}
    {file : Bytes} (hlines : logLines o c = chunks 1024 file) :
    Json.Document (logsValue c (lastLines N (logLines o c)))
      (OutBuf.body (logsOpening c) (lineTexts N (logLines o c)) ++ bytes "]\x7d") := by
  refine (denotes_logs hplain hpath fun line hline => ?_).document
  have hmem : line ∈ chunks 1024 file := hlines ▸ List.mem_of_mem_drop hline
  exact Nat.le_of_lt_succ (length_chunk_lt (by decide) hmem)

/-- What is left of the function for a container that is there. -/
theorem containerLogsJsonTail_eq (hcalloc : o.calloc = true) (hid : id ≠ [])
    (hfind : findContainer (pollStates o.poll m).list id = some c) [NeZero n.toNat] (hn : 0 < n)
    {buf : Bytes} (htwo : ¬ buf.length ≤ 2) :
    containerLogsJsonTail o id n m buf =
      let m := pollStates o.poll m
      let out := OutBuf.snprintf { mem := buf, written := 0 } (logsOpening c)
      if buf.length ≤ out.written then some (m, out.mem, -1)
      else if c.logPath = [] then some (m, closeTail out)
      else
        match o.fopen c.logPath with
        | none => some (m, closeTail out)
        | some file =>
          let w : Window n.toNat (Option Bytes) := readTail o trimNewline file
          match writeTail (tailSlot w) true (List.range w.count) out with
          | .done out => some (m, closeTail out)
          | .full out => some (m, out.mem, -1)
          | .outside => none := by
  rw [containerLogsJsonTail, if_neg (by simp [hid, htwo]), dif_neg (Int.not_le.mpr hn)]
  simp only [hfind, hcalloc]
  rfl

section
variable {len : Nat} {out : OutBuf}

/-- Without lines the object is closed behind its opening. -/
theorem closeTail_empty_iff (hplain : Json.Plain c.id) (hpath : Json.Plain c.logPath)
    (hempty : logLines o c = []) (hn : 0 < n) (hlen : len < 2 ^ 31)
    (hout : OutBuf.Holds out len (logsOpening c)) (m' : Manager) :
    (∃ m'' mem r, some (m', closeTail out) = some (m'', mem, r) ∧
        DocumentOr (logsValue c (lastLines n.toNat (logLines o c))) len mem r) ↔
      (IndexFits n.toNat (logLines o c).length ∨ StopsInTime c n.toNat (logLines o c) len) ∧
        LengthFits c n.toNat (logLines o c) len := by
  have htext := @document_logs o c hplain hpath n.toNat [] hempty
  have hroom : ¬ len ≤ (logsOpening c).length := by
    have hlt := hout.lt
    rw [hout.2.1] at hlt
    omega
  rw [hempty] at htext ⊢
  have htexts : lineTexts n.toNat [] = [] := by
    rw [lineTexts, lastLines, List.drop_nil, List.map_nil, List.map_nil]
  rw [htexts, OutBuf.body_nil] at htext
  have hclose := closeTail_iff hout hlen htext
  have hfits : IndexFits n.toNat ([] : List Bytes).length := by
    rw [List.length_nil, IndexFits, tailStart, if_pos (by omega)]
    omega
  rw [LengthFits, htexts, OutBuf.body_nil]
  rw [exists_result_iff, hclose]
  simp only [hfits, hroom, true_or, true_and, false_or]

/-- The lines of a file, and then the end of the object. -/
theorem writeTail_close_iff {file : Bytes} (hstrdup : ∀ k, o.strdup k = true)
    (hplain : Json.Plain c.id) (hpath : Json.Plain c.logPath)
    (hlines : logLines o c = chunks 1024 file)
    (hnul : ∀ line ∈ logLines o c, (0 : UInt8) ∉ line) [NeZero n.toNat] (hint : n < 2 ^ 31)
    (hlen : len < 2 ^ 31) (hout : OutBuf.Holds out len (logsOpening c)) (m' : Manager) :
    let w : Window n.toNat (Option Bytes) := readTail o trimNewline file
    (∃ m'' mem r,
        (match writeTail (tailSlot w) true (List.range w.count) out with
          | .done out => some (m', closeTail out)
          | .full out => some (m', out.mem, -1)
          | .outside => none) = some (m'', mem, r) ∧
        DocumentOr (logsValue c (lastLines n.toNat (logLines o c))) len mem r) ↔
      (IndexFits n.toNat (logLines o c).length ∨ StopsInTime c n.toNat (logLines o c) len) ∧
        LengthFits c n.toNat (logLines o c) len := by
  intro w
  have htext := @document_logs o c hplain hpath n.toNat file hlines
  rw [hlines] at hnul htext ⊢
  by_cases hfits : IndexFits n.toNat (chunks 1024 file).length
  · simp only [hfits, true_or, true_and]
    rw [LengthFits]
    -- the indexes fit: all lines are written, or the buffer is full before
    rcases writeTail_of_fits hstrdup hnul hfits hlen hout with ⟨o', hloop, hheld⟩ | ⟨o', hloop, hfull⟩
    · rw [hloop]
      have hclose := closeTail_iff hheld hlen htext
      have hshort := hheld.lt
      rw [hheld.2.1] at hshort
      rw [exists_result_iff, hclose]
      simp only [Nat.not_le.mpr hshort, false_or]
    · rw [hloop]
      exact iff_of_true ⟨_, _, _, rfl, .inl rfl⟩ (.inl hfull)
  · simp only [hfits, false_or]
    -- an index overflows: the slot is outside the window unless the buffer is full first
    rcases writeTail_of_not_fits hstrdup hnul (by omega) hfits hlen hout with
      ⟨hloop, hstops⟩ | ⟨o', hloop, hstops⟩
    · rw [hloop]
      refine iff_of_false ?_ fun h => hstops h.1
      rintro ⟨m'', mem, r, heq, -⟩
      cases heq
    · rw [hloop]
      refine iff_of_true ⟨_, _, _, rfl, .inl rfl⟩ ⟨hstops, .inl ?_⟩
      have htake := OutBuf.length_body_le (logsOpening c)
        ((lineTexts n.toNat (chunks 1024 file)).take
          (2 ^ 31 - tailStart n.toNat (chunks 1024 file).length))
        ((lineTexts n.toNat (chunks 1024 file)).drop
          (2 ^ 31 - tailStart n.toNat (chunks 1024 file).length))
      rw [List.take_append_drop] at htake
      exact hstops.trans htake

end

theorem containerLogsJsonTail_iff (hcalloc : o.calloc = true) (hstrdup : ∀ k, o.strdup k = true)
    (hid : id ≠ []) (hfind : findContainer (pollStates o.poll m).list id = some c)
    (hplain : Json.Plain c.id) (hpath : Json.Plain c.logPath)
    (hnul : ∀ line ∈ logLines o c, (0 : UInt8) ∉ line) (hn : 0 < n) (hint : n < 2 ^ 31)
    {buf : Bytes} (hlen : buf.length < 2 ^ 31) :
    JsonTailOk o id n m buf c ↔
      (IndexFits n.toNat (logLines o c).length ∨
          StopsInTime c n.toNat (logLines o c) buf.length) ∧
        LengthFits c n.toNat (logLines o c) buf.length := by
  have : NeZero n.toNat := neZero_of_pos (Int.not_le.mpr hn)
  by_cases htwo : buf.length ≤ 2
  · -- too short a buffer for any text
    have hthree := two_lt_length_logsOpening c
    have hresult : containerLogsJsonTail o id n m buf = some (m, buf, -1) := by
      rw [containerLogsJsonTail, if_pos (.inl htwo)]
    have hle : buf.length ≤ (logsOpening c).length := by omega
    exact iff_of_true ⟨_, _, _, hresult, .inl rfl⟩
      ⟨.inr (hle.trans (length_logsOpening_le c _)), .inl (hle.trans (length_logsOpening_le c _))⟩
  rw [JsonTailOk, containerLogsJsonTail_eq hcalloc hid hfind hn htwo]
  simp only
  by_cases hroom : buf.length ≤ (logsOpening c).length
  · -- the opening text fills the buffer
    have hwritten : buf.length ≤
        (OutBuf.snprintf { mem := buf, written := 0 } (logsOpening c)).written := by
      show buf.length ≤ 0 + (logsOpening c).length
      omega
    rw [if_pos hwritten]
    refine iff_of_true ⟨_, _, _, rfl, .inl rfl⟩ ⟨.inr ?_, .inl ?_⟩
    · exact hroom.trans (length_logsOpening_le c _)
    · exact hroom.trans (length_logsOpening_le c _)
  -- the opening text is there; no file is read the same way as an empty one
  have hout : OutBuf.Holds (OutBuf.snprintf { mem := buf, written := 0 } (logsOpening c))
      buf.length (logsOpening c) :=
    @OutBuf.snprintf_fits buf.length [] buf (logsOpening c) rfl (by simpa using hroom)
  rw [if_neg (Nat.not_le.mpr hout.lt)]
  by_cases hlog : c.logPath = []
  · rw [if_pos hlog]
    exact closeTail_empty_iff hplain hpath (if_pos hlog) hn hlen hout _
  rw [if_neg hlog]
  cases hfile : o.fopen c.logPath with
  | none =>
    refine closeTail_empty_iff hplain hpath ?_ hn hlen hout _
    rw [logLines, if_neg hlog, hfile]
    rfl
  | some file =>
    refine writeTail_close_iff hstrdup hplain hpath ?_ hnul hint hlen hout _
    rw [logLines, if_neg hlog, hfile]
    rfl

/-- **Log tails are exact** as long as the sums `start + i`, and the length of
the closed object, stay inside an `int`. -/
theorem log_tails_iff {m₀ : Manager} {ops : List UserOp} (h₀ : IdsOf Json.Plain m₀)
    (hrun : Runs (fun m op => userStep op m) m₀ ops m) (hcalloc : o.calloc = true)
    (hstrdup : ∀ k, o.strdup k = true) (hid : id ≠ [])
    (hfind : findContainer (pollStates o.poll m).list id = some c)
    (hnul : ∀ line ∈ logLines o c, (0 : UInt8) ∉ line) (hn : 0 < n) (hint : n < 2 ^ 31) :
    (c.logPath ≠ [] → (o.fopen c.logPath).isSome = true →
      (TailExact o id n m c ↔ IndexFits n.toNat (logLines o c).length)) ∧
    ∀ buf : Bytes, buf.length < 2 ^ 31 → Json.Plain c.logPath →
      (JsonTailOk o id n m buf c ↔
        (IndexFits n.toNat (logLines o c).length ∨
            StopsInTime c n.toNat (logLines o c) buf.length) ∧
          LengthFits c n.toNat (logLines o c) buf.length) := by
  have hids : IdsOf Json.Plain m :=
    hrun.invariant (fun _ _ _ h _ hs => h.step (fun _ _ => jsonPlain_containerId _) hs) h₀
  have hplain : Json.Plain c.id := by
    have hmem := ident_mem (mem_of_findContainer hfind).1
    rw [idents_pollStates] at hmem
    obtain ⟨d, hd, hident⟩ := mem_idents.mp hmem
    have hdc : d.id = c.id := congrArg Ident.id hident
    rw [← hdc]
    exact hids.form d hd
  refine ⟨fun hpath hopen => ?_, fun buf hlen hpath => ?_⟩
  · obtain ⟨file, hfile⟩ := Option.isSome_iff_exists.mp hopen
    exact containerLogsTail_iff hcalloc hstrdup hid hfind hpath hfile hnul hn hint
  · exact containerLogsJsonTail_iff hcalloc hstrdup hid hfind hplain hpath hnul hn hint hlen

end

/-- A container in the background. -/
def logOps : List UserOp := [.life (.runBackground (.clean (.ofNat 100)) .zero)]

/-- Its log holds so many empty lines. -/
def logAnswers (k : Nat) : LogOutcome :=
  { poll := .quiet
    fopen := fun _ => some ((List.replicate k []).flatMap fun r => r ++ [10])
    calloc := true
    strdup := fun _ => true }

theorem logOps_run :
    ∃ m c, Runs (fun m op => userStep op m) .init logOps m ∧
      findContainer (pollStates .quiet m).list (containerId 1) = some c ∧
      c.logPath ≠ [] ∧ Json.Plain c.logPath := by
  obtain ⟨m, hrun, hfound⟩ := exists_runOk_of_exec (fun m op => userStep op m) (fun _ _ => True)
    .init logOps
    (fun m => (findContainer (pollStates .quiet m).list (containerId 1)).any fun c =>
      c.logPath ≠ [] ∧ Json.Plain c.logPath)
    (by decide +kernel)
  obtain ⟨c, hc, hpath⟩ := exists_of_any hfound
  exact ⟨m, c, hrun, hc, hpath⟩

theorem logLines_logAnswers (k : Nat) {c : Container} (h : c.logPath ≠ []) :
    logLines (logAnswers k) c = List.replicate k [10] := by
  have hlines := @chunks_lines 1024 (List.replicate k []) fun r hr => by
    rw [List.eq_of_mem_replicate hr]
    decide
  rw [List.map_replicate] at hlines
  rw [logLines, if_neg h]
  exact hlines

theorem logAnswers_nul (k : Nat) {c : Container} (h : c.logPath ≠ []) :
    ∀ line ∈ logLines (logAnswers k) c, (0 : UInt8) ∉ line := by
  intro line hline
  rw [logLines_logAnswers k h] at hline
  rw [List.eq_of_mem_replicate hline]
  decide

theorem idsOf_init (P : Bytes → Prop) : IdsOf P .init :=
  ⟨wf_init, List.nodup_nil, List.forall_mem_nil _⟩

/-- The last two of three lines. -/
theorem log_tails_three :
    ∃ m c, Runs (fun m op => userStep op m) .init logOps m ∧
      TailExact (logAnswers 3) (containerId 1) 2 m c ∧
      JsonTailOk (logAnswers 3) (containerId 1) 2 m (List.replicate 128 0) c := by
  obtain ⟨m, c, hrun, hfind, hpath, hplain⟩ := logOps_run
  have htails := @log_tails_iff (logAnswers 3) m (containerId 1) c 2 .init logOps (idsOf_init _) hrun
    rfl (fun _ => rfl) (containerId_ne_nil 1) hfind (logAnswers_nul 3 hpath) (by decide) (by decide)
  have hfits : IndexFits (2 : Int).toNat (logLines (logAnswers 3) c).length := by
    rw [logLines_logAnswers 3 hpath, List.length_replicate, IndexFits]
    decide
  have hbuf : (List.replicate 128 (0 : UInt8)).length = 128 := List.length_replicate
  refine ⟨m, c, hrun, (htails.1 hpath rfl).mpr hfits,
    (htails.2 _ (by omega) hplain).mpr ⟨.inl hfits, ?_⟩⟩
  rw [LengthFits]
  omega

/-- A billion lines of a log of two billion: the index of the last line is negative. -/
theorem not_log_tails :
    ¬ ∀ (m : Manager) (ops : List UserOp) (o : LogOutcome) (id : Bytes) (c : Container) (n : Int),
      Runs (fun m op => userStep op m) .init ops m → o.calloc = true →
      (∀ k, o.strdup k = true) → id ≠ [] →
      findContainer (pollStates o.poll m).list id = some c →
      (∀ line ∈ logLines o c, (0 : UInt8) ∉ line) → 0 < n → n < 2 ^ 31 →
      (c.logPath ≠ [] → (o.fopen c.logPath).isSome = true → TailExact o id n m c) ∧
      ∀ buf : Bytes, buf.length < 2 ^ 31 → Json.Plain c.logPath → JsonTailOk o id n m buf c := by
  intro hclaim
  obtain ⟨m, c, hrun, hfind, hpath, -⟩ := logOps_run
  obtain ⟨k, hk⟩ : ∃ k, k = 2 ^ 31 + 1 := ⟨_, rfl⟩
  have hexact := (hclaim m logOps (logAnswers k) (containerId 1) c (2 ^ 30 + 1) hrun rfl
    (fun _ => rfl) (containerId_ne_nil 1) hfind (logAnswers_nul k hpath) (by decide)
    (by decide)).1 hpath rfl
  have hfits := (containerLogsTail_iff rfl (fun _ => rfl) (containerId_ne_nil 1) hfind hpath rfl
    (logAnswers_nul k hpath) (by decide) (by decide)).mp hexact
  rw [logLines_logAnswers k hpath, List.length_replicate, hk, IndexFits] at hfits
  revert hfits
  decide

end ContainerSim.Runtime
