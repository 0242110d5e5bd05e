import ContainerSim.Lib.Decimal
import ContainerSim.Lib.Lines
import Mathlib.Data.List.Basic

/-!
# `/proc/<pid>/stat`

`parse_proc_stat` looks for the last parenthesis, since the name in front of it
is the container's own choice, and cuts the rest at spaces.
-/

namespace ContainerSim.Monitor

open Lib

/-! ## The parser -/

/-- `strchr`, as an index. -/
def strchr (s : Bytes) (c : UInt8) : Option Nat := s.findIdx? (· == c)

/-- `strrchr`, as an index. -/
def strrchr (s : Bytes) (c : UInt8) : Option Nat :=
  (s.reverse.findIdx? (· == c)).map (s.length - 1 - ·)

/-- The part of `MonitorStats` that comes from `stat`. -/
structure MonitorStats where
  state : UInt8
  utimeTicks : UInt64
  stimeTicks : UInt64
  vsizeBytes : UInt64
  rssPages : Int64
  threads : Int64
  deriving DecidableEq, Repr

/-- `read_file_to_buffer` with the file's content, up to its first NUL. -/
def readFileToBuffer (bufferSize : Nat) (content : Option Bytes) : Option Bytes :=
  content.map fun s => cstr (s.take (bufferSize - 1))

/-- The loop over `tokens`, with room for `n` more. -/
def tokenLoop : Nat → Bytes → List Bytes
  | 0, _ => []
  | n + 1, cursor =>
    match strchr cursor 32 with
    | none => [cursor]
    | some i => cursor.take i :: tokenLoop n (cursor.drop (i + 1))

/-- `parse_proc_stat` on the content of the file, none if it cannot be read. A
text that ends right behind the last parenthesis is taken to go on with a NUL. -/
def parseProcStat (content : Option Bytes) (out : MonitorStats) : MonitorStats × Int :=
  match readFileToBuffer 4096 content with
  | none => (out, -1)
  | some buffer =>
    match strchr buffer 40, strrchr buffer 41 with
    | some left, some right =>
      if right ≤ left then (out, -1)
      else
        match buffer.drop (right + 2) with
        | [] => (out, -1)
        | state :: rest =>
          let out := { out with state }
          let tokens := tokenLoop 64 (rest.drop 1)
          if tokens.length < 21 then (out, -1)
          else
            ({ out with
                utimeTicks := UInt64.ofNat (strtoul (tokens.getD 10 []))
                stimeTicks := UInt64.ofNat (strtoul (tokens.getD 11 []))
                threads := strtol (tokens.getD 16 [])
                vsizeBytes := UInt64.ofNat (strtoul (tokens.getD 19 []))
                rssPages := strtol (tokens.getD 20 []) }, 0)
    | _, _ => (out, -1)

/-! ## What the kernel prints -/

/-- A line of `stat`. The name is a C string and nothing else is known of it. -/
structure StatLine where
  pid : Nat
  comm : Bytes
  state : UInt8
  /-- From field 4 on. -/
  fields : List Int
  comm_string : (0 : UInt8) ∉ comm
  state_letter : 65 ≤ state ∧ state ≤ 122
  enough : 21 ≤ fields.length

namespace StatLine

/-- A field by its number in the line. -/
def field (l : StatLine) (n : Nat) : Int := l.fields.getD (n - 4) 0

def fieldsText (l : StatLine) : Bytes := [32].intercalate (l.fields.map fmtInt)

/-- What comes behind the last field. -/
def ending (newline : Bool) : Bytes := if newline then [10] else []

/-- The line, which may end with a line break. -/
def text (l : StatLine) (newline : Bool) : Bytes :=
  fmtNat l.pid ++ 32 :: 40 ::
    (l.comm ++ 41 :: 32 :: l.state :: 32 :: (l.fieldsText ++ ending newline))

/-- The fields that are read fit the types they are stored in. -/
structure Fits (l : StatLine) : Prop where
  utime : 0 ≤ l.field 14 ∧ l.field 14 < 2 ^ 64
  stime : 0 ≤ l.field 15 ∧ l.field 15 < 2 ^ 64
  threads : -2 ^ 63 ≤ l.field 20 ∧ l.field 20 < 2 ^ 63
  vsize : 0 ≤ l.field 23 ∧ l.field 23 < 2 ^ 64
  rss : -2 ^ 63 ≤ l.field 24 ∧ l.field 24 < 2 ^ 63

def stats (l : StatLine) : MonitorStats :=
  { state := l.state
    utimeTicks := UInt64.ofNat (l.field 14).toNat
    stimeTicks := UInt64.ofNat (l.field 15).toNat
    threads := Int64.ofInt (l.field 20)
    vsizeBytes := UInt64.ofNat (l.field 23).toNat
    rssPages := Int64.ofInt (l.field 24) }

end StatLine

/-! ## Searching -/

theorem strchr_append {s t : Bytes} {c : UInt8} (h : c ∉ s) :
    strchr (s ++ c :: t) c = some s.length := by
  unfold strchr
  rw [List.findIdx?_append]
  have hnone : s.findIdx? (· == c) = none := by
    rw [List.findIdx?_eq_none_iff]
    intro b hb
    simp only [beq_eq_false_iff_ne]
    rintro rfl
    exact h hb
  rw [hnone]
  simp [List.findIdx?_cons]

theorem strchr_eq_none {s : Bytes} {c : UInt8} (h : c ∉ s) : strchr s c = none := by
  unfold strchr
  rw [List.findIdx?_eq_none_iff]
  intro b hb
  simp only [beq_eq_false_iff_ne]
  rintro rfl
  exact h hb

theorem strrchr_append {s t : Bytes} {c : UInt8} (h : c ∉ t) :
    strrchr (s ++ c :: t) c = some s.length := by
  have hrev : (s ++ c :: t).reverse = t.reverse ++ c :: s.reverse := by simp
  have hfind := @strchr_append t.reverse s.reverse c (by simpa using h)
  unfold strrchr
  rw [hrev]
  unfold strchr at hfind
  rw [hfind, Option.map_some]
  simp

/-! ## Cutting at spaces -/

/-- A word among the first tokens stands alone, or as the last one in front of
what follows. -/
theorem tokenLoop_getElem? {ws : List Bytes} (hws : ∀ w ∈ ws, (32 : UInt8) ∉ w) {tail : Bytes}
    (htail : (32 : UInt8) ∉ tail) {n k : Nat} (hk : k < ws.length) (hn : k < n) :
    ∃ t, (t = [] ∨ t = tail) ∧
      (tokenLoop n ([32].intercalate ws ++ tail))[k]? = some (ws[k] ++ t) := by
  induction ws generalizing n k with
  | nil => cases hk
  | cons w ws ih =>
    rw [List.forall_mem_cons] at hws
    obtain ⟨n, rfl⟩ := Nat.exists_eq_succ_of_ne_zero (Nat.ne_zero_of_lt hn)
    cases ws with
    | nil =>
      -- the last word: the loop finds no space and takes the tail with it
      have hnone : strchr (w ++ tail) 32 = none := by
        refine strchr_eq_none fun hmem => ?_
        rcases List.mem_append.mp hmem with h | h
        · exact hws.1 h
        · exact htail h
      obtain rfl : k = 0 := by simpa using hk
      refine ⟨tail, .inr rfl, ?_⟩
      rw [List.intercalate_singleton, tokenLoop, hnone]
      rfl
    | cons w' ws =>
      have hsome : strchr ([32].intercalate (w :: w' :: ws) ++ tail) 32 = some w.length := by
        rw [List.intercalate_cons_cons, List.append_assoc, List.append_assoc, List.singleton_append]
        exact strchr_append hws.1
      have hcut : tokenLoop (n + 1) ([32].intercalate (w :: w' :: ws) ++ tail) =
          w :: tokenLoop n ([32].intercalate (w' :: ws) ++ tail) := by
        rw [tokenLoop, hsome, List.intercalate_cons_cons]
        simp
      rw [hcut]
      cases k with
      | zero => exact ⟨[], .inl rfl, by simp⟩
      | succ k =>
        rw [List.length_cons] at hk
        obtain ⟨t, ht, hget⟩ := ih hws.2 (n := n) (k := k) (by omega) (by omega)
        exact ⟨t, ht, by simpa using hget⟩

/-! ## Fields as text -/

/-- A number is printed with digits and a minus sign. -/
theorem mem_fmtInt {i : Int} {c : UInt8} (h : c ∈ fmtInt i) : c ≠ 0 ∧ c ≠ 32 ∧ c ≠ 41 := by
  have hdigit : ∀ n, c ∈ fmtNat n → c ≠ 0 ∧ c ≠ 32 ∧ c ≠ 41 := by
    intro n hn
    have hd := fmtBase_isDigit (by omega) (by omega) n c hn
    refine ⟨?_, ?_, ?_⟩ <;> rintro rfl <;> exact absurd hd (by decide)
  cases i with
  | ofNat n => exact hdigit n h
  | negSucc n =>
    rcases List.mem_cons.mp h with rfl | h
    · decide
    · exact hdigit (n + 1) h

theorem fmtInt_of_nonneg {i : Int} (h : 0 ≤ i) : fmtInt i = fmtNat i.toNat := by
  obtain ⟨n, rfl⟩ := Int.eq_ofNat_of_zero_le h
  rfl

theorem strtoul_field {i : Int} (hi : 0 ≤ i ∧ i < 2 ^ 64) {t : Bytes} (ht : NoDigit 10 t) :
    strtoul (fmtInt i ++ t) = i.toNat := by
  rw [fmtInt_of_nonneg hi.1]
  exact strtoul_fmtNat_append (by omega) ht

theorem strtol_field {i : Int} (hi : -2 ^ 63 ≤ i ∧ i < 2 ^ 63) {t : Bytes} (ht : NoDigit 10 t) :
    strtol (fmtInt i ++ t) = Int64.ofInt i := by
  have hatoi : atoi (fmtInt i ++ t) = i := by
    rw [atoi, scanInt_fmtInt i ht]
    rfl
  have hclamp : max (-2 ^ 63) (min i (2 ^ 63 - 1)) = i := by omega
  rw [strtol, hatoi, hclamp]

namespace StatLine

variable (l : StatLine) (newline : Bool)

theorem noDigit_ending : NoDigit 10 (ending newline) := by
  cases newline with
  | false => exact NoDigit.nil 10
  | true => exact NoDigit.cons (by decide) []

theorem mem_fieldsText {c : UInt8} (h : c ∈ l.fieldsText) : c ≠ 0 ∧ c ≠ 41 := by
  unfold fieldsText at h
  rcases mem_intercalate h with rfl | ⟨w, hw, hc⟩
  · decide
  · obtain ⟨i, -, rfl⟩ := List.mem_map.mp hw
    obtain ⟨h0, -, h41⟩ := mem_fmtInt hc
    exact ⟨h0, h41⟩

theorem mem_ending {c : UInt8} (h : c ∈ ending newline) : c ≠ 0 ∧ c ≠ 32 ∧ c ≠ 41 := by
  cases newline with
  | false => cases h
  | true =>
    obtain rfl := List.mem_singleton.mp h
    decide

/-- The state is a letter. -/
theorem ne_state {c : UInt8} (hc : c < 65) : c ≠ l.state := by
  rintro rfl
  exact UInt8.not_le.mpr hc l.state_letter.1

/-- The parenthesis that closes the name is the last one. -/
theorem not_mem_behind_name :
    (41 : UInt8) ∉ 32 :: l.state :: 32 :: (l.fieldsText ++ ending newline) := by
  have hstate : (41 : UInt8) ≠ l.state := l.ne_state (by decide)
  simp only [List.mem_cons, List.mem_append, not_or]
  refine ⟨by decide, hstate, by decide, fun h => (mem_fieldsText l h).2 rfl, fun h => ?_⟩
  exact (mem_ending newline h).2.2 rfl

theorem no_nul : (0 : UInt8) ∉ l.text newline := by
  have hstate : (0 : UInt8) ≠ l.state := l.ne_state (by decide)
  have hpid : (0 : UInt8) ∉ fmtNat l.pid := fun h => (@mem_fmtInt (.ofNat l.pid) 0 h).1 rfl
  unfold text
  simp only [List.mem_cons, List.mem_append, not_or]
  refine ⟨hpid, by decide, by decide, l.comm_string, by decide, by decide, hstate, by decide,
    fun h => (mem_fieldsText l h).1 rfl, fun h => ?_⟩
  exact (mem_ending newline h).1 rfl

/-- The tokens hold the fields, from field 4 on. -/
theorem tokens_field {n : Nat} (h4 : 4 ≤ n) (h24 : n ≤ 24) :
    ∃ t, NoDigit 10 t ∧
      (tokenLoop 64 (l.fieldsText ++ ending newline))[n - 4]? = some (fmtInt (l.field n) ++ t) := by
  have hspace : ∀ w ∈ l.fields.map fmtInt, (32 : UInt8) ∉ w := by
    intro w hw hmem
    obtain ⟨i, -, rfl⟩ := List.mem_map.mp hw
    exact (mem_fmtInt hmem).2.1 rfl
  have henough := l.enough
  have hk : n - 4 < (l.fields.map fmtInt).length := by
    rw [List.length_map]
    omega
  obtain ⟨t, ht, hget⟩ := tokenLoop_getElem? hspace
    (fun h => (mem_ending newline h).2.1 rfl) hk (by omega : n - 4 < 64)
  refine ⟨t, ?_, ?_⟩
  · rcases ht with rfl | rfl
    · exact NoDigit.nil 10
    · exact noDigit_ending newline
  · unfold fieldsText
    rw [hget, List.getElem_map, field, List.getD_eq_getElem?_getD,
      List.getElem?_eq_getElem (by omega), Option.getD_some]

end StatLine

/-- **The name does not matter**: whatever bytes it has, the line is parsed to
its state and its fields 14, 15, 20, 23 and 24. -/
theorem parseProcStat_text (l : StatLine) (newline : Bool) (hfits : l.Fits)
    (hlen : (l.text newline).length ≤ 4095) (out : MonitorStats) :
    parseProcStat (some (l.text newline)) out = (l.stats, 0) := by
  have hbuffer : readFileToBuffer 4096 (some (l.text newline)) = some (l.text newline) := by
    show some (cstr ((l.text newline).take 4095)) = _
    rw [List.take_of_length_le hlen, cstr_eq_self (l.no_nul newline)]
  -- the line up to the parenthesis that opens the name, and up to the one that closes it
  let behind : Bytes := 32 :: l.state :: 32 :: (l.fieldsText ++ StatLine.ending newline)
  have hopen : l.text newline = (fmtNat l.pid ++ [32]) ++ 40 :: (l.comm ++ 41 :: behind) := by
    simp [StatLine.text, behind]
  have hclose : l.text newline = (fmtNat l.pid ++ 32 :: 40 :: l.comm) ++ 41 :: behind := by
    simp [StatLine.text, behind]
  have hpid : (40 : UInt8) ∉ fmtNat l.pid ++ [32] := by
    intro hmem
    rcases List.mem_append.mp hmem with h | h
    · exact absurd (fmtBase_isDigit (by omega) (by omega) l.pid 40 h) (by decide)
    · exact absurd (List.mem_singleton.mp h) (by decide)
  have hleft : strchr (l.text newline) 40 = some (fmtNat l.pid ++ [32]).length := by
    rw [hopen]
    exact strchr_append hpid
  have hright : strrchr (l.text newline) 41 = some (fmtNat l.pid ++ 32 :: 40 :: l.comm).length := by
    rw [hclose]
    exact strrchr_append (l.not_mem_behind_name newline)
  have hrest : (l.text newline).drop ((fmtNat l.pid ++ 32 :: 40 :: l.comm).length + 2) =
      l.state :: 32 :: (l.fieldsText ++ StatLine.ending newline) := by
    rw [hclose, ← List.drop_drop, List.drop_left]
    rfl
  obtain ⟨t14, h14, hutime⟩ := l.tokens_field newline (show 4 ≤ 14 by omega) (by omega)
  obtain ⟨t15, h15, hstime⟩ := l.tokens_field newline (show 4 ≤ 15 by omega) (by omega)
  obtain ⟨t20, h20, hthreads⟩ := l.tokens_field newline (show 4 ≤ 20 by omega) (by omega)
  obtain ⟨t23, h23, hvsize⟩ := l.tokens_field newline (show 4 ≤ 23 by omega) (by omega)
  obtain ⟨t24, h24, hrss⟩ := l.tokens_field newline (show 4 ≤ 24 by omega) (by omega)
  -- field 24 is there, so there are tokens enough
  obtain ⟨hcount, -⟩ := List.getElem?_eq_some_iff.mp hrss
  unfold parseProcStat
  rw [hbuffer]
  simp only [hleft, hright, hrest]
  rw [if_neg (by simp), List.drop_one, List.tail_cons, if_neg (by omega)]
  simp only [List.getD_eq_getElem?_getD, hutime, hstime, hthreads, hvsize, hrss, Option.getD_some]
  rw [strtoul_field hfits.utime h14, strtoul_field hfits.stime h15,
    strtol_field hfits.threads h20, strtoul_field hfits.vsize h23, strtol_field hfits.rss h24]
  rfl

/-- A process that calls itself `a) R 1 (\n)`. -/
def trickyLine : StatLine where
  pid := 4321
  comm := bytes "a) R 1 (\n)"
  state := 83
  fields := [1, 4321, 4321, 0, -1, 4194560, 2, 0, 0, 0, 150, 25, 0, 0, 20, 0, 3, 0, 77, 8192000,
    250, -1]
  comm_string := by decide
  state_letter := by decide
  enough := by decide

theorem parseProcStat_tricky :
    parseProcStat (some (trickyLine.text true))
        { state := 90, utimeTicks := 7, stimeTicks := 7, threads := 7, vsizeBytes := 7
          rssPages := 7 } =
      ({ state := 83, utimeTicks := 150, stimeTicks := 25, threads := 3, vsizeBytes := 8192000
         rssPages := 250 }, 0) := by
  have hfits : trickyLine.Fits := ⟨by decide, by decide, by decide, by decide, by decide⟩
  exact parseProcStat_text trickyLine true hfits (by decide +kernel) _

end ContainerSim.Monitor
