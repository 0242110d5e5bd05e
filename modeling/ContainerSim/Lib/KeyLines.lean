import ContainerSim.Lib.Decimal

/-!
# Texts of lines `key:value`

The reader looks for the lines that begin with its label and has only the first
`n` bytes of the text, so that the last line it sees may be cut.
-/

namespace ContainerSim.Lib

/-! ## Lines -/

/-- The lines of a text but the empty ones, as `strtok_r` gives them. -/
def textLines (s : Bytes) : List Bytes := (s.splitOn 10).filter (· ≠ [])

@[simp] theorem textLines_nil : textLines [] = [] := by
  simp [textLines]

theorem textLines_single {line : Bytes} (h : (10 : UInt8) ∉ line) (hne : line ≠ []) :
    textLines line = [line] := by
  unfold textLines
  rw [List.splitOn_eq_singleton h]
  simp [hne]

theorem textLines_append (line rest : Bytes) :
    textLines (line ++ 10 :: rest) = textLines line ++ textLines rest := by
  unfold textLines
  rw [List.splitOn_append_cons_self, List.filter_append]

section Reader

variable {β : Type*} {f : β → Bytes → β}

theorem foldl_textLines_line (hnil : ∀ b, f b [] = b) {line : Bytes} (h : (10 : UInt8) ∉ line)
    (b : β) : (textLines line).foldl f b = f b line := by
  by_cases hne : line = []
  · subst hne
    simp [hnil]
  · simp [textLines_single h hne]

/-- The first line of a text that may be cut behind `n` bytes. -/
theorem foldl_textLines_take (hnil : ∀ b, f b [] = b) {line : Bytes} (h : (10 : UInt8) ∉ line)
    (rest : Bytes) (n : Nat) (b : β) :
    (textLines ((line ++ 10 :: rest).take n)).foldl f b =
      (textLines (rest.take (n - (line.length + 1)))).foldl f (f b (line.take n)) := by
  by_cases hn : n ≤ line.length
  · have hcut : (line ++ 10 :: rest).take n = line.take n := List.take_append_of_le_length hn
    have hnone : n - (line.length + 1) = 0 := by omega
    rw [hcut, hnone, foldl_textLines_line hnil (fun hmem => h (List.mem_of_mem_take hmem))]
    simp
  · obtain ⟨k, hk⟩ : ∃ k, n = line.length + (k + 1) := ⟨n - line.length - 1, by omega⟩
    have hcut : (line ++ 10 :: rest).take n = line ++ 10 :: rest.take k := by
      rw [hk, List.take_length_add_append, List.take_succ_cons]
    have hrest : n - (line.length + 1) = k := by omega
    have hline : line.take n = line := List.take_of_length_le (by omega)
    rw [hcut, hrest, hline, textLines_append, List.foldl_append, foldl_textLines_line hnil h]

end Reader

/-! ## Numbers behind blanks -/

theorem scanInt_blanks {blanks : Bytes} (h : ∀ c ∈ blanks, isSpace c = true) (s : Bytes) :
    scanInt (blanks ++ s) = scanInt s := by
  unfold scanInt
  rw [List.dropWhile_append_of_pos h]

theorem strtoul_blanks {blanks : Bytes} (h : ∀ c ∈ blanks, isSpace c = true) (s : Bytes) :
    strtoul (blanks ++ s) = strtoul s := by
  unfold strtoul
  rw [scanInt_blanks h]

theorem strtoul_lt (s : Bytes) : strtoul s < 2 ^ 64 := by
  unfold strtoul
  split
  · omega
  · split <;> omega
  · omega

/-! ## Entries -/

/-- A line `key:value`. -/
structure KeyLine where
  key : Bytes
  value : Bytes
  key_plain : (58 : UInt8) ∉ key
  one_line : (10 : UInt8) ∉ key ++ 58 :: value

namespace KeyLine

def text (e : KeyLine) : Bytes := e.key ++ 58 :: e.value

/-- The entries, each with its line break. -/
def textOf (es : List KeyLine) : Bytes := es.flatMap fun e => e.text ++ [10]

theorem textOf_cons (e : KeyLine) (es : List KeyLine) :
    textOf (e :: es) = e.text ++ 10 :: textOf es := by
  simp [textOf]

end KeyLine

/-- What a reader that looks for `label` makes of a line. -/
def readLine {β : Type*} (label : Bytes) (read : β → Bytes → β) (b : β) (line : Bytes) : β :=
  if label.isPrefixOf line then read b (line.drop label.length) else b

section KeyLine

variable {β : Type*} {key : Bytes} {read : β → Bytes → β}

theorem readLine_nil (b : β) : readLine (key ++ [58]) read b [] = b := by
  cases key <;> simp [readLine]

/-- A label ends at its colon: a longer or a shorter key does not pass for it. -/
theorem key_eq_of_label {key' v : Bytes} (h : (58 : UInt8) ∉ key) (h' : (58 : UInt8) ∉ key')
    (hpre : key ++ [58] <+: key' ++ 58 :: v) : key = key' := by
  obtain ⟨t, ht⟩ := hpre
  have hstay : ∀ k : Bytes, (58 : UInt8) ∉ k → ∀ t : Bytes,
      (k ++ 58 :: t).takeWhile (fun c => decide (c ≠ 58)) = k := by
    intro k hk t
    rw [List.takeWhile_append_of_pos]
    · simp
    · intro c hc
      exact decide_eq_true fun heq => hk (heq ▸ hc)
  have hcut := congrArg (List.takeWhile fun c => decide (c ≠ 58)) ht
  rw [List.append_assoc, List.singleton_append, hstay key h, hstay key' h'] at hcut
  exact hcut

theorem readLine_other (hkey : (58 : UInt8) ∉ key) {e : KeyLine} (he : e.key ≠ key) (n : Nat)
    (b : β) : readLine (key ++ [58]) read b (e.text.take n) = b := by
  unfold readLine
  refine if_neg fun hpre => he ?_
  have hcut : e.text.take n <+: e.text := List.take_prefix n e.text
  have htake : key ++ [58] <+: e.text := (List.isPrefixOf_iff_prefix.mp hpre).trans hcut
  exact (key_eq_of_label hkey e.key_plain htake).symm

theorem readLine_own {e : KeyLine} (he : e.key = key) (n : Nat) (b : β) :
    readLine (key ++ [58]) read b (e.text.take n) =
      if key.length + 1 ≤ n then read b (e.value.take (n - (key.length + 1))) else b := by
  have htext : e.text = (key ++ [58]) ++ e.value := by simp [KeyLine.text, he]
  have hlen : (key ++ [58]).length = key.length + 1 := by simp
  unfold readLine
  by_cases hn : key.length + 1 ≤ n
  · obtain ⟨k, hk⟩ : ∃ k, n = (key ++ [58]).length + k := ⟨n - (key.length + 1), by omega⟩
    have hcut : e.text.take n = (key ++ [58]) ++ e.value.take k := by
      rw [htext, hk, List.take_length_add_append]
    have hpre : (key ++ [58]).isPrefixOf (e.text.take n) = true := by
      rw [hcut]
      exact List.isPrefixOf_iff_prefix.mpr (List.prefix_append _ _)
    have hrest : n - (key.length + 1) = k := by omega
    rw [if_pos hpre, if_pos hn, hcut, List.drop_left, hrest]
  · have hpre : ¬ (key ++ [58]).isPrefixOf (e.text.take n) = true := by
      intro hpre
      have hle := (List.isPrefixOf_iff_prefix.mp hpre).length_le
      rw [List.length_take] at hle
      omega
    rw [if_neg hpre, if_neg hn]

theorem foldl_entry (e : KeyLine) (es : List KeyLine) (n : Nat) (b : β) :
    (textLines ((KeyLine.textOf (e :: es)).take n)).foldl (readLine (key ++ [58]) read) b =
      (textLines ((KeyLine.textOf es).take (n - (e.text.length + 1)))).foldl
        (readLine (key ++ [58]) read) (readLine (key ++ [58]) read b (e.text.take n)) := by
  rw [KeyLine.textOf_cons]
  exact foldl_textLines_take readLine_nil e.one_line _ n b

theorem foldl_others (hkey : (58 : UInt8) ∉ key) {es : List KeyLine}
    (hes : ∀ e ∈ es, e.key ≠ key) (n : Nat) (b : β) :
    (textLines ((KeyLine.textOf es).take n)).foldl (readLine (key ++ [58]) read) b = b := by
  induction es generalizing n with
  | nil => simp [KeyLine.textOf]
  | cons e es ih =>
    rw [List.forall_mem_cons] at hes
    rw [foldl_entry, readLine_other hkey hes.1]
    exact ih hes.2 _

/-- A reader of the first `n` bytes gets the value of its key, as much of it as
is there, and nothing if the colon is not. -/
theorem foldl_key (hkey : (58 : UInt8) ∉ key) {pre post : List KeyLine} {e : KeyLine}
    (he : e.key = key) (hpre : ∀ d ∈ pre, d.key ≠ key) (hpost : ∀ d ∈ post, d.key ≠ key)
    (n : Nat) (b : β) :
    (textLines ((KeyLine.textOf (pre ++ e :: post)).take n)).foldl
        (readLine (key ++ [58]) read) b =
      if (KeyLine.textOf pre).length + (key.length + 1) ≤ n then
        read b (e.value.take (n - ((KeyLine.textOf pre).length + (key.length + 1))))
      else b := by
  induction pre generalizing n with
  | nil =>
    rw [List.nil_append, foldl_entry, readLine_own he, foldl_others hkey hpost]
    simp [KeyLine.textOf]
  | cons d pre ih =>
    rw [List.forall_mem_cons] at hpre
    have hlen : (KeyLine.textOf (d :: pre)).length =
        d.text.length + 1 + (KeyLine.textOf pre).length := by
      rw [KeyLine.textOf_cons]
      simp only [List.length_append, List.length_cons]
      omega
    rw [List.cons_append, foldl_entry, readLine_other hkey hpre.1, ih hpre.2, hlen]
    by_cases hn : (KeyLine.textOf pre).length + (key.length + 1) ≤ n - (d.text.length + 1)
    · have heq : n - (d.text.length + 1) - ((KeyLine.textOf pre).length + (key.length + 1)) =
          n - (d.text.length + 1 + (KeyLine.textOf pre).length + (key.length + 1)) := by
        omega
      rw [if_pos hn, if_pos (by omega), heq]
    · rw [if_neg hn, if_neg (by omega)]

end KeyLine

end ContainerSim.Lib
