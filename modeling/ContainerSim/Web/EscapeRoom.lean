import ContainerSim.Lib.JsonUnique
import ContainerSim.Web.Escape

/-!
# What `json_escape_copy` does when the room ends

As long as the escape of a character leaves a byte for the NUL, it is written.
With one byte left in front of that NUL, no escape fits any more: a quote or a
backslash is then copied bare, and a newline, a carriage return or a tab is
skipped while the character behind it still finds room (`escaped_safe_iff`). In
a buffer of twice the size of the text neither can happen (`escape_lossless`).
-/

namespace ContainerSim.Web

open Lib

/-- The bytes the loop of `json_escape_copy` appends for one character. -/
def jsonEscapeBody (dstSize out : Nat) (ch : UInt8) : Bytes :=
  if (ch = 92 ∨ ch = 34) ∧ out + 2 < dstSize then [92, ch]
  else if ch = 10 ∧ out + 2 < dstSize then [92, 110]
  else if ch = 13 ∧ out + 2 < dstSize then [92, 114]
  else if ch = 9 ∧ out + 2 < dstSize then [92, 116]
  else if 32 ≤ ch then [ch]
  else []

/-- What is left of `src` when the loop of `json_escape_copy` ends. -/
def jsonEscapeLeft (dstSize : Nat) : Nat → Bytes → Bytes
  | _, [] => []
  | out, ch :: src =>
    if out + 1 < dstSize then
      jsonEscapeLeft dstSize (out + (jsonEscapeBody dstSize out ch).length) src
    else ch :: src

theorem jsonEscapeCopy_cons {dstSize out : Nat} (ch : UInt8) (src : Bytes) (h : out + 1 < dstSize) :
    jsonEscapeCopy dstSize out (ch :: src) = jsonEscapeBody dstSize out ch ++
      jsonEscapeCopy dstSize (out + (jsonEscapeBody dstSize out ch).length) src := by
  rw [jsonEscapeCopy, if_pos h, jsonEscapeBody]
  repeat' split
  all_goals rfl

theorem jsonEscapeCopy_full {dstSize out : Nat} (src : Bytes) (h : dstSize ≤ out + 1) :
    jsonEscapeCopy dstSize out src = [] := by
  cases src with
  | nil => rfl
  | cons ch src => rw [jsonEscapeCopy, if_neg (by omega)]

/-- With room for two bytes every character gets its escape. -/
theorem jsonEscapeBody_room {dstSize out : Nat} (ch : UInt8) (h : out + 2 < dstSize) :
    jsonEscapeBody dstSize out ch = escapeChar ch := by
  simp only [jsonEscapeBody, escapeChar, h, and_true]

/-- With room for one byte no character does. -/
theorem jsonEscapeBody_last {dstSize out : Nat} (ch : UInt8) (h : out + 2 = dstSize) :
    jsonEscapeBody dstSize out ch = if 32 ≤ ch then [ch] else [] := by
  have hroom : ¬ out + 2 < dstSize := by omega
  simp only [jsonEscapeBody, hroom, and_false, if_false]

/-! ## The width of an escape -/

/-- The length of the escape of a character. -/
def escapeWidth (ch : UInt8) : Nat :=
  if ch = 92 ∨ ch = 34 ∨ ch = 10 ∨ ch = 13 ∨ ch = 9 then 2 else if 32 ≤ ch then 1 else 0

def escapedLength (s : Bytes) : Nat := (s.map escapeWidth).sum

theorem escapedLength_cons (ch : UInt8) (s : Bytes) :
    escapedLength (ch :: s) = escapeWidth ch + escapedLength s := rfl

/-- A character without an escape of its own. -/
theorem escapeChar_raw {ch : UInt8} (h : ¬ (ch = 92 ∨ ch = 34 ∨ ch = 10 ∨ ch = 13 ∨ ch = 9)) :
    escapeChar ch = if 32 ≤ ch then [ch] else [] := by
  unfold escapeChar
  rw [if_neg (show ¬ (ch = 92 ∨ ch = 34) by tauto), if_neg (show ¬ ch = 10 by tauto),
    if_neg (show ¬ ch = 13 by tauto), if_neg (show ¬ ch = 9 by tauto)]

theorem length_escapeChar (ch : UInt8) : (escapeChar ch).length = escapeWidth ch := by
  unfold escapeWidth
  by_cases hesc : ch = 92 ∨ ch = 34 ∨ ch = 10 ∨ ch = 13 ∨ ch = 9
  · rw [if_pos hesc]
    rcases hesc with rfl | rfl | rfl | rfl | rfl
    · rfl
    · rfl
    · rfl
    · rfl
    · rfl
  · rw [if_neg hesc, escapeChar_raw hesc]
    split
    · rfl
    · rfl

theorem length_escape (s : Bytes) : (escape s).length = escapedLength s := by
  induction s with
  | nil => rfl
  | cons ch s ih =>
    rw [escape_cons, List.length_append, length_escapeChar, ih, escapedLength_cons]

theorem escapeWidth_le (ch : UInt8) : escapeWidth ch ≤ 2 := by
  rw [← length_escapeChar]
  exact length_escapeChar_le ch

/-- The character whose escape fits gets it, even if its one byte is the last. -/
theorem jsonEscapeBody_fits {dstSize out : Nat} {ch : UInt8} (h : out + 1 < dstSize)
    (hfits : out + escapeWidth ch < dstSize) : jsonEscapeBody dstSize out ch = escapeChar ch := by
  by_cases hroom : out + 2 < dstSize
  · exact jsonEscapeBody_room ch hroom
  · rw [jsonEscapeBody_last ch (by omega)]
    have hwidth : escapeWidth ch ≠ 2 := by omega
    unfold escapeWidth at hwidth
    have hplain : ¬ (ch = 92 ∨ ch = 34 ∨ ch = 10 ∨ ch = 13 ∨ ch = 9) := by
      intro hesc
      exact hwidth (if_pos hesc)
    rw [escapeChar_raw hplain]

/-- A text whose escapes fit is escaped, and the loop goes on behind it. -/
theorem jsonEscapeCopy_append {dstSize out : Nat} {pre : Bytes} (rest : Bytes)
    (h : out + escapedLength pre < dstSize) : jsonEscapeCopy dstSize out (pre ++ rest) =
      escape pre ++ jsonEscapeCopy dstSize (out + escapedLength pre) rest := by
  induction pre generalizing out with
  | nil => rfl
  | cons ch pre ih =>
    rw [escapedLength_cons] at h ⊢
    by_cases hone : out + 1 < dstSize
    · have hbody : jsonEscapeBody dstSize out ch = escapeChar ch :=
        jsonEscapeBody_fits hone (by omega)
      rw [List.cons_append, jsonEscapeCopy_cons ch _ hone, hbody, length_escapeChar, ih (by omega),
        escape_cons, List.append_assoc, Nat.add_assoc]
    · -- the loop has ended, and nothing in the text would have written a byte
      have hlen : (escape (ch :: pre)).length = 0 := by
        rw [length_escape, escapedLength_cons]
        omega
      rw [jsonEscapeCopy_full _ (by omega), jsonEscapeCopy_full _ (by omega),
        List.eq_nil_of_length_eq_zero hlen]
      rfl

/-- With room for one byte the next character that is no control character
takes it as it is. -/
theorem jsonEscapeCopy_last {dstSize out : Nat} (src : Bytes) (h : out + 2 = dstSize) :
    jsonEscapeCopy dstSize out src = (src.find? fun ch => decide (32 ≤ ch)).toList := by
  induction src with
  | nil => rfl
  | cons ch src ih =>
    rw [jsonEscapeCopy_cons ch src (by omega), jsonEscapeBody_last ch h]
    by_cases hlow : 32 ≤ ch
    · rw [if_pos hlow, List.find?_cons_of_pos (by simpa using hlow),
        jsonEscapeCopy_full src (by simp; omega)]
      rfl
    · rw [if_neg hlow, List.find?_cons_of_neg (by simpa using hlow)]
      exact ih

/-! ## Where the room ends -/

/-- The longest part of a text whose escapes fit. -/
theorem exists_fitting {dstSize : Nat} (h : 0 < dstSize) (src : Bytes) :
    ∃ pre rest, src = pre ++ rest ∧ escapedLength pre < dstSize ∧
      ∀ ch ∈ rest.head?, dstSize ≤ escapedLength pre + escapeWidth ch := by
  induction src using List.reverseRecOn with
  | nil => exact ⟨[], [], rfl, h, fun ch hch => by cases hch⟩
  | append_singleton src ch ih =>
    obtain ⟨pre, rest, rfl, hlt, hrest⟩ := ih
    cases rest with
    | nil =>
      by_cases hfits : escapedLength pre + escapeWidth ch < dstSize
      · refine ⟨pre ++ [ch], [], by simp, ?_, fun ch hch => by cases hch⟩
        simpa [escapedLength] using hfits
      · refine ⟨pre, [ch], by simp, hlt, fun c hc => ?_⟩
        obtain rfl := Option.some.inj hc
        omega
    | cons c rest =>
      exact ⟨pre, c :: (rest ++ [ch]), by simp, hlt, fun d hd => hrest d hd⟩

/-- One byte of room is left where an escape is due: for a quote or a backslash,
or for another escape with something to copy behind it. -/
def CutAtEscape (dstSize : Nat) (src : Bytes) : Prop :=
  ∃ pre ch post, src = pre ++ ch :: post ∧ escapedLength pre + 2 = dstSize ∧
    (ch = 92 ∨ ch = 34 ∨ (ch = 10 ∨ ch = 13 ∨ ch = 9) ∧ ∃ c ∈ post, 32 ≤ c)

/-- What is written into a buffer in which the room runs out in front of `rest`. -/
theorem jsonEscapeCopy_cut {dstSize : Nat} {pre : Bytes} (rest : Bytes)
    (h : escapedLength pre + 2 = dstSize) : jsonEscapeCopy dstSize 0 (pre ++ rest) =
      escape pre ++ (rest.find? fun ch => decide (32 ≤ ch)).toList := by
  rw [jsonEscapeCopy_append rest (by omega), Nat.zero_add, jsonEscapeCopy_last rest h]

theorem visible_append (s t : Bytes) : visible (s ++ t) = visible s ++ visible t :=
  List.filter_append s t

/-- Where no escape is cut, the escapes of a part of the text are written. -/
theorem jsonEscapeCopy_eq_escape {dstSize : Nat} {src : Bytes} (h : 0 < dstSize)
    (hcut : ¬ CutAtEscape dstSize src) :
    ∃ pre rest, src = pre ++ rest ∧ jsonEscapeCopy dstSize 0 src = escape pre := by
  obtain ⟨pre, rest, rfl, hlt, hrest⟩ := exists_fitting h src
  refine ⟨pre, rest, rfl, ?_⟩
  cases rest with
  | nil => rw [jsonEscapeCopy_append [] (by omega), jsonEscapeCopy, List.append_nil]
  | cons ch post =>
    have hwide := hrest ch rfl
    have hwidth := escapeWidth_le ch
    by_cases hfull : escapedLength pre + 1 = dstSize
    · rw [jsonEscapeCopy_append _ (by omega), jsonEscapeCopy_full _ (by omega), List.append_nil]
    · -- a wide escape is due and one byte is left
      have hlast : escapedLength pre + 2 = dstSize := by omega
      have htwo : escapeWidth ch = 2 := by omega
      have hesc : ch = 92 ∨ ch = 34 ∨ ch = 10 ∨ ch = 13 ∨ ch = 9 := by
        by_contra hnot
        unfold escapeWidth at htwo
        rw [if_neg hnot] at htwo
        split at htwo
        · cases htwo
        · cases htwo
      have hblank : ch = 10 ∨ ch = 13 ∨ ch = 9 := by
        by_contra hnot
        exact hcut ⟨pre, ch, post, rfl, hlast, by tauto⟩
      have hpost : ∀ c ∈ ch :: post, ¬ 32 ≤ c := by
        refine List.forall_mem_cons.mpr ⟨?_, fun c hc hlow => ?_⟩
        · rcases hblank with rfl | rfl | rfl
          · decide
          · decide
          · decide
        · exact hcut ⟨pre, ch, post, rfl, hlast, .inr (.inr ⟨hblank, c, hc, hlow⟩)⟩
      have hfind : (ch :: post).find? (fun ch => decide (32 ≤ ch)) = none := by
        rw [List.find?_eq_none]
        intro c hc
        simpa using hpost c hc
      rw [jsonEscapeCopy_cut _ hlast, hfind, Option.toList_none, List.append_nil]

/-- A character copied bare in place of an escape makes the text no string, or
the string of another text. -/
theorem not_prefix_of_cut {dstSize : Nat} {src s : Bytes} (hcut : CutAtEscape dstSize src)
    (hs : Json.Chars s (jsonEscapeCopy dstSize 0 src)) : ¬ s <+: visible src := by
  obtain ⟨pre, ch, post, rfl, hlast, hch⟩ := hcut
  rw [jsonEscapeCopy_cut _ hlast] at hs
  obtain ⟨d, hfind⟩ : ∃ d, (ch :: post).find? (fun ch => decide (32 ≤ ch)) = some d := by
    refine Option.isSome_iff_exists.mp (List.find?_isSome.mpr ?_)
    rcases hch with rfl | rfl | ⟨-, c, hc, hlow⟩
    · exact ⟨92, List.mem_cons_self, by decide⟩
    · exact ⟨34, List.mem_cons_self, by decide⟩
    · exact ⟨c, List.mem_cons_of_mem _ hc, by simpa using hlow⟩
  rw [hfind] at hs
  obtain ⟨s₂, rfl, hd⟩ := (chars_escape pre).cancel hs
  have hbare : ¬ (d = 34 ∨ d = 92) := fun h => Json.Chars.not_bare h hd
  have hlow : 32 ≤ d := by simpa using List.find?_some hfind
  have hs₂ : s₂ = [d] := by
    have hraw : Json.Chars [d] [d] := .raw hlow (by tauto) (by tauto) .nil
    exact (hd.unique (x := []) (y := []) hraw rfl).1
  rintro ⟨s₃, hs₃⟩
  rw [hs₂, visible_append, List.append_assoc] at hs₃
  have hrest := List.append_cancel_left hs₃
  rcases hch with rfl | rfl | ⟨hblank, -⟩
  · exact hbare (.inr (List.cons.inj hrest).1)
  · exact hbare (.inl (List.cons.inj hrest).1)
  · -- the skipped character is still part of the text
    have hkeep : visible (ch :: post) = ch :: visible post := by
      refine List.filter_cons_of_pos ?_
      rcases hblank with rfl | rfl | rfl
      · decide
      · decide
      · decide
    rw [hkeep] at hrest
    have hd : d = ch := (List.cons.inj hrest).1
    subst hd
    rcases hblank with rfl | rfl | rfl
    · exact absurd hlow (by decide)
    · exact absurd hlow (by decide)
    · exact absurd hlow (by decide)

/-- `json_escape_copy` writes no more than its destination holds, and what it
writes is a string that stands for a prefix of the text without its control
characters, exactly as long as one byte of room is not all there is where an
escape is due. -/
theorem escaped_safe_iff {dstSize : Nat} (h : 0 < dstSize) (src : Bytes) :
    ((jsonEscapeCopy dstSize 0 src).length + 1 ≤ dstSize ∧
      ∃ s, Json.Denotes (.str s) (escaped dstSize src) ∧ s <+: visible src) ↔
      ¬ CutAtEscape dstSize src := by
  constructor
  · rintro ⟨-, s, hs, hprefix⟩ hcut
    exact not_prefix_of_cut hcut (Json.denotes_str_iff.mp hs) hprefix
  · intro hcut
    have hlen := length_jsonEscapeCopy src h
    obtain ⟨pre, rest, rfl, hcopy⟩ := jsonEscapeCopy_eq_escape h hcut
    refine ⟨by omega, visible pre, ?_, ?_⟩
    · rw [escaped, hcopy]
      exact denotes_escape pre
    · rw [visible_append]
      exact List.prefix_append _ _

/-- A quote in front of the last byte. -/
theorem escaped_safe_iff_quote : 0 < 4 ∧
    (((jsonEscapeCopy 4 0 (bytes "ab\"c")).length + 1 ≤ 4 ∧
      ∃ s, Json.Denotes (.str s) (escaped 4 (bytes "ab\"c")) ∧ s <+: visible (bytes "ab\"c")) ↔
      ¬ CutAtEscape 4 (bytes "ab\"c")) :=
  ⟨by decide, escaped_safe_iff (by decide) (bytes "ab\"c")⟩

/-- One byte of room is left in front of the quote of `ab"c`, and the text
between the quotes ends with a quote of its own. -/
theorem escaped_unsafe : ¬ ∀ dstSize src, 0 < dstSize → 0 ∉ src →
    (jsonEscapeCopy dstSize 0 src).length + 1 ≤ dstSize ∧
      ∃ s, Json.Denotes (.str s) (escaped dstSize src) ∧ s <+: visible src := by
  intro h
  obtain ⟨-, s, hs, hprefix⟩ := h 4 (bytes "ab\"c") (by decide) (by decide)
  have hcut : CutAtEscape 4 (bytes "ab\"c") :=
    ⟨bytes "ab", 34, bytes "c", by decide, by decide, .inr (.inl rfl)⟩
  exact not_prefix_of_cut hcut (Json.denotes_str_iff.mp hs) hprefix

/-! ## Twice the room -/

/-- With two bytes for each character the loop reads the whole text. -/
theorem jsonEscapeLeft_eq_nil {dstSize out : Nat} {src : Bytes}
    (h : out + 2 * src.length < dstSize) : jsonEscapeLeft dstSize out src = [] := by
  induction src generalizing out with
  | nil => rfl
  | cons ch src ih =>
    rw [List.length_cons] at h
    have hone : out + 1 < dstSize := by omega
    have hwidth := escapeWidth_le ch
    rw [jsonEscapeLeft, if_pos hone, jsonEscapeBody_fits hone (by omega), length_escapeChar]
    exact ih (by omega)

/-- A text without the characters that are dropped. -/
theorem visible_eq_self {s : Bytes} (h : ∀ c ∈ s, 32 ≤ c ∨ c = 10 ∨ c = 13 ∨ c = 9) :
    visible s = s := by
  refine List.filter_eq_self.mpr fun c hc => ?_
  simpa [or_assoc] using h c hc

/-- A buffer of twice the size of a field has room for the escapes of any text
the field holds. -/
theorem twice_field {size : Nat} {src : Bytes} (h : src.length < size) :
    2 * src.length + 1 ≤ 2 * size := by omega

/-- In a buffer of twice the size of its text `json_escape_copy` loses nothing:
it reads the whole text, its output stands for the text without its control
characters and for nothing else, and texts that have none are told apart. -/
theorem escape_lossless {dstSize : Nat} {src : Bytes} (h : 2 * src.length + 1 ≤ dstSize) :
    jsonEscapeLeft dstSize 0 src = [] ∧
      (∀ v, Json.Denotes v (escaped dstSize src) ↔ v = .str (visible src)) ∧
      ∀ dstSize' src', 2 * src'.length + 1 ≤ dstSize' →
        (∀ c ∈ src, 32 ≤ c ∨ c = 10 ∨ c = 13 ∨ c = 9) →
        (∀ c ∈ src', 32 ≤ c ∨ c = 10 ∨ c = 13 ∨ c = 9) →
        jsonEscapeCopy dstSize 0 src = jsonEscapeCopy dstSize' 0 src' → src = src' := by
  refine ⟨jsonEscapeLeft_eq_nil (by omega), fun v => ⟨fun hv => ?_, ?_⟩, ?_⟩
  · exact (hv.unique (denotes_escaped h) rfl Json.stop_nil Json.stop_nil).1
  · rintro rfl
    exact denotes_escaped h
  · intro dstSize' src' h' hplain hplain' heq
    rw [jsonEscapeCopy_eq (by omega), jsonEscapeCopy_eq (by omega)] at heq
    have hchars : Json.Chars (visible src') (escape src) := by
      rw [heq]
      exact chars_escape src'
    have hvisible := ((chars_escape src).unique (x := []) (y := []) hchars rfl).1
    rwa [visible_eq_self hplain, visible_eq_self hplain'] at hvisible

/-- A quote and a newline in a field of eight bytes. -/
theorem escape_lossless_field : 2 * (bytes "a\"b\nc").length + 1 ≤ 2 * 8 ∧
    jsonEscapeLeft (2 * 8) 0 (bytes "a\"b\nc") = [] ∧
    (∀ v, Json.Denotes v (escaped (2 * 8) (bytes "a\"b\nc")) ↔
      v = .str (visible (bytes "a\"b\nc"))) ∧
    (2 * (bytes "abc").length + 1 ≤ 2 * 8 → jsonEscapeCopy (2 * 8) 0 (bytes "a\"b\nc") =
      jsonEscapeCopy (2 * 8) 0 (bytes "abc") → bytes "a\"b\nc" = bytes "abc") := by
  have hroom : 2 * (bytes "a\"b\nc").length + 1 ≤ 2 * 8 := twice_field (by decide)
  obtain ⟨hleft, hdenotes, hinj⟩ := escape_lossless hroom
  refine ⟨hroom, hleft, hdenotes, fun h => hinj (2 * 8) (bytes "abc") h ?_ ?_⟩
  · decide +kernel
  · decide +kernel

end ContainerSim.Web
