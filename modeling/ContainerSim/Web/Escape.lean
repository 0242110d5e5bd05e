import ContainerSim.Lib.Json
import ContainerSim.Lib.OutBuf

/-!
# What the web API prints

`json_escape_copy`, of which `alert.c`, `eventbus.c` and `container.c` have a
copy each, and the times the API prints. A destination of twice the size of
its source never cuts a text, and what it holds is read back as the source
without its control characters.
-/

namespace ContainerSim.Web

open Lib

/-- The loop of `json_escape_copy` with `out` bytes in `dst`. A character whose
escape has no room is copied as it is. -/
def jsonEscapeCopy (dstSize : Nat) : Nat → Bytes → Bytes
  | _, [] => []
  | out, ch :: src =>
    if out + 1 < dstSize then
      if (ch = 92 ∨ ch = 34) ∧ out + 2 < dstSize then 92 :: ch :: jsonEscapeCopy dstSize (out + 2) src
      else if ch = 10 ∧ out + 2 < dstSize then 92 :: 110 :: jsonEscapeCopy dstSize (out + 2) src
      else if ch = 13 ∧ out + 2 < dstSize then 92 :: 114 :: jsonEscapeCopy dstSize (out + 2) src
      else if ch = 9 ∧ out + 2 < dstSize then 92 :: 116 :: jsonEscapeCopy dstSize (out + 2) src
      else if 32 ≤ ch then ch :: jsonEscapeCopy dstSize (out + 1) src
      else jsonEscapeCopy dstSize out src
    else []

/-- `\"%s\"` with a text that was copied into a buffer of `dstSize` bytes. -/
def escaped (dstSize : Nat) (src : Bytes) : Bytes := Json.quoted (jsonEscapeCopy dstSize 0 src)

/-- A way of printing that fits a buffer of `size` bytes and needs no escape. -/
structure Printer (α : Type) (size : Nat) where
  text : α → Bytes
  length_lt : ∀ a, (text a).length < size
  plain : ∀ a, Json.Plain (text a)

/-- What `localtime` and `strftime` make of a time. -/
abbrev Clock (size : Nat) : Type := Printer Int size

theorem plain_epoch : Json.Plain (bytes "1970-01-01T00:00:00") := by decide

/-- A clock that stands still. -/
def epochClock : Clock 32 where
  text := fun _ => bytes "1970-01-01T00:00:00"
  length_lt := fun _ => by decide
  plain := fun _ => plain_epoch

/-! ## Escaping with room enough -/

def escapeChar (ch : UInt8) : Bytes :=
  if ch = 92 ∨ ch = 34 then [92, ch]
  else if ch = 10 then [92, 110]
  else if ch = 13 then [92, 114]
  else if ch = 9 then [92, 116]
  else if 32 ≤ ch then [ch]
  else []

def escape (s : Bytes) : Bytes := s.flatMap escapeChar

/-- No control character other than newline, carriage return and tab. -/
def visible (s : Bytes) : Bytes := s.filter fun ch => 32 ≤ ch || ch = 10 || ch = 13 || ch = 9

theorem length_escapeChar_le (ch : UInt8) : (escapeChar ch).length ≤ 2 := by
  unfold escapeChar
  repeat' split
  all_goals simp

theorem escape_cons (ch : UInt8) (s : Bytes) : escape (ch :: s) = escapeChar ch ++ escape s :=
  List.flatMap_cons

/-- The destination holds what is copied and a NUL. -/
theorem length_jsonEscapeCopy {dstSize out : Nat} (src : Bytes) (h : out < dstSize) :
    out + (jsonEscapeCopy dstSize out src).length < dstSize := by
  induction src generalizing out with
  | nil => exact h
  | cons ch src ih =>
    rw [jsonEscapeCopy]
    split
    · have hone : ∀ c, out + (c :: jsonEscapeCopy dstSize (out + 1) src).length < dstSize := by
        intro c
        have hrest := @ih (out + 1) (by assumption)
        rw [List.length_cons]
        omega
      have htwo : out + 2 < dstSize → ∀ c d,
          out + (c :: d :: jsonEscapeCopy dstSize (out + 2) src).length < dstSize := by
        intro hroom c d
        have hrest := ih hroom
        rw [List.length_cons, List.length_cons]
        omega
      repeat' split
      · exact htwo (by tauto) _ _
      · exact htwo (by tauto) _ _
      · exact htwo (by tauto) _ _
      · exact htwo (by tauto) _ _
      · exact hone _
      · exact ih h
    · exact h

theorem length_escaped_le {dstSize : Nat} (h : 0 < dstSize) (src : Bytes) :
    (escaped dstSize src).length ≤ dstSize + 1 := by
  have hcopy := length_jsonEscapeCopy src h
  rw [escaped, Json.length_quoted]
  omega

theorem length_escape_le (s : Bytes) : (escape s).length ≤ 2 * s.length := by
  induction s with
  | nil => exact Nat.le_refl 0
  | cons ch s ih =>
    have hch := length_escapeChar_le ch
    rw [escape_cons, List.length_append, List.length_cons]
    omega

/-- With room for every escape nothing is cut. -/
theorem jsonEscapeCopy_eq {dstSize out : Nat} {src : Bytes}
    (h : out + 2 * src.length < dstSize) : jsonEscapeCopy dstSize out src = escape src := by
  induction src generalizing out with
  | nil => rfl
  | cons ch src ih =>
    rw [List.length_cons] at h
    have h1 : out + 1 < dstSize := by omega
    have h2 : out + 2 < dstSize := by omega
    have ih2 : jsonEscapeCopy dstSize (out + 2) src = escape src := ih (by omega)
    have ih1 : jsonEscapeCopy dstSize (out + 1) src = escape src := ih (by omega)
    have ih0 : jsonEscapeCopy dstSize out src = escape src := ih (by omega)
    rw [jsonEscapeCopy, if_pos h1, ih2, ih1, ih0, escape_cons, escapeChar]
    simp only [h2, and_true]
    repeat' split
    all_goals rfl

/-- Two bytes for each byte and one for the NUL are enough. -/
theorem escaped_eq {dstSize : Nat} {src : Bytes} (h : 2 * src.length < dstSize) :
    escaped dstSize src = Json.quoted (escape src) := by
  rw [escaped, jsonEscapeCopy_eq (by omega)]

theorem length_escaped_quotes {dstSize k : Nat} (h : 2 * k < dstSize) :
    (escaped dstSize (List.replicate k 34)).length = 2 * k + 2 := by
  have hescape : (escape (List.replicate k 34)).length = 2 * k := by
    induction k with
    | zero => rfl
    | succ k ih =>
      rw [List.replicate_succ, escape_cons, List.length_append, ih (by omega)]
      show 2 + 2 * k = 2 * (k + 1)
      omega
  rw [escaped_eq (by rwa [List.length_replicate]), Json.length_quoted, hescape]

/-- Text that needs no escape is copied as it is. -/
theorem jsonEscapeCopy_plain {dstSize out : Nat} {src : Bytes} (hplain : Json.Plain src)
    (h : out + src.length < dstSize) : jsonEscapeCopy dstSize out src = src := by
  induction src generalizing out with
  | nil => rfl
  | cons ch src ih =>
    obtain ⟨⟨hlow, hq, hb⟩, hsrc⟩ := List.forall_mem_cons.mp hplain
    have hne : ∀ d : UInt8, d < 32 → ch ≠ d := by
      rintro d hd rfl
      exact absurd hlow (UInt8.not_le.mpr hd)
    rw [List.length_cons] at h
    rw [jsonEscapeCopy, if_pos (by omega), if_neg (by simp [hq, hb]),
      if_neg (by simp [hne 10 (by decide)]), if_neg (by simp [hne 13 (by decide)]),
      if_neg (by simp [hne 9 (by decide)]), if_pos hlow, ih hsrc (by omega)]

theorem escaped_plain {dstSize : Nat} {src : Bytes} (hplain : Json.Plain src)
    (h : src.length < dstSize) : escaped dstSize src = Json.quoted src := by
  rw [escaped, jsonEscapeCopy_plain hplain (by omega)]

theorem chars_escape (s : Bytes) : Json.Chars (visible s) (escape s) := by
  induction s with
  | nil => exact .nil
  | cons ch s ih =>
    rw [escape_cons, visible, List.filter_cons, ← visible, escapeChar]
    by_cases hesc : ch = 92 ∨ ch = 34
    · rw [if_pos hesc]
      rcases hesc with rfl | rfl
      · exact .esc (by decide) ih
      · exact .esc (by decide) ih
    · rw [if_neg hesc]
      push Not at hesc
      by_cases hnl : ch = 10
      · subst hnl
        exact .esc (by decide) ih
      · rw [if_neg hnl]
        by_cases hcr : ch = 13
        · subst hcr
          exact .esc (by decide) ih
        · rw [if_neg hcr]
          by_cases htab : ch = 9
          · subst htab
            exact .esc (by decide) ih
          · rw [if_neg htab]
            by_cases hlow : 32 ≤ ch
            · rw [if_pos hlow, if_pos (by simp [hlow])]
              exact .raw hlow hesc.2 hesc.1 ih
            · rw [if_neg hlow, if_neg (by simp [hlow, hnl, hcr, htab])]
              exact ih

theorem denotes_escape (s : Bytes) : Json.Denotes (.str (visible s)) (Json.quoted (escape s)) :=
  .str (chars_escape s)

theorem denotes_escaped {dstSize : Nat} {src : Bytes} (h : 2 * src.length < dstSize) :
    Json.Denotes (.str (visible src)) (escaped dstSize src) := by
  rw [escaped_eq h]
  exact denotes_escape src

/-! ## Lists of texts -/

theorem body_array (ts : List Bytes) : OutBuf.body [91] ts ++ [93] = Json.array ts := rfl

theorem intercalate_concat (ts : List Bytes) (t : Bytes) :
    [44].intercalate (ts ++ [t]) = ts.flatMap (· ++ [44]) ++ t := by
  induction ts with
  | nil => exact List.intercalate_singleton
  | cons u ts ih =>
    obtain ⟨v, vs, hvs⟩ : ∃ v vs, ts ++ [t] = v :: vs :=
      List.exists_cons_of_ne_nil (List.append_ne_nil_of_right_ne_nil _ (List.cons_ne_nil _ _))
    rw [hvs] at ih
    rw [List.cons_append, hvs, List.intercalate_cons_cons, ih, List.flatMap_cons, List.append_assoc]
    simp

/-- A list as the last member of an object. -/
theorem body_object (ms : List (String × Bytes)) (key : String) (ts : List Bytes) :
    OutBuf.body (123 :: ((ms.map Json.member).flatMap (· ++ [44]) ++
        (Json.quoted (bytes key) ++ [58, 91]))) ts ++ [93, 125] =
      Json.object (ms ++ [(key, Json.array ts)]) := by
  rw [Json.object, List.map_append, List.map_singleton, intercalate_concat, OutBuf.body, Json.member,
    Json.array]
  simp

section
variable {α : Type} {value : α → Json.Value}

theorem denotes_entries {as : List α} {text : α → Bytes}
    (h : ∀ a ∈ as, Json.Denotes (value a) (text a)) :
    Json.Denotes (.arr (as.map value)) (Json.array (as.map text)) := by
  refine Json.denotes_array ?_
  rw [List.forall₂_map_left_iff, List.forall₂_map_right_iff, List.forall₂_same]
  exact h

end

end ContainerSim.Web
