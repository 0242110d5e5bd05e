import ContainerSim.Lib.Json
import ContainerSim.Orch.Json

/-!
# JSON texts

Which texts stand for which tree: the JSON grammar, without the escapes `\b`,
`\f` and `\u` that the parser does not know, and with its `//` comments among
the blanks. `RendersAt` is indexed by a bound on the nesting depth, as the
parser is. `jpPrint` writes one text for each tree.
-/

namespace ContainerSim.Orch

open Lib

/-- Blanks and line comments, each comment with its newline. -/
inductive Blank : Bytes → Prop
  | nil : Blank []
  | ws {c : UInt8} {b : Bytes} : isWs c = true → Blank b → Blank (c :: b)
  | comment {body b : Bytes} : (10 : UInt8) ∉ body → Blank b →
      Blank (47 :: 47 :: (body ++ 10 :: b))

/-- The escapes: the letter behind the backslash and what it stands for. -/
def escapes : List (UInt8 × UInt8) := [(34, 34), (92, 92), (47, 47), (110, 10), (116, 9), (114, 13)]

/-- The inside of a string literal. -/
inductive StringBody : Bytes → Bytes → Prop
  | nil : StringBody [] []
  | raw {c : UInt8} {s t : Bytes} : c ≠ 34 → c ≠ 92 → c ≠ 0 → StringBody s t →
      StringBody (c :: s) (c :: t)
  | esc {e c : UInt8} {s t : Bytes} : (e, c) ∈ escapes → StringBody s t →
      StringBody (c :: s) (92 :: e :: t)

def StringText (s text : Bytes) : Prop := ∃ t, StringBody s t ∧ text = 34 :: (t ++ [34])

/-- Texts for the entries of a non-empty list, with commas between them. -/
inductive SepBy {α : Type*} (R : α → Bytes → Prop) : List α → Bytes → Prop
  | one {v : α} {b t b' : Bytes} : Blank b → R v t → Blank b' → SepBy R [v] (b ++ (t ++ b'))
  | cons {v : α} {vs : List α} {b t b' ts : Bytes} : Blank b → R v t → Blank b' →
      SepBy R vs ts → SepBy R (v :: vs) (b ++ (t ++ (b' ++ 44 :: ts)))

/-- A possibly empty list. -/
def Listing {α : Type*} (R : α → Bytes → Prop) (vs : List α) (text : Bytes) : Prop :=
  (vs = [] ∧ Blank text) ∨ SepBy R vs text

/-- `"key": value`. -/
def Member (R : JNode → Bytes → Prop) (m : Bytes × JNode) (text : Bytes) : Prop :=
  ∃ kt b b' vt, StringText m.1 kt ∧ Blank b ∧ Blank b' ∧ R m.2 vt ∧
    text = kt ++ (b ++ 58 :: (b' ++ vt))

/-- The text stands for the tree, which has at most so many levels. -/
def RendersAt : Nat → JNode → Bytes → Prop
  | 0, _, _ => False
  | _ + 1, .null, text => text = bytes "null"
  | _ + 1, .bool true, text => text = bytes "true"
  | _ + 1, .bool false, text => text = bytes "false"
  | _ + 1, .num buf, text => text = buf ∧ NumberText buf
  | _ + 1, .str s, text => StringText s text
  | depth + 1, .arr v, text => ∃ body, Listing (RendersAt depth) v body ∧ text = 91 :: (body ++ [93])
  | depth + 1, .obj kv, text =>
    ∃ body, Listing (Member (RendersAt depth)) kv body ∧ text = 123 :: (body ++ [125])

/-- A JSON text: a value between blanks. -/
def IsText (v : JNode) (text : Bytes) : Prop :=
  ∃ depth b t b', Blank b ∧ RendersAt depth v t ∧ Blank b' ∧ text = b ++ (t ++ b')

/-! ## Printing -/

def escapeByte (c : UInt8) : Bytes :=
  match escapes.find? fun e => e.2 = c ∧ e.1 ≠ 47 with
  | some (e, _) => [92, e]
  | none => [c]

def printString (s : Bytes) : Bytes := 34 :: (s.flatMap escapeByte ++ [34])

mutual

/-- One text for a tree, without blanks. -/
def jpPrint : JNode → Bytes
  | .null => bytes "null"
  | .bool true => bytes "true"
  | .bool false => bytes "false"
  | .num buf => buf
  | .str s => printString s
  | .arr v => 91 :: (printElems v ++ [93])
  | .obj kv => 123 :: (printMembers kv ++ [125])

def printElems : List JNode → Bytes
  | [] => []
  | [v] => jpPrint v
  | v :: w :: vs => jpPrint v ++ 44 :: printElems (w :: vs)

def printMembers : List (Bytes × JNode) → Bytes
  | [] => []
  | [(k, v)] => printString k ++ 58 :: jpPrint v
  | (k, v) :: m :: ms => (printString k ++ 58 :: jpPrint v) ++ 44 :: printMembers (m :: ms)

end

/-- Trees that have a text: no NUL inside a string, and numbers as JSON writes
them. -/
def PrintableAt : Nat → JNode → Prop
  | 0, _ => False
  | _ + 1, .null => True
  | _ + 1, .bool _ => True
  | _ + 1, .num buf => NumberText buf
  | _ + 1, .str s => (0 : UInt8) ∉ s
  | depth + 1, .arr v => ∀ x ∈ v, PrintableAt depth x
  | depth + 1, .obj kv => ∀ m ∈ kv, (0 : UInt8) ∉ m.1 ∧ PrintableAt depth m.2

theorem escapeByte_cases (c : UInt8) :
    (∃ e, (e, c) ∈ escapes ∧ escapeByte c = [92, e]) ∨ (c ≠ 34 ∧ c ≠ 92 ∧ escapeByte c = [c]) := by
  unfold escapeByte
  cases hfind : escapes.find? fun e => e.2 = c ∧ e.1 ≠ 47 with
  | some p =>
    obtain ⟨e, d⟩ := p
    have hd := List.find?_some hfind
    simp only [decide_eq_true_eq] at hd
    refine .inl ⟨e, ?_, rfl⟩
    rw [← hd.1]
    exact List.mem_of_find?_eq_some hfind
  | none =>
    have hall := List.find?_eq_none.mp hfind
    refine .inr ⟨fun h => ?_, fun h => ?_, rfl⟩
    · exact hall (34, 34) (by simp [escapes]) (by simp [h])
    · exact hall (92, 92) (by simp [escapes]) (by simp [h])

theorem stringBody_escape {s : Bytes} (h : (0 : UInt8) ∉ s) :
    StringBody s (s.flatMap escapeByte) := by
  induction s with
  | nil => exact .nil
  | cons c s ih =>
    have hc : c ≠ 0 := fun heq => h (heq ▸ List.mem_cons_self)
    have hs := ih fun hm => h (List.mem_cons_of_mem _ hm)
    rw [List.flatMap_cons]
    rcases escapeByte_cases c with ⟨e, he, hesc⟩ | ⟨hquote, hslash, hesc⟩
    · rw [hesc]
      exact .esc he hs
    · rw [hesc]
      exact .raw hquote hslash hc hs

theorem stringText_print {s : Bytes} (h : (0 : UInt8) ∉ s) : StringText s (printString s) :=
  ⟨_, stringBody_escape h, rfl⟩

section
variable {R : JNode → Bytes → Prop}

theorem listing_printElems {v : List JNode} (h : ∀ x ∈ v, R x (jpPrint x)) :
    Listing R v (printElems v) := by
  induction v with
  | nil => exact .inl ⟨rfl, .nil⟩
  | cons x v ih =>
    right
    have hx := h x List.mem_cons_self
    cases v with
    | nil => simpa [printElems] using SepBy.one .nil hx .nil
    | cons y v =>
      rcases ih fun z hz => h z (List.mem_cons_of_mem _ hz) with ⟨hnil, -⟩ | hrest
      · cases hnil
      · simpa [printElems] using SepBy.cons .nil hx .nil hrest

theorem member_print {m : Bytes × JNode} (hkey : (0 : UInt8) ∉ m.1) (h : R m.2 (jpPrint m.2)) :
    Member R m (printString m.1 ++ 58 :: jpPrint m.2) :=
  ⟨_, [], [], _, stringText_print hkey, .nil, .nil, h, rfl⟩

theorem listing_printMembers {kv : List (Bytes × JNode)}
    (h : ∀ m ∈ kv, (0 : UInt8) ∉ m.1 ∧ R m.2 (jpPrint m.2)) :
    Listing (Member R) kv (printMembers kv) := by
  induction kv with
  | nil => exact .inl ⟨rfl, .nil⟩
  | cons m kv ih =>
    right
    have hm := h m List.mem_cons_self
    have hfirst := member_print hm.1 hm.2
    obtain ⟨k, x⟩ := m
    cases kv with
    | nil => simpa [printMembers] using SepBy.one .nil hfirst .nil
    | cons n kv =>
      rcases ih fun z hz => h z (List.mem_cons_of_mem _ hz) with ⟨hnil, -⟩ | hrest
      · cases hnil
      · simpa [printMembers] using SepBy.cons .nil hfirst .nil hrest

end

/-- What is printed for a tree stands for it. -/
theorem rendersAt_print {depth : Nat} {v : JNode} (h : PrintableAt depth v) :
    RendersAt depth v (jpPrint v) := by
  induction depth generalizing v with
  | zero => exact h
  | succ depth ih =>
    cases v with
    | null => rfl
    | bool b =>
      cases b with
      | true => rfl
      | false => rfl
    | num buf => exact ⟨rfl, h⟩
    | str s => exact stringText_print h
    | arr v => exact ⟨_, listing_printElems fun x hx => ih (h x hx), rfl⟩
    | obj kv => exact ⟨_, listing_printMembers fun m hm => ⟨(h m hm).1, ih (h m hm).2⟩, rfl⟩

theorem isText_print {depth : Nat} {v : JNode} (h : PrintableAt depth v) :
    IsText v (jpPrint v) :=
  ⟨depth, [], _, [], .nil, rendersAt_print h, .nil, by simp⟩

end ContainerSim.Orch
