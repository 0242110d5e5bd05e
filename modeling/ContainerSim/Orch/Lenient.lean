import ContainerSim.Orch.JsonRound
import ContainerSim.Orch.ParseSpec

/-!
# What the parser accepts

`jp_parse_value` takes more than JSON texts. The relations here say how much
more: each departure from the grammar has a name (`Leniency`), and a reading
collects those it needs. Whatever the parser returns has a reading, and a
reading that needs none is a JSON text.
-/

namespace ContainerSim.Orch

open Lib

/-- Where a text that is read departs from JSON. -/
inductive Leniency where
  /-- no comma between two entries, or one behind the last -/
  | comma
  /-- no closing bracket: the text ends, or goes on with a NUL, or the table of
  entries is full -/
  | unclosed
  /-- a keyword with nothing but its first letter right -/
  | keyword
  /-- no closing quote: the text ends, or the buffer is full -/
  | unterminated
  /-- a NUL in a string, or a backslash before a character that is no escape -/
  | character
  /-- a run of number characters that is no number -/
  | number
  deriving DecidableEq, Repr

/-! ## Readings -/

/-- What is passed over before `r`: at the end of the text a comment needs no
newline. -/
inductive Skipped : Bytes → Bytes → Prop
  | blank {b r : Bytes} : Blank b → Skipped b r
  | comment {b body : Bytes} : Blank b → (10 : UInt8) ∉ body → Skipped (b ++ 47 :: 47 :: body) []

/-- Characters of a string, with the text they are read from. -/
inductive Characters : Bytes → Bytes → Prop
  | nil : Characters [] []
  | raw {c : UInt8} {s t : Bytes} : c ≠ 34 → c ≠ 92 → Characters s t → Characters (c :: s) (c :: t)
  | esc {e : UInt8} {s t : Bytes} : Characters s t → Characters (unescape e :: s) (92 :: e :: t)

/-- A string `s` read from `t`, with `r` left. -/
inductive StringRead : List Leniency → Bytes → Bytes → Bytes → Prop
  | plain {s t r : Bytes} : StringText s t → StringRead [] s t r
  | odd {s body r : Bytes} : Characters s body → s.length ≤ 510 →
      ¬ StringText (cstr s) (34 :: (body ++ [34])) →
      StringRead [.character] (cstr s) (34 :: (body ++ [34])) r
  | full {s body r : Bytes} : Characters s body → s.length = 510 →
      StringRead [.unterminated] (cstr s) (34 :: body) r
  | ends {s body : Bytes} : Characters s body → s.length ≤ 510 →
      StringRead [.unterminated] (cstr s) (34 :: body) []
  /-- with a backslash as its last character -/
  | slash {s body : Bytes} : Characters s body → s.length ≤ 510 →
      StringRead [.unterminated] (cstr s) (34 :: (body ++ [92])) []

inductive NumberRead : List Leniency → Bytes → Prop
  | plain {buf : Bytes} : NumberText buf → NumberRead [] buf
  | run {buf : Bytes} : buf ≠ [] → buf.length ≤ 63 → (∀ c ∈ buf, isNumChar c = true) →
      ¬ NumberText buf → NumberRead [.number] buf

inductive WordRead (word : Bytes) : List Leniency → Bytes → Bytes → Prop
  | plain {r : Bytes} : WordRead word [] word r
  | letter {t r : Bytes} : t.head? = word.head? →
      t.length = word.length ∨ (t.length < word.length ∧ r = []) → t ≠ word →
      WordRead word [.keyword] t r

/-- The entries of a container with room for so many, and its closing bracket. -/
inductive EntriesRead {α : Type} (R : List Leniency → α → Bytes → Bytes → Prop) (close : UInt8) :
    Nat → List Leniency → List α → Bytes → Bytes → Prop
  | closed {n : Nat} {b r : Bytes} : Blank b → EntriesRead R close n [] [] (b ++ [close]) r
  | unclosed {n : Nat} {b r : Bytes} : Skipped b r → r.head? ≠ some close →
      n = 0 ∨ r = [] ∨ r.head? = some 0 → EntriesRead R close n [.unclosed] [] b r
  | comma {n : Nat} {used used' : List Leniency} {v : α} {vs : List α} {b t b' ts r : Bytes} :
      Blank b → R used v t (b' ++ 44 :: (ts ++ r)) → Blank b' →
      EntriesRead R close n used' vs ts r →
      EntriesRead R close (n + 1) (used ++ (used' ++ if vs.isEmpty then [.comma] else []))
        (v :: vs) (b ++ (t ++ (b' ++ 44 :: ts))) r
  | noComma {n : Nat} {used used' : List Leniency} {v : α} {vs : List α} {b t b' ts r : Bytes} :
      Blank b → R used v t (b' ++ (ts ++ r)) → Skipped b' (ts ++ r) →
      EntriesRead R close n used' vs ts r →
      EntriesRead R close (n + 1) (used ++ (used' ++ if vs.isEmpty then [] else [.comma]))
        (v :: vs) (b ++ (t ++ (b' ++ ts))) r

/-- `"key": value` -/
inductive MemberRead (R : List Leniency → JNode → Bytes → Bytes → Prop) :
    List Leniency → Bytes × JNode → Bytes → Bytes → Prop
  | mk {used used' : List Leniency} {key : Bytes} {v : JNode} {kt b b' vt r : Bytes} :
      StringRead used key kt (b ++ 58 :: (b' ++ (vt ++ r))) → Blank b → Blank b' →
      R used' v vt r → MemberRead R (used ++ used') (key, v) (kt ++ (b ++ 58 :: (b' ++ vt))) r

/-- A tree read from `t`, with `r` left, and what it took. -/
def ValueRead : Nat → List Leniency → JNode → Bytes → Bytes → Prop
  | 0, _, _, _, _ => False
  | _ + 1, used, .null, t, r => WordRead (bytes "null") used t r
  | _ + 1, used, .bool true, t, r => WordRead (bytes "true") used t r
  | _ + 1, used, .bool false, t, r => WordRead (bytes "false") used t r
  | _ + 1, used, .num buf, t, _ => t = buf ∧ NumberRead used buf
  | _ + 1, used, .str s, t, r => StringRead used s t r
  | depth + 1, used, .arr v, t, r =>
    ∃ body, EntriesRead (ValueRead depth) 93 jpMaxArr used v body r ∧ t = 91 :: body
  | depth + 1, used, .obj kv, t, r =>
    ∃ body, EntriesRead (MemberRead (ValueRead depth)) 125 jpMaxObj used kv body r ∧ t = 123 :: body

/-! ## A reading that needs nothing -/

theorem Blank.append {b b' : Bytes} (h : Blank b) (h' : Blank b') : Blank (b ++ b') := by
  induction h with
  | nil => exact h'
  | ws hc _ ih => exact .ws hc ih
  | @comment body b hbody _ ih =>
    have hassoc : 47 :: 47 :: (body ++ 10 :: b) ++ b' = 47 :: 47 :: (body ++ 10 :: (b ++ b')) := by
      simp
    rw [hassoc]
    exact .comment hbody ih

theorem Skipped.blank_of_ne {b r : Bytes} (h : Skipped b r) (hr : r ≠ []) : Blank b := by
  cases h with
  | blank hb => exact hb
  | comment _ _ => exact absurd rfl hr

section
variable {α : Type} {R : List Leniency → α → Bytes → Bytes → Prop} {R' : α → Bytes → Prop}

theorem EntriesRead.strict (hR : ∀ {v t r}, R [] v t r → R' v t) {close : UInt8} {n : Nat}
    {used : List Leniency} {vs : List α} {body r : Bytes} (h : EntriesRead R close n used vs body r)
    (hused : used = []) : ∃ inner, body = inner ++ [close] ∧ Listing R' vs inner := by
  induction h with
  | closed hb => exact ⟨_, rfl, .inl ⟨rfl, hb⟩⟩
  | unclosed _ _ _ => cases hused
  | @comma n used used' v vs b t b' ts r hb hv hb' _ ih =>
    simp only [List.append_eq_nil_iff] at hused
    obtain ⟨rfl, rfl, hlast⟩ := hused
    obtain ⟨inner, rfl, hlisting⟩ := ih rfl
    refine ⟨b ++ (t ++ (b' ++ 44 :: inner)), by simp, .inr ?_⟩
    rcases hlisting with ⟨rfl, -⟩ | hsep
    · cases hlast
    · exact .cons hb (hR hv) hb' hsep
  | @noComma n used used' v vs b t b' ts r hb hv hskip _ ih =>
    simp only [List.append_eq_nil_iff] at hused
    obtain ⟨rfl, rfl, hlast⟩ := hused
    obtain ⟨inner, rfl, hlisting⟩ := ih rfl
    cases vs with
    | cons w vs => cases hlast
    | nil =>
      -- the last entry; the blanks on both sides of where a comma could be are one
      have hb' : Blank b' := hskip.blank_of_ne (by simp)
      rcases hlisting with ⟨-, hblank⟩ | hsep
      · refine ⟨b ++ (t ++ (b' ++ inner)), by simp, .inr ?_⟩
        exact .one hb (hR hv) (hb'.append hblank)
      · cases hsep

end

theorem StringRead.strict {s t r : Bytes} (h : StringRead [] s t r) : StringText s t := by
  cases h with
  | plain h => exact h

/-- **A reading that needs no leniency is a JSON text.** -/
theorem ValueRead.strict {depth : Nat} {v : JNode} {t r : Bytes} (h : ValueRead depth [] v t r) :
    RendersAt depth v t := by
  induction depth generalizing v t r with
  | zero => exact h
  | succ depth ih =>
    cases v with
    | null => cases h; rfl
    | bool b =>
      cases b with
      | true => cases h; rfl
      | false => cases h; rfl
    | num buf =>
      obtain ⟨rfl, hnum⟩ := h
      cases hnum with
      | plain hnum => exact ⟨rfl, hnum⟩
    | str s => exact StringRead.strict h
    | arr v =>
      obtain ⟨body, hentries, rfl⟩ := h
      obtain ⟨inner, rfl, hlisting⟩ := hentries.strict ih rfl
      exact ⟨inner, hlisting, rfl⟩
    | obj kv =>
      obtain ⟨body, hentries, rfl⟩ := h
      have hmember : ∀ {m t r}, MemberRead (ValueRead depth) [] m t r →
          Member (RendersAt depth) m t := by
        intro m t r hm
        generalize hused : ([] : List Leniency) = used at hm
        cases hm with
        | mk hkey hb hb' hv =>
          obtain ⟨rfl, rfl⟩ := List.append_eq_nil_iff.mp hused.symm
          exact ⟨_, _, _, _, hkey.strict, hb, hb', ih hv, rfl⟩
      obtain ⟨inner, rfl, hlisting⟩ := hentries.strict hmember rfl
      exact ⟨inner, hlisting, rfl⟩

/-! ## Moving through any text -/

theorem Skipped.ws {c : UInt8} {b r : Bytes} (hc : isWs c = true) (h : Skipped b r) :
    Skipped (c :: b) r := by
  cases h with
  | blank hb => exact .blank (.ws hc hb)
  | comment hb hbody => exact .comment (.ws hc hb) hbody

theorem Skipped.line {body b r : Bytes} (hbody : (10 : UInt8) ∉ body) (h : Skipped b r) :
    Skipped (47 :: 47 :: (body ++ 10 :: b)) r := by
  cases h with
  | blank hb => exact .blank (.comment hbody hb)
  | @comment b body' hb hbody' =>
    have hassoc : 47 :: 47 :: (body ++ 10 :: (b ++ 47 :: 47 :: body')) =
        47 :: 47 :: (body ++ 10 :: b) ++ 47 :: 47 :: body' := by simp
    rw [hassoc]
    exact .comment (.comment hbody hb) hbody'

/-- `jp_skip_ws` stops behind what it may pass over. -/
theorem skipped_drop (s : Bytes) :
    (Skipped (s.take (wsLength false s)) (s.drop (wsLength false s)) ∧
      wsLength false (s.drop (wsLength false s)) = 0) ∧
    -- inside a comment: it ends with its line, or with the text
    ((∃ body b, (10 : UInt8) ∉ body ∧ s.take (wsLength true s) = body ++ 10 :: b ∧
        Skipped b (s.drop (wsLength true s)) ∧ wsLength false (s.drop (wsLength true s)) = 0) ∨
      ((10 : UInt8) ∉ s ∧ wsLength true s = s.length)) := by
  induction s with
  | nil =>
    refine ⟨⟨.blank .nil, rfl⟩, .inr ⟨List.not_mem_nil, rfl⟩⟩
  | cons c s ih =>
    obtain ⟨⟨hskip, htoken⟩, hcomment⟩ := ih
    refine ⟨?_, ?_⟩
    · by_cases hws : isWs c = true
      · simp only [wsLength, if_pos hws, List.take_succ_cons, List.drop_succ_cons]
        exact ⟨hskip.ws hws, htoken⟩
      · by_cases hslash : c = 47 ∧ s.head? = some 47
        · simp only [wsLength, if_neg hws, if_pos hslash, List.take_succ_cons, List.drop_succ_cons]
          obtain ⟨rfl, hhead⟩ := hslash
          obtain ⟨s, rfl⟩ : ∃ s', s = 47 :: s' := by
            cases s with
            | nil => cases hhead
            | cons d s => exact ⟨s, by rw [Option.some.inj hhead]⟩
          rcases hcomment with ⟨body, b, hbody, htake, hb, hstop⟩ | ⟨hnone, hall⟩
          · -- the comment begins with the second slash
            refine ⟨?_, hstop⟩
            rw [htake]
            cases body with
            | nil =>
              rw [wsLength, if_neg (by decide), List.take_succ_cons] at htake
              cases htake
            | cons d body =>
              rw [wsLength, if_neg (by decide), List.take_succ_cons] at htake
              obtain ⟨rfl, -⟩ := List.cons.inj htake
              exact hb.line fun hm => hbody (List.mem_cons_of_mem _ hm)
          · rw [hall, List.take_length, List.drop_length]
            exact ⟨.comment (b := []) .nil fun hm => hnone (List.mem_cons_of_mem _ hm), rfl⟩
        · simp only [wsLength, if_neg hws, if_neg hslash, List.take_zero, List.drop_zero]
          exact ⟨.blank .nil, trivial⟩
    · by_cases hline : c = 10
      · subst hline
        left
        refine ⟨[], s.take (wsLength false s), List.not_mem_nil, ?_, ?_, ?_⟩
        · rw [wsLength, if_pos rfl]
          rfl
        · rw [wsLength, if_pos rfl]
          exact hskip
        · rw [wsLength, if_pos rfl]
          exact htoken
      · rw [wsLength, if_neg hline]
        rcases hcomment with ⟨body, b, hbody, htake, hb, hstop⟩ | ⟨hnone, hall⟩
        · left
          refine ⟨c :: body, b, ?_, ?_, hb, hstop⟩
          · exact fun hm => (List.mem_cons.mp hm).elim (fun h => hline h.symm) hbody
          · rw [List.take_succ_cons, htake]
            rfl
        · right
          refine ⟨fun hm => (List.mem_cons.mp hm).elim (fun h => hline h.symm) hnone, ?_⟩
          rw [hall, List.length_cons]

@[simp] theorem JP.rest_advance (p : JP) (n : Nat) : (p.advance n).rest = p.rest.drop n := by
  show p.src.drop (p.pos + n) = (p.src.drop p.pos).drop n
  rw [List.drop_drop]

@[simp] theorem jpAlloc_rest (sz : Nat) (p : JP) : (jpAlloc sz p).1.rest = p.rest := by
  unfold jpAlloc
  simp only
  split
  · rfl
  · rfl

@[simp] theorem jpNode_rest (p : JP) : (jpNode p).1.rest = p.rest := jpAlloc_rest _ p

/-- The parser stands before something that is no blank, or at the end. -/
def AtToken (p : JP) : Prop := wsLength false p.rest = 0

section
variable (p : JP)

theorem jpSkipWs_rest : (jpSkipWs p).rest = p.rest.drop (wsLength false p.rest) :=
  JP.rest_advance p _

theorem jpSkipWs_atToken : AtToken (jpSkipWs p) := by
  rw [AtToken, jpSkipWs_rest]
  exact (skipped_drop p.rest).1.2

/-- What `jp_skip_ws` has passed over. -/
theorem jpSkipWs_skipped :
    ∃ b, p.rest = b ++ (jpSkipWs p).rest ∧ Skipped b (jpSkipWs p).rest ∧
      (AtToken p → b = []) := by
  refine ⟨p.rest.take (wsLength false p.rest), ?_, ?_, fun h => ?_⟩
  · rw [jpSkipWs_rest, List.take_append_drop]
  · rw [jpSkipWs_rest]
    exact (skipped_drop p.rest).1.1
  · rw [h, List.take_zero]

theorem AtToken.skip {p : JP} (h : AtToken p) : jpSkipWs p = p := by
  rw [jpSkipWs, h]
  rfl

theorem JP.rest_of_cur {p : JP} {c : UInt8} (h : p.cur = c) (hc : c ≠ 0) :
    ∃ s, p.rest = c :: s := by
  unfold JP.cur at h
  cases hrest : p.rest with
  | nil =>
    rw [hrest] at h
    exact absurd h.symm hc
  | cons d s =>
    rw [hrest] at h
    exact ⟨s, by rw [← h]; rfl⟩

theorem JP.rest_ne_nil {p : JP} (h : p.cur ≠ 0) : p.rest ≠ [] := by
  obtain ⟨s, hs⟩ := JP.rest_of_cur rfl h
  rw [hs]
  exact List.cons_ne_nil _ _

end

/-- A character that is consumed, behind blanks. -/
theorem jpConsume_read {p q : JP} {c : UInt8} (h : jpConsume p = (q, c)) (hc : c ≠ 0) :
    ∃ b, p.rest = b ++ c :: q.rest ∧ Blank b ∧ (AtToken p → b = []) := by
  obtain ⟨b, hrest, hskip, htoken⟩ := jpSkipWs_skipped p
  unfold jpConsume at h
  simp only at h
  split at h
  · cases h
    obtain ⟨s, hs⟩ := JP.rest_of_cur rfl hc
    refine ⟨b, ?_, hskip.blank_of_ne (JP.rest_ne_nil hc), htoken⟩
    rw [hrest, JP.rest_advance]
    conv => lhs; rw [hs]
    rw [hs]
    rfl
  · cases h
    exact absurd rfl hc

theorem jpConsume_atToken {p q : JP} {c : UInt8} (hp : AtToken p) (h : jpConsume p = (q, c))
    (hc : c ≠ 0) : p.rest = c :: q.rest := by
  obtain ⟨b, hrest, -, hnone⟩ := jpConsume_read h hc
  rw [hrest, hnone hp, List.nil_append]

/-- An optional character: it is there, or the blanks are passed over. -/
theorem jpOptional_read {c : UInt8} (hc : c ≠ 0) (p : JP) :
    (∃ b, p.rest = b ++ c :: (jpOptional c p).rest ∧ Blank b) ∨
    (jpOptional c p = jpSkipWs p ∧ (jpSkipWs p).cur ≠ c) := by
  obtain ⟨b, hrest, hskip, -⟩ := jpSkipWs_skipped p
  unfold jpOptional jpPeek
  simp only
  split
  · rename_i hcur
    obtain ⟨s, hs⟩ := JP.rest_of_cur hcur hc
    refine .inl ⟨b, ?_, hskip.blank_of_ne (JP.rest_ne_nil (hcur ▸ hc))⟩
    rw [hrest, JP.rest_advance, hs]
    rfl
  · rename_i hcur
    exact .inr ⟨rfl, hcur⟩

/-! ## The parser has a reading -/

/-- What `read` returns has a reading, behind blanks. -/
def ReadsAs {α : Type} (read : JP → JP × Option α)
    (R : List Leniency → α → Bytes → Bytes → Prop) : Prop :=
  ∀ p q v, read p = (q, some v) → ∃ used b t, p.rest = b ++ (t ++ q.rest) ∧ Blank b ∧
    (AtToken p → b = []) ∧ R used v t q.rest

/-- Why the loop of `jp_raw_string` stops. -/
theorem rawString_read (n : Nat) (s : Bytes) :
    ∃ body, Characters (rawString n s).1 body ∧ (rawString n s).1.length ≤ n ∧
      ((s.take (rawString n s).2 = body ∧
          ((rawString n s).1.length = n ∨ s.drop (rawString n s).2 = [] ∨
            (s.drop (rawString n s).2).head? = some 34)) ∨
        (s.take (rawString n s).2 = body ++ [92] ∧ s.drop (rawString n s).2 = [])) := by
  induction n generalizing s with
  | zero => exact ⟨[], .nil, Nat.le_refl _, .inl ⟨rfl, .inl rfl⟩⟩
  | succ n ih =>
    cases s with
    | nil => exact ⟨[], .nil, Nat.zero_le _, .inl ⟨rfl, .inr (.inl rfl)⟩⟩
    | cons c s =>
      by_cases hquote : c = 34
      · subst hquote
        -- the quote ends the string and is not read
        have hraw : rawString (n + 1) (34 :: s) = ([], 0) := by simp [rawString]
        rw [hraw]
        exact ⟨[], .nil, Nat.zero_le _, .inl ⟨rfl, .inr (.inr rfl)⟩⟩
      by_cases hslash : c = 92
      · subst hslash
        cases s with
        | nil =>
          -- a backslash at the very end of the text is read and dropped
          have hraw : rawString (n + 1) [92] = ([], 1) := by simp [rawString]
          rw [hraw]
          exact ⟨[], .nil, Nat.zero_le _, .inr ⟨rfl, rfl⟩⟩
        | cons e s =>
          obtain ⟨body, hchars, hlen, hstop⟩ := ih s
          have hraw : rawString (n + 1) (92 :: e :: s) =
              (unescape e :: (rawString n s).1, (rawString n s).2 + 2) := by simp [rawString]
          simp only [hraw, List.take_succ_cons, List.drop_succ_cons, List.length_cons]
          refine ⟨92 :: e :: body, .esc hchars, Nat.succ_le_succ hlen, ?_⟩
          rcases hstop with ⟨htake, hwhy⟩ | ⟨htake, hend⟩
          · rw [htake]
            exact .inl ⟨rfl, hwhy.imp_left fun h => congrArg Nat.succ h⟩
          · rw [htake]
            exact .inr ⟨rfl, hend⟩
      · obtain ⟨body, hchars, hlen, hstop⟩ := ih s
        have hraw : rawString (n + 1) (c :: s) =
            (c :: (rawString n s).1, (rawString n s).2 + 1) := by
          simp [rawString, hquote, hslash]
        simp only [hraw, List.take_succ_cons, List.drop_succ_cons, List.length_cons]
        refine ⟨c :: body, .raw hquote hslash hchars, Nat.succ_le_succ hlen, ?_⟩
        rcases hstop with ⟨htake, hwhy⟩ | ⟨htake, hend⟩
        · rw [htake]
          exact .inl ⟨rfl, hwhy.imp_left fun h => congrArg Nat.succ h⟩
        · rw [htake]
          exact .inr ⟨rfl, hend⟩

/-- The text behind a string: its closing quote is passed over if it is there. -/
def behindString (s : Bytes) : Bytes :=
  let left := s.drop (rawString 510 s).2
  if left.headD 0 = 34 then left.drop 1 else left

/-- What `jp_raw_string` makes of the text behind an opening quote. -/
theorem rawString_stringRead (s : Bytes) :
    ∃ used t, 34 :: s = t ++ behindString s ∧
      StringRead used (cstr (rawString 510 s).1) t (behindString s) := by
  obtain ⟨body, hchars, hlen, hstop⟩ := rawString_read 510 s
  have hsplit := List.take_append_drop (rawString 510 s).2 s
  have hbehind : behindString s = if (s.drop (rawString 510 s).2).headD 0 = 34 then
      (s.drop (rawString 510 s).2).drop 1 else s.drop (rawString 510 s).2 := rfl
  generalize behindString s = r at hbehind ⊢
  generalize (rawString 510 s).1 = tmp at hchars hlen hstop ⊢
  generalize s.drop (rawString 510 s).2 = left at hstop hsplit hbehind
  rcases hstop with ⟨htake, hwhy⟩ | ⟨htake, rfl⟩
  · rw [htake] at hsplit
    by_cases hclose : left.headD 0 = 34
    · rw [if_pos hclose] at hbehind
      obtain ⟨rest, rfl⟩ : ∃ rest, left = 34 :: rest := by
        cases left with
        | nil => cases hclose
        | cons c rest => exact ⟨rest, congrArg (· :: rest) hclose⟩
      obtain rfl : r = rest := hbehind
      have htext : 34 :: s = 34 :: (body ++ [34]) ++ r := by simp [← hsplit]
      by_cases hplain : StringText (cstr tmp) (34 :: (body ++ [34]))
      · exact ⟨_, _, htext, .plain hplain⟩
      · exact ⟨_, _, htext, .odd hchars hlen hplain⟩
    · rw [if_neg hclose] at hbehind
      subst hbehind
      have htext : 34 :: s = 34 :: body ++ r := by simp [← hsplit]
      -- no closing quote: the buffer is full, or the text has ended
      rcases hwhy with hfull | rfl | hhead
      · exact ⟨_, _, htext, .full hchars hfull⟩
      · exact ⟨_, _, htext, .ends hchars hlen⟩
      · rw [List.headD_eq_head?_getD, hhead] at hclose
        exact absurd rfl hclose
  · -- the backslash is the last character of the text
    rw [htake] at hsplit
    obtain rfl : r = [] := hbehind
    exact ⟨[.unterminated], 34 :: (body ++ [92]), by simp [← hsplit], .slash hchars hlen⟩

theorem jpRawString_readsAs : ReadsAs jpRawString StringRead := by
  intro p q s h
  unfold jpRawString at h
  cases hopen : jpConsume p with
  | mk p₁ c =>
    rw [hopen] at h
    simp only at h
    split at h
    · cases h
    rename_i hquote
    have hquote : c = 34 := not_not.mp hquote
    subst hquote
    obtain ⟨b, hrest, hb, htoken⟩ := jpConsume_read hopen (by decide)
    have hq : q.rest = behindString p₁.rest := by
      rw [← (Prod.mk.inj h).1, jpAlloc_rest]
      unfold behindString JP.cur
      rw [JP.rest_advance]
      simp only
      split
      · rw [JP.rest_advance, JP.rest_advance]
      · rw [JP.rest_advance]
    have hs : s = cstr (rawString 510 p₁.rest).1 := by
      have hsome := (Prod.mk.inj h).2
      generalize (jpAlloc _ _).2 = ok at hsome
      cases ok with
      | true => exact (Option.some.inj hsome).symm
      | false => cases hsome
    obtain ⟨used, t, ht, hread⟩ := rawString_stringRead p₁.rest
    refine ⟨used, b, t, ?_, hb, htoken, ?_⟩
    · rw [hrest, hq, ht]
    · rw [hq, hs]
      exact hread

section
variable {α : Type} {entry : JP → JP × Option α}
  {R : List Leniency → α → Bytes → Bytes → Prop} {close : UInt8}

/-- The end of the loop over the entries, and the closing bracket. -/
theorem entries_stop (hclose : close ≠ 0) {n : Nat} {p : JP}
    (hstop : n = 0 ∨ (jpSkipWs p).cur = close ∨ (jpSkipWs p).cur = 0) :
    ∃ used body, p.rest = body ++ (jpOptional close (jpSkipWs p)).rest ∧
      EntriesRead R close n used [] body (jpOptional close (jpSkipWs p)).rest := by
  obtain ⟨b, hrest, hskip, -⟩ := jpSkipWs_skipped p
  have htoken := jpSkipWs_atToken p
  rcases jpOptional_read hclose (jpSkipWs p) with ⟨b', hread, hb'⟩ | ⟨hskipped, hcur⟩
  · have hb : Blank b := hskip.blank_of_ne (by rw [hread]; simp)
    refine ⟨[], b ++ b' ++ [close], ?_, .closed (hb.append hb')⟩
    rw [hrest, hread]
    simp
  · rw [hskipped, htoken.skip]
    rw [htoken.skip] at hcur
    refine ⟨_, b, hrest, .unclosed hskip ?_ ?_⟩
    · intro hhead
      apply hcur
      rw [JP.cur, List.headD_eq_head?_getD, hhead]
      rfl
    rcases hstop with hn | heq | hzero
    · exact .inl hn
    · exact absurd heq hcur
    · right
      unfold JP.cur at hzero
      cases htext : (jpSkipWs p).rest with
      | nil => exact .inl rfl
      | cons c s =>
        rw [htext] at hzero
        exact .inr (congrArg some hzero)

theorem jpEntries_read (hclose : close ≠ 0) (hentry : ReadsAs entry R) {n : Nat} {p q : JP}
    {acc l : List α} (h : jpEntries entry close n p acc = (q, some l)) :
    ∃ vs used body, l = acc ++ vs ∧ p.rest = body ++ (jpOptional close q).rest ∧
      EntriesRead R close n used vs body (jpOptional close q).rest := by
  -- on the room that is left in the table, as the loop goes
  induction n generalizing p acc with
  | zero =>
    cases h
    obtain ⟨used, body, hrest, hread⟩ := entries_stop (R := R) hclose (p := p) (.inl rfl)
    exact ⟨[], used, body, (List.append_nil _).symm, hrest, hread⟩
  | succ n ih =>
    unfold jpEntries jpPeek at h
    simp only at h
    split at h
    · rename_i hstop
      cases h
      obtain ⟨used, body, hrest, hread⟩ := entries_stop (R := R) hclose (p := p) (.inr hstop)
      exact ⟨[], used, body, (List.append_nil _).symm, hrest, hread⟩
    rename_i hgo
    push Not at hgo
    obtain ⟨b, hrest, hskip, -⟩ := jpSkipWs_skipped p
    have hb : Blank b := hskip.blank_of_ne (JP.rest_ne_nil hgo.2)
    cases hread : entry (jpSkipWs p) with
    | mk p₁ e =>
      rw [hread] at h
      cases e with
      | none => cases h
      | some e =>
        obtain ⟨used, b₀, t, htext, -, hnone, hR⟩ := hentry _ _ _ hread
        -- the loop has passed over the blanks before the entry looks for them
        obtain rfl := hnone (jpSkipWs_atToken p)
        obtain ⟨vs, used', ts, hl, hts, hentries⟩ := ih h
        have hvs : l = acc ++ e :: vs := by rw [hl, List.append_assoc]; rfl
        rcases jpOptional_read (c := 44) (by decide) p₁ with ⟨b', hcomma, hb'⟩ | ⟨hnocomma, -⟩
        · have hv : R used e t (b' ++ 44 :: (ts ++ (jpOptional close q).rest)) := by
            rw [← hts, ← hcomma]
            exact hR
          refine ⟨e :: vs, _, b ++ (t ++ (b' ++ 44 :: ts)), hvs, ?_, .comma hb hv hb' hentries⟩
          rw [hrest, htext, hcomma, hts]
          simp
        · obtain ⟨b', hskipped, hb', -⟩ := jpSkipWs_skipped p₁
          rw [← hnocomma, hts] at hskipped hb'
          have hv : R used e t (b' ++ (ts ++ (jpOptional close q).rest)) := by
            rw [← hskipped]
            exact hR
          refine ⟨e :: vs, _, b ++ (t ++ (b' ++ ts)), hvs, ?_, .noComma hb hv hb' hentries⟩
          rw [hrest, htext, hskipped]
          simp

end

section
variable {value : JP → JP × Option JNode} {R : List Leniency → JNode → Bytes → Bytes → Prop}

theorem jpMember_readsAs (hvalue : ReadsAs value R) : ReadsAs (jpMember value) (MemberRead R) := by
  intro p q m h
  unfold jpMember at h
  cases hkey : jpRawString p with
  | mk p₁ key =>
    rw [hkey] at h
    cases key with
    | none => cases h
    | some key =>
      simp only at h
      cases hcolon : jpConsume p₁ with
      | mk p₂ c =>
        rw [hcolon] at h
        simp only at h
        split at h
        · cases h
        rename_i hc
        have hc : c = 58 := not_not.mp hc
        subst hc
        cases hval : value p₂ with
        | mk p₃ v =>
          rw [hval] at h
          cases v with
          | none => cases h
          | some v =>
            cases h
            obtain ⟨used, b₀, kt, hrest, hb₀, htoken, hread⟩ := jpRawString_readsAs _ _ _ hkey
            obtain ⟨b, hrest₁, hb, -⟩ := jpConsume_read hcolon (by decide)
            obtain ⟨used', b', vt, hrest₂, hb', -, hv⟩ := hvalue _ _ _ hval
            rw [hrest₁, hrest₂] at hread
            refine ⟨_, b₀, kt ++ (b ++ 58 :: (b' ++ vt)), ?_, hb₀, htoken, .mk hread hb hb' hv⟩
            rw [hrest, hrest₁, hrest₂]
            simp

/-- An object, from its bracket on. -/
theorem jpParseObject_read (hvalue : ReadsAs value R) {p q : JP} {v : JNode} (hp : AtToken p)
    (h : jpParseObject value p = (q, some v)) :
    ∃ used kv body, v = .obj kv ∧ p.rest = 123 :: body ++ q.rest ∧
      EntriesRead (MemberRead R) 125 jpMaxObj used kv body q.rest := by
  unfold jpParseObject at h
  cases hopen : jpConsume p with
  | mk p₁ c =>
    rw [hopen] at h
    simp only at h
    split at h
    · cases h
    rename_i hc
    have hc : c = 123 := not_not.mp hc
    subst hc
    have hrest := jpConsume_atToken hp hopen (by decide)
    -- the allocations leave the text where it is
    have hnode := jpNode_rest p₁
    generalize jpNode p₁ = r at hnode h
    split at h
    · cases h
    have hkeys := jpAlloc_rest (jpMaxObj * ptrSize) r.1
    generalize jpAlloc (jpMaxObj * ptrSize) r.1 = k at hkeys h
    have hvals := jpAlloc_rest (jpMaxObj * ptrSize) k.1
    generalize jpAlloc (jpMaxObj * ptrSize) k.1 = a at hvals h
    have hstay : a.1.rest = p₁.rest := hvals.trans (hkeys.trans hnode)
    split at h
    · cases h
    cases hloop : jpEntries (jpMember value) 125 jpMaxObj a.1 [] with
    | mk p₂ kv =>
      rw [hloop] at h
      cases kv with
      | none => cases h
      | some kv =>
        simp only [Prod.mk.injEq, Option.some.injEq] at h
        obtain ⟨rfl, rfl⟩ := h
        obtain ⟨vs, used, body, hkv, hbody, hread⟩ :=
          jpEntries_read (by decide) (jpMember_readsAs hvalue) hloop
        refine ⟨used, kv, body, rfl, ?_, ?_⟩
        · rw [hrest, ← hstay, hbody]
          rfl
        · rw [hkv, List.nil_append]
          exact hread

theorem jpParseArray_read (hvalue : ReadsAs value R) {p q : JP} {v : JNode} (hp : AtToken p)
    (h : jpParseArray value p = (q, some v)) :
    ∃ used vs body, v = .arr vs ∧ p.rest = 91 :: body ++ q.rest ∧
      EntriesRead R 93 jpMaxArr used vs body q.rest := by
  unfold jpParseArray at h
  cases hopen : jpConsume p with
  | mk p₁ c =>
    rw [hopen] at h
    simp only at h
    split at h
    · cases h
    rename_i hc
    have hc : c = 91 := not_not.mp hc
    subst hc
    have hrest := jpConsume_atToken hp hopen (by decide)
    -- the node and its array are taken from the arena, not from the text
    have hnode := jpNode_rest p₁
    generalize jpNode p₁ = r at hnode h
    split at h
    · cases h
    have hitems := jpAlloc_rest (jpMaxArr * ptrSize) r.1
    generalize jpAlloc (jpMaxArr * ptrSize) r.1 = a at hitems h
    have hstay : a.1.rest = p₁.rest := hitems.trans hnode
    split at h
    · cases h
    cases hloop : jpEntries value 93 jpMaxArr a.1 [] with
    | mk p₂ l =>
      rw [hloop] at h
      cases l with
      | none => cases h
      | some l =>
        simp only [Prod.mk.injEq, Option.some.injEq] at h
        obtain ⟨rfl, rfl⟩ := h
        obtain ⟨vs, used, body, hvs, hbody, hread⟩ := jpEntries_read (by decide) hvalue hloop
        refine ⟨used, l, body, rfl, ?_, ?_⟩
        · rw [hrest, ← hstay, hbody]
          rfl
        · rw [hvs, List.nil_append]
          exact hread

theorem jpParseString_read {p q : JP} {v : JNode} (hp : AtToken p)
    (h : jpParseString p = (q, some v)) :
    ∃ used s t, v = .str s ∧ p.rest = t ++ q.rest ∧ StringRead used s t q.rest := by
  unfold jpParseString at h
  simp only at h
  have hnode := jpNode_rest p
  generalize jpNode p = r at hnode h
  split at h
  · cases h
  cases hstr : jpRawString r.1 with
  | mk p₁ s =>
    rw [hstr] at h
    cases s with
    | none => cases h
    | some s =>
      cases h
      obtain ⟨used, b, t, hrest, -, hnone, hread⟩ := jpRawString_readsAs _ _ _ hstr
      have hb : b = [] := hnone (by rw [AtToken, hnode]; exact hp)
      rw [hnode, hb] at hrest
      exact ⟨used, s, t, rfl, hrest, hread⟩

theorem isNumChar_ne_zero {c : UInt8} (h : isNumChar c = true) : c ≠ 0 := by
  rintro rfl
  cases h

theorem jpParseNumber_read {p q : JP} {v : JNode} (hp : AtToken p)
    (hstart : isNumChar p.cur = true) (h : jpParseNumber p = (q, some v)) :
    ∃ used buf, v = .num buf ∧ p.rest = buf ++ q.rest ∧ NumberRead used buf := by
  unfold jpParseNumber at h
  rw [hp.skip] at h
  simp only at h
  -- what is kept is a prefix of the text, and not all of a longer run
  generalize hbuf : (p.rest.takeWhile isNumChar).take 63 = buf at h
  have hnode := jpNode_rest (p.advance buf.length)
  generalize jpNode (p.advance buf.length) = r at hnode h
  obtain ⟨rfl, hsome⟩ := Prod.mk.inj h
  split at hsome
  case isFalse => cases hsome
  obtain rfl := Option.some.inj hsome
  have hprefix : buf <+: p.rest :=
    hbuf ▸ (List.take_prefix _ _).trans (List.takeWhile_prefix _)
  have hrest : p.rest = buf ++ r.1.rest := by
    rw [hnode, JP.rest_advance]
    exact List.prefix_append_drop hprefix
  have hlen : buf.length ≤ 63 := hbuf ▸ List.length_take_le _ _
  have hchars : ∀ c ∈ buf, isNumChar c = true := by
    intro c hc
    rw [← hbuf] at hc
    exact List.mem_takeWhile_imp (List.mem_of_mem_take hc)
  have hne : buf ≠ [] := by
    obtain ⟨s, hs⟩ := JP.rest_of_cur rfl (isNumChar_ne_zero hstart)
    rw [← hbuf, hs, List.takeWhile_cons_of_pos hstart]
    exact List.cons_ne_nil _ _
  by_cases hnum : NumberText buf
  · exact ⟨_, buf, rfl, hrest, .plain hnum⟩
  · exact ⟨_, buf, rfl, hrest, .run hne hlen hchars hnum⟩

/-- A keyword, of which the first letter has been seen. -/
theorem jpParseWord_read {p q : JP} {v w : JNode} {word : Bytes} (hhead : p.rest.head? = word.head?)
    (hne : word ≠ []) (h : jpParseWord word.length w p = (q, some v)) :
    ∃ used t, v = w ∧ p.rest = t ++ q.rest ∧ WordRead word used t q.rest := by
  unfold jpParseWord at h
  simp only at h
  have hnode := jpNode_rest (p.advance word.length)
  generalize jpNode (p.advance word.length) = r at hnode h
  obtain ⟨rfl, hsome⟩ := Prod.mk.inj h
  split at hsome
  case isFalse => cases hsome
  obtain rfl := Option.some.inj hsome
  rw [JP.rest_advance] at hnode
  have hrest : p.rest = p.rest.take word.length ++ r.1.rest := by
    rw [hnode, List.take_append_drop]
  -- the parser jumps over so many characters, whichever they are
  by_cases hword : p.rest.take word.length = word
  · rw [hword] at hrest
    exact ⟨[], word, rfl, hrest, .plain⟩
  · refine ⟨[.keyword], _, rfl, hrest, .letter ?_ ?_ hword⟩
    · rw [List.head?_take, if_neg (by simpa using hne), hhead]
    · rw [List.length_take, hnode]
      rcases Nat.lt_or_ge p.rest.length word.length with hshort | hlong
      · right
        refine ⟨by omega, List.drop_eq_nil_of_le (Nat.le_of_lt hshort)⟩
      · left
        omega

end

/-- **The parser has a reading of what it returns.** -/
theorem jpParseValue_readsAs (depth : Nat) : ReadsAs (jpParseValue depth) (ValueRead depth) := by
  induction depth with
  | zero =>
    intro p q v h
    cases h
  | succ depth ih =>
    intro p q v h
    obtain ⟨b, hrest, hskip, hnone⟩ := jpSkipWs_skipped p
    have htoken := jpSkipWs_atToken p
    unfold jpParseValue jpPeek at h
    simp only at h
    generalize jpSkipWs p = p₁ at hrest hskip htoken h
    -- whatever it dispatches on is no end of text, so that `b` has none of the last comments
    have hblank : ∀ {used t}, p₁.cur ≠ 0 → p₁.rest = t ++ q.rest →
        ValueRead (depth + 1) used v t q.rest → ∃ used b t, p.rest = b ++ (t ++ q.rest) ∧
          Blank b ∧ (AtToken p → b = []) ∧ ValueRead (depth + 1) used v t q.rest := by
      intro used t hcur ht hread
      have hb : Blank b := hskip.blank_of_ne (JP.rest_ne_nil hcur)
      exact ⟨used, b, t, by rw [hrest, ht], hb, hnone, hread⟩
    have hword : ∀ {w : JNode} (word : Bytes) {c : UInt8}, p₁.cur = c → c ≠ 0 →
        word.head? = some c → jpParseWord word.length w p₁ = (q, some v) →
        ∃ used t, v = w ∧ p₁.rest = t ++ q.rest ∧ WordRead word used t q.rest := by
      intro w word c hcur hc hhead hw
      obtain ⟨s, hs⟩ := JP.rest_of_cur hcur hc
      refine jpParseWord_read ?_ ?_ hw
      · rw [hs, hhead]
        rfl
      · rintro rfl
        cases hhead
    split at h
    · rename_i hcur
      obtain ⟨used, kv, body, rfl, ht, hread⟩ := jpParseObject_read ih htoken h
      exact hblank (by rw [hcur]; decide) ht ⟨body, hread, rfl⟩
    split at h
    · rename_i hcur
      obtain ⟨used, vs, body, rfl, ht, hread⟩ := jpParseArray_read ih htoken h
      exact hblank (by rw [hcur]; decide) ht ⟨body, hread, rfl⟩
    split at h
    · rename_i hcur
      obtain ⟨used, s, t, rfl, ht, hread⟩ := jpParseString_read htoken h
      exact hblank (by rw [hcur]; decide) ht hread
    split at h
    · rename_i hcur
      obtain ⟨used, t, rfl, ht, hread⟩ := hword (bytes "true") hcur (by decide) rfl h
      exact hblank (by rw [hcur]; decide) ht hread
    split at h
    · rename_i hcur
      obtain ⟨used, t, rfl, ht, hread⟩ := hword (bytes "false") hcur (by decide) rfl h
      exact hblank (by rw [hcur]; decide) ht hread
    split at h
    · rename_i hcur
      obtain ⟨used, t, rfl, ht, hread⟩ := hword (bytes "null") hcur (by decide) rfl h
      exact hblank (by rw [hcur]; decide) ht hread
    split at h
    · rename_i hcur
      have hstart : isNumChar p₁.cur = true := by
        unfold isNumChar
        rcases hcur with hminus | hdigit
        · rw [hminus]
          decide
        · simp [hdigit.1, hdigit.2]
      obtain ⟨used, buf, rfl, ht, hread⟩ := jpParseNumber_read htoken hstart h
      exact hblank (isNumChar_ne_zero hstart) ht ⟨rfl, hread⟩
    · cases h

/-! ## Whole spec files -/

/-- The complete text is one object, with blanks and comments around it. -/
def WellFormed (text : Bytes) : Prop :=
  ∃ depth kv b t b', text = b ++ (t ++ b') ∧ Blank b ∧ RendersAt depth (.obj kv) t ∧ Skipped b' []

/-- What `orch_parse_spec` has seen of a file when it accepts it: at most 65535
bytes, of which an object with a `"services"` object is read and the rest is
not looked at. -/
def SpecReading (toInt : Bytes → Int) (text : Bytes) (spec : OrchestratorSpec)
    (used : List Leniency) (rest : Bytes) : Prop :=
  ∃ kv svcs b t, text.take (64 * 1024 - 1) = b ++ (t ++ rest) ∧ Blank b ∧
    ValueRead jpMaxDepth used (.obj kv) t rest ∧
    jpGet (.obj kv) (bytes "services") = some (.obj svcs) ∧
    spec.services = (svcs.take maxServices).map fun m => parseService toInt m.2 m.1

/-- The reading of a complete file that departs from the grammar nowhere. -/
theorem SpecReading.wellFormed {toInt : Bytes → Int} {text rest : Bytes} {spec : OrchestratorSpec}
    (h : SpecReading toInt text spec [] rest) (hrest : Skipped rest [])
    (hlen : text.length ≤ 64 * 1024 - 1) : WellFormed text := by
  obtain ⟨kv, -, b, t, htext, hb, hread, -, -⟩ := h
  rw [List.take_of_length_le hlen] at htext
  exact ⟨jpMaxDepth, kv, b, t, rest, htext, hb, hread.strict, hrest⟩

/-- `orch_parse_spec` returns 0 only for a file with a reading. What is no
reading (an empty file, a root that is no object, a member without its colon,
no `"services"` object) is refused; and where the reading takes no leniency
and nothing but blanks and comments is left, the complete content is one
well-formed object. -/
theorem accepted_spec_has_reading {toInt : Bytes → Int} {path : Bytes} {file : SpecFile}
    {spec : OrchestratorSpec} (h : orchParseSpec toInt path file = .ok spec) :
    ∃ text used rest, file = .content text ∧ SpecReading toInt text spec used rest ∧
      (used = [] → Skipped rest [] → text.length ≤ 64 * 1024 - 1 → WellFormed text) := by
  cases file with
  | missing strerror => cases h
  | unreadable => cases h
  | content text =>
    unfold orchParseSpec at h
    simp only at h
    split at h
    · cases h
    split at h
    · -- the root is an object; nothing asks what stands behind it
      rename_i q kv hparse
      split at h
      · rename_i svcs hsvcs
        obtain ⟨used, b, t, hrest, hb, -, hread⟩ := jpParseValue_readsAs _ _ _ _ hparse
        have hreading : SpecReading toInt text spec used q.rest := by
          cases h
          exact ⟨kv, svcs, b, t, hrest, hb, hread, hsvcs, rfl⟩
        refine ⟨text, used, q.rest, rfl, hreading, fun hused hskip hlen => ?_⟩
        subst hused
        exact hreading.wellFormed hskip hlen
      · cases h
    · cases h

/-- A file with nothing to object to. -/
def plainText : Bytes :=
  bytes "\x7b\"services\": \x7b\"web\": \x7b\"command\": \"app\"\x7d\x7d\x7d // end"

def plainSpec : OrchestratorSpec :=
  { name := bytes "unnamed", specPath := bytes "plain.json"
    services := [{ Service.zero with name := bytes "web", command := bytes "app" }] }

theorem accepted_spec_has_reading_plain :
    ∃ text used rest, SpecFile.content plainText = .content text ∧
      SpecReading (fun _ => 0) text plainSpec used rest ∧
      (used = [] → Skipped rest [] → text.length ≤ 64 * 1024 - 1 → WellFormed text) :=
  @accepted_spec_has_reading (fun _ => 0) (bytes "plain.json") (.content plainText) plainSpec
    (by decide +kernel)

theorem Blank.no_comment {b : Bytes} (h : Blank b) (hslash : (47 : UInt8) ∉ b) :
    ∀ c ∈ b, isWs c = true := by
  induction h with
  | nil => simp
  | ws hc _ ih =>
    simp only [List.mem_cons, not_or] at hslash
    simp only [List.mem_cons, forall_eq_or_imp]
    exact ⟨hc, ih hslash.2⟩
  | comment _ _ _ => simp at hslash

/-- Without comments it ends with the closing bracket, or with a blank. -/
theorem WellFormed.last {text : Bytes} (h : WellFormed text) (hslash : (47 : UInt8) ∉ text) :
    ∃ c, text.getLast? = some c ∧ (c = 125 ∨ isWs c = true) := by
  obtain ⟨depth, kv, b, t, b', rfl, -, hrender, hskip⟩ := h
  simp only [List.mem_append, not_or] at hslash
  have hblank : ∀ c ∈ b', isWs c = true := by
    cases hskip with
    | blank hb => exact hb.no_comment hslash.2.2
    | comment _ _ => simp at hslash
  cases depth with
  | zero => exact hrender.elim
  | succ depth =>
    obtain ⟨body, -, rfl⟩ := hrender
    cases b' using List.reverseRecOn with
    | nil =>
      have hend : b ++ (123 :: (body ++ [125]) ++ []) = (b ++ 123 :: body) ++ [125] := by simp
      rw [hend, List.getLast?_concat]
      exact ⟨125, rfl, .inl rfl⟩
    | append_singleton b' c =>
      have hend : b ++ (123 :: (body ++ [125]) ++ (b' ++ [c])) =
          (b ++ 123 :: (body ++ 125 :: b')) ++ [c] := by simp
      rw [hend, List.getLast?_concat]
      exact ⟨c, rfl, .inr (hblank c (by simp))⟩

/-- A comma is missing, and the file stops in the middle of the object. -/
def tornText : Bytes :=
  bytes "\x7b\"name\": \"demo\" \"services\": \x7b\"web\": \x7b\"command\": \"app\""

/-- `orch_parse_spec` returns 0 for it. -/
theorem torn_spec_accepted :
    ¬ ∀ (toInt : Bytes → Int) (path text : Bytes) (spec : OrchestratorSpec),
      orchParseSpec toInt path (.content text) = .ok spec → WellFormed text := by
  intro hall
  have hwell : WellFormed tornText :=
    hall (fun _ => 0) (bytes "torn.json") tornText
      { name := bytes "demo", specPath := bytes "torn.json"
        services := [{ Service.zero with name := bytes "web", command := bytes "app" }] }
      (by decide +kernel)
  obtain ⟨c, hlast, hc⟩ := hwell.last (by decide +kernel)
  have hquote : tornText.getLast? = some 34 := by decide +kernel
  rw [hquote] at hlast
  obtain rfl := Option.some.inj hlast
  revert hc
  decide

end ContainerSim.Orch
