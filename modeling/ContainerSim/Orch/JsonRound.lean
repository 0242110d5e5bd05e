import ContainerSim.Orch.JsonText

/-!
# The parser inverts JSON texts

On a text of a tree that keeps to the sizes of its buffers (`JNode.Within`)
`jp_parse_value` returns that tree and stops right behind the text, or it runs
out of arena (`jpParseValue_reads`). One lemma for each function says what it
does to a text it is meant for; the loop over entries needs one for arrays and
objects together.
-/

namespace ContainerSim.Orch

open Lib

/-- What the fixed buffers of the parser hold. -/
inductive JNode.Within : JNode → Prop
  | null : Within .null
  | bool (b : Bool) : Within (.bool b)
  | num {buf : Bytes} : buf.length ≤ 63 → Within (.num buf)
  | str {s : Bytes} : s.length ≤ 510 → Within (.str s)
  | arr {v : List JNode} : v.length ≤ jpMaxArr → (∀ x ∈ v, Within x) → Within (.arr v)
  | obj {kv : List (Bytes × JNode)} : kv.length ≤ jpMaxObj → (∀ m ∈ kv, m.1.length ≤ 510) →
      (∀ m ∈ kv, Within m.2) → Within (.obj kv)

/-! ## Moving through the text -/

/-- From `p` to `q` the parser has read `n` bytes. -/
structure Moved (p q : JP) (n : Nat) : Prop where
  src : q.src = p.src
  pos : q.pos = p.pos + n

theorem Moved.refl (p : JP) : Moved p p 0 := ⟨rfl, rfl⟩

theorem Moved.trans {p q r : JP} {n k : Nat} (h : Moved p q n) (h' : Moved q r k) :
    Moved p r (n + k) := by
  refine ⟨h'.src.trans h.src, ?_⟩
  rw [h'.pos, h.pos, Nat.add_assoc]

theorem Moved.rest {p q : JP} {t r : Bytes} (h : Moved p q t.length) (hp : p.rest = t ++ r) :
    q.rest = r := by
  have hdrop : q.rest = p.rest.drop t.length := by
    rw [JP.rest, JP.rest, h.src, h.pos, List.drop_drop]
  rw [hdrop, hp, List.drop_left]

theorem Moved.rest_same {p q : JP} (h : Moved p q 0) : q.rest = p.rest :=
  Moved.rest (t := []) h rfl

/-- It has read `n` bytes of the text and taken `a` bytes of the arena. -/
structure Took (p q : JP) (n a : Nat) : Prop extends Moved p q n where
  apos : q.apos = p.apos + a

theorem Took.trans {p q r : JP} {n k a c : Nat} (h : Took p q n a) (h' : Took q r k c) :
    Took p r (n + k) (a + c) := by
  refine ⟨h.toMoved.trans h'.toMoved, ?_⟩
  rw [h'.apos, h.apos, Nat.add_assoc]

theorem took_advance (p : JP) (n : Nat) : Took p (p.advance n) n 0 := ⟨⟨rfl, rfl⟩, rfl⟩

theorem Took.cast {p q : JP} {n k a c : Nat} (h : Took p q n a) (hn : n = k) (ha : a = c) :
    Took p q k c := hn ▸ ha ▸ h

/-- The error `jp_alloc` leaves. -/
def jpExhausted : Bytes := snprintfStr 128 (cstr (bytes "arena exhausted"))

/-- `read` returns `v` and has read `n` bytes, or the arena was too small. -/
def Reads {α : Type} (read : JP → JP × Option α) (p : JP) (v : α) (n : Nat) : Prop :=
  (∃ q, read p = (q, some v) ∧ Moved p q n) ∨ ∃ q, read p = (q, none) ∧ q.err = jpExhausted

/-- What `jp_alloc` takes of the arena for `sz` bytes. -/
def aligned (sz : Nat) : Nat := (sz + 7) / 8 * 8

/-- As `Reads`, with the `a` bytes of the arena it takes: it returns `v` if
these are left, and fails otherwise. -/
def ReadsIn {α : Type} (read : JP → JP × Option α) (p : JP) (v : α) (n a : Nat) : Prop :=
  (∃ q, read p = (q, some v) ∧ Took p q n a) ∨
    (jpArena < p.apos + a ∧ ∃ q, read p = (q, none) ∧ q.err = jpExhausted)

theorem ReadsIn.reads {α : Type} {read : JP → JP × Option α} {p : JP} {v : α} {n a : Nat}
    (h : ReadsIn read p v n a) : Reads read p v n := by
  rcases h with ⟨q, hread, htook⟩ | ⟨-, hfail⟩
  · exact .inl ⟨q, hread, htook.toMoved⟩
  · exact .inr hfail

theorem jpAlloc_cases (sz : Nat) (p : JP) :
    (∃ q, jpAlloc sz p = (q, true) ∧ Took p q 0 (aligned sz)) ∨
    (jpArena < p.apos + aligned sz ∧ ∃ q, jpAlloc sz p = (q, false) ∧ q.err = jpExhausted) := by
  unfold jpAlloc
  simp only
  split
  · rename_i hfull
    exact .inr ⟨hfull, _, rfl, rfl⟩
  · exact .inl ⟨_, rfl, ⟨rfl, rfl⟩, rfl⟩

/-! ## Blanks -/

/-- The text does not go on with a blank. -/
def Token (s : Bytes) : Prop := ∀ c ∈ s.head?, isWs c = false ∧ c ≠ 47

/-- The text does not go on with a character of a number. -/
def Follow (s : Bytes) : Prop := ∀ c ∈ s.head?, isNumChar c = false

theorem Token.cons {c : UInt8} (hws : isWs c = false) (hslash : c ≠ 47) (s : Bytes) :
    Token (c :: s) := by
  intro d hd
  rw [List.head?_cons, Option.mem_some_iff] at hd
  exact hd ▸ ⟨hws, hslash⟩

theorem Follow.cons {c : UInt8} (h : isNumChar c = false) (s : Bytes) : Follow (c :: s) := by
  intro d hd
  rw [List.head?_cons, Option.mem_some_iff] at hd
  exact hd ▸ h

theorem isNumChar_of_isWs {c : UInt8} (h : isWs c = true) : isNumChar c = false := by
  simp only [isWs, Bool.or_eq_true, decide_eq_true_eq] at h
  rcases h with ((rfl | rfl) | rfl) | rfl
  · decide
  · decide
  · decide
  · decide

theorem Blank.follow {b r : Bytes} (hb : Blank b) (hr : Follow r) : Follow (b ++ r) := by
  cases hb with
  | nil => exact hr
  | ws hc _ => exact Follow.cons (isNumChar_of_isWs hc) _
  | comment _ _ => exact Follow.cons (by decide) _

/-- Inside a comment everything is passed over up to the newline. -/
theorem wsLength_comment {body : Bytes} (h : (10 : UInt8) ∉ body) (s : Bytes) :
    wsLength true (body ++ 10 :: s) = body.length + 1 + wsLength false s := by
  induction body with
  | nil =>
    rw [List.nil_append, wsLength, if_pos rfl, List.length_nil]
    omega
  | cons c body ih =>
    have hc : c ≠ 10 := fun heq => h (heq ▸ List.mem_cons_self)
    rw [List.cons_append, wsLength, if_neg hc, ih fun hm => h (List.mem_cons_of_mem _ hm),
      List.length_cons]
    omega

theorem wsLength_token {r : Bytes} (hr : Token r) : wsLength false r = 0 := by
  cases r with
  | nil => rfl
  | cons c s =>
    obtain ⟨hws, hslash⟩ := hr c rfl
    rw [wsLength, if_neg (by rw [hws]; exact Bool.false_ne_true), if_neg fun h => hslash h.1]

theorem wsLength_blank {b r : Bytes} (hb : Blank b) (hr : Token r) :
    wsLength false (b ++ r) = b.length := by
  induction hb with
  | nil => exact wsLength_token hr
  | ws hc _ ih => rw [List.cons_append, wsLength, if_pos hc, ih, List.length_cons]
  | comment hbody _ ih =>
    rename_i body b _
    have hinner : (47 :: (body ++ 10 :: b)) ++ r = (47 :: body) ++ 10 :: (b ++ r) := by
      simp
    have hmem : (10 : UInt8) ∉ (47 : UInt8) :: body := by
      intro hm
      rcases List.mem_cons.mp hm with heq | hm
      · cases heq
      · exact hbody hm
    rw [List.cons_append, wsLength, if_neg (by decide), if_pos ⟨rfl, rfl⟩, hinner,
      wsLength_comment hmem, ih]
    simp only [List.length_cons, List.length_append]
    omega

section
variable {p : JP} {b r : Bytes} {c : UInt8}

theorem jpSkipWs_moved (hb : Blank b) (hr : Token r) (hp : p.rest = b ++ r) :
    Took p (jpSkipWs p) b.length 0 := by
  rw [jpSkipWs, hp, wsLength_blank hb hr]
  exact took_advance p _

theorem jpPeek_spec (hb : Blank b) (hr : Token (c :: r)) (hp : p.rest = b ++ c :: r) :
    ∃ q, jpPeek p = (q, c) ∧ Took p q b.length 0 := by
  have hmoved := jpSkipWs_moved hb hr hp
  refine ⟨jpSkipWs p, ?_, hmoved⟩
  rw [jpPeek, JP.cur, hmoved.rest hp]
  rfl

theorem jpConsume_spec (hb : Blank b) (hr : Token (c :: r)) (hp : p.rest = b ++ c :: r) :
    ∃ q, jpConsume p = (q, c) ∧ Took p q (b.length + 1) 0 := by
  have hmoved := jpSkipWs_moved hb hr hp
  have hrest := hmoved.rest hp
  have hinside : (jpSkipWs p).pos < (jpSkipWs p).src.length := by
    by_contra hge
    rw [JP.rest, List.drop_eq_nil_of_le (Nat.le_of_not_lt hge)] at hrest
    cases hrest
  refine ⟨(jpSkipWs p).advance 1, ?_, hmoved.trans (took_advance _ 1)⟩
  unfold jpConsume
  simp only [if_pos hinside, JP.cur, hrest]
  rfl

theorem jpOptional_taken (hb : Blank b) (hr : Token (c :: r)) (hp : p.rest = b ++ c :: r) :
    Took p (jpOptional c p) (b.length + 1) 0 := by
  obtain ⟨q, hpeek, hmoved⟩ := jpPeek_spec hb hr hp
  unfold jpOptional
  simp only [hpeek, if_true]
  exact hmoved.trans (took_advance q 1)

theorem jpOptional_left {d : UInt8} (hb : Blank b) (hr : Token (c :: r)) (hp : p.rest = b ++ c :: r)
    (hd : c ≠ d) : Took p (jpOptional d p) b.length 0 := by
  obtain ⟨q, hpeek, hmoved⟩ := jpPeek_spec hb hr hp
  unfold jpOptional
  simp only [hpeek, if_neg hd]
  exact hmoved

end

/-! ## Strings -/

theorem StringBody.no_nul {s t : Bytes} (h : StringBody s t) : (0 : UInt8) ∉ s := by
  induction h with
  | nil => exact List.not_mem_nil
  | raw _ _ hc _ ih =>
    intro hm
    rcases List.mem_cons.mp hm with heq | hm
    · exact hc heq.symm
    · exact ih hm
  | esc he _ ih =>
    intro hm
    rcases List.mem_cons.mp hm with rfl | hm
    · simp [escapes] at he
    · exact ih hm

theorem unescape_of_mem {e c : UInt8} (h : (e, c) ∈ escapes) : unescape e = c := by
  simp only [escapes, List.mem_cons, Prod.mk.injEq, List.not_mem_nil, or_false] at h
  rcases h with ⟨rfl, rfl⟩ | ⟨rfl, rfl⟩ | ⟨rfl, rfl⟩ | ⟨rfl, rfl⟩ | ⟨rfl, rfl⟩ | ⟨rfl, rfl⟩
  · rfl
  · rfl
  · rfl
  · rfl
  · rfl
  · rfl

theorem rawString_quote (n : Nat) (s : Bytes) : rawString n (34 :: s) = ([], 0) := by
  cases n with
  | zero => rfl
  | succ n => rfl

theorem rawString_raw (n : Nat) {c : UInt8} (hq : c ≠ 34) (hbs : c ≠ 92) (s : Bytes) :
    rawString (n + 1) (c :: s) = (c :: (rawString n s).1, (rawString n s).2 + 1) := by
  rw [rawString.eq_def]
  simp only [if_neg hq, if_neg hbs]

theorem rawString_esc (n : Nat) (e : UInt8) (s : Bytes) :
    rawString (n + 1) (92 :: e :: s) = (unescape e :: (rawString n s).1, (rawString n s).2 + 2) := by
  rw [rawString.eq_def]
  rfl

/-- The loop stops at the closing quote, with everything decoded. -/
theorem rawString_body {s t : Bytes} (h : StringBody s t) {n : Nat} (hn : s.length ≤ n)
    (r : Bytes) : rawString n (t ++ 34 :: r) = (s, t.length) := by
  induction h generalizing n with
  | nil => exact rawString_quote n r
  | raw hq hbs _ _ ih =>
    obtain ⟨m, rfl⟩ : ∃ m, n = m + 1 := ⟨n - 1, by simp at hn; omega⟩
    have hih := ih (n := m) (by simpa using hn)
    rw [List.cons_append, rawString_raw m hq hbs, hih, List.length_cons]
  | esc he _ ih =>
    obtain ⟨m, rfl⟩ : ∃ m, n = m + 1 := ⟨n - 1, by simp at hn; omega⟩
    have hih := ih (n := m) (by simpa using hn)
    rw [List.cons_append, List.cons_append, rawString_esc, hih, unescape_of_mem he,
      List.length_cons, List.length_cons]

theorem jpRawString_reads {s text r : Bytes} (hs : StringText s text) (hlen : s.length ≤ 510)
    {p : JP} (hp : p.rest = text ++ r) :
    ReadsIn jpRawString p s text.length (aligned (s.length + 1)) := by
  obtain ⟨t, hbody, rfl⟩ := hs
  have hp' : p.rest = [] ++ 34 :: (t ++ 34 :: r) := by simp [hp]
  obtain ⟨q, hopen, hmoved⟩ := jpConsume_spec .nil (Token.cons (by decide) (by decide) _) hp'
  have hq : q.rest = t ++ 34 :: r := Moved.rest (t := [34]) hmoved.toMoved hp'
  have hloop := rawString_body hbody hlen r
  have hbehind : (q.advance t.length).rest = 34 :: r := (took_advance q _).rest hq
  have hclose : (q.advance t.length).cur = 34 := by
    rw [JP.cur, hbehind]
    rfl
  have hread : jpRawString p =
      ((jpAlloc (s.length + 1) ((q.advance t.length).advance 1)).1,
        if (jpAlloc (s.length + 1) ((q.advance t.length).advance 1)).2 then some (cstr s)
        else none) := by
    unfold jpRawString
    simp only [hopen, hq, hloop, hclose, ne_eq, not_true_eq_false, if_false, if_true]
  have hall := (hmoved.trans (took_advance q t.length)).trans (took_advance _ 1)
  rcases jpAlloc_cases (s.length + 1) ((q.advance t.length).advance 1) with
    ⟨q', halloc, hstay⟩ | ⟨hfull, q', halloc, herr⟩
  · refine .inl ⟨q', ?_, (hall.trans hstay).cast ?_ ?_⟩
    · rw [hread, halloc, cstr_eq_self hbody.no_nul]
      rfl
    · simp only [List.length_cons, List.length_append, List.length_nil]
      omega
    · omega
  · have hapos := hall.apos
    refine .inr ⟨by omega, q', ?_, herr⟩
    rw [hread, halloc]
    rfl

theorem jpParseString_reads {s text r : Bytes} (hs : StringText s text) (hlen : s.length ≤ 510)
    {p : JP} (hp : p.rest = text ++ r) :
    ReadsIn jpParseString p (.str s) text.length (aligned jnodeSize + aligned (s.length + 1)) := by
  unfold ReadsIn jpParseString jpNode
  rcases jpAlloc_cases jnodeSize p with ⟨q, halloc, hstay⟩ | ⟨hfull, q, halloc, herr⟩
  · have hq : q.rest = text ++ r := hstay.rest_same.trans hp
    rcases jpRawString_reads hs hlen hq with ⟨q', hread, hmoved⟩ | ⟨hfull, q', hread, herr⟩
    · refine .inl ⟨q', ?_, (hstay.trans hmoved).cast (Nat.zero_add _) rfl⟩
      simp [halloc, hread]
    · refine .inr ⟨?_, q', by simp [halloc, hread], herr⟩
      rw [hstay.apos] at hfull
      omega
  · exact .inr ⟨by omega, q, by simp [halloc], herr⟩

/-! ## Numbers and keywords -/

theorem isNumChar_of_number {text : Bytes} (h : NumberText text) : ∀ c ∈ text, isNumChar c = true := by
  intro c hc
  have hnumeric := numeric_of_number h c hc
  simpa [isNumChar, Numeric, or_assoc] using hnumeric

/-- The first character of a number. -/
def NumStart (c : UInt8) : Prop := c = 45 ∨ (48 ≤ c ∧ c ≤ 57)

theorem numStart_of_number {text : Bytes} (h : NumberText text) :
    ∃ c t, text = c :: t ∧ NumStart c :=
  h.start

/-- A number starts no blank and none of the other tokens. -/
theorem NumStart.ne {c : UInt8} (h : NumStart c) : isWs c = false ∧ c ≠ 47 ∧ c ≠ 0 ∧ c ≠ 34 ∧
    c ≠ 91 ∧ c ≠ 93 ∧ c ≠ 123 ∧ c ≠ 125 ∧ c ≠ 116 ∧ c ≠ 102 ∧ c ≠ 110 := by
  rcases h with rfl | ⟨hlow, hhigh⟩
  · decide
  · have hne : ∀ d : UInt8, (d < 48 ∨ 57 < d) → c ≠ d := by
      rintro d hd rfl
      simp only [UInt8.lt_iff_toNat_lt, UInt8.le_iff_toNat_le] at hd hlow hhigh
      omega
    have hws : isWs c = false := by
      simp [isWs, hne 32 (by decide), hne 9 (by decide), hne 10 (by decide), hne 13 (by decide)]
    exact ⟨hws, hne 47 (by decide), hne 0 (by decide), hne 34 (by decide), hne 91 (by decide),
      hne 93 (by decide), hne 123 (by decide), hne 125 (by decide), hne 116 (by decide),
      hne 102 (by decide), hne 110 (by decide)⟩

theorem jpParseNumber_reads {buf r : Bytes} (hn : NumberText buf) (hlen : buf.length ≤ 63)
    (hr : Follow r) {p : JP} (hp : p.rest = buf ++ r) :
    ReadsIn jpParseNumber p (.num buf) buf.length (aligned jnodeSize) := by
  obtain ⟨c, t, hbuf, hstart⟩ := numStart_of_number hn
  obtain ⟨hws, hslash, -⟩ := hstart.ne
  have htoken : Token (buf ++ r) := hbuf ▸ Token.cons hws hslash (t ++ r)
  have hskip : Took p (jpSkipWs p) 0 0 := jpSkipWs_moved .nil htoken hp
  have htake : (jpSkipWs p).rest.takeWhile isNumChar = buf := by
    rw [hskip.rest_same, hp, List.takeWhile_append_of_pos (isNumChar_of_number hn)]
    cases r with
    | nil => rw [List.takeWhile_nil, List.append_nil]
    | cons d r =>
      rw [List.takeWhile_cons, hr d rfl]
      exact List.append_nil _
  have hread : jpParseNumber p = ((jpAlloc jnodeSize ((jpSkipWs p).advance buf.length)).1,
      if (jpAlloc jnodeSize ((jpSkipWs p).advance buf.length)).2 then some (.num buf) else none) := by
    unfold jpParseNumber jpNode
    simp only [htake, List.take_of_length_le hlen]
  have hall : Took p ((jpSkipWs p).advance buf.length) buf.length 0 :=
    (hskip.trans (took_advance (jpSkipWs p) buf.length)).cast (Nat.zero_add _) rfl
  rcases jpAlloc_cases jnodeSize ((jpSkipWs p).advance buf.length) with
    ⟨q, halloc, hstay⟩ | ⟨hfull, q, halloc, herr⟩
  · exact .inl ⟨q, by rw [hread, halloc]; rfl, (hall.trans hstay).cast rfl (Nat.zero_add _)⟩
  · exact .inr ⟨hall.apos ▸ hfull, q, by rw [hread, halloc]; rfl, herr⟩

theorem jpParseWord_reads (len : Nat) (v : JNode) (p : JP) :
    ReadsIn (jpParseWord len v) p v len (aligned jnodeSize) := by
  unfold ReadsIn jpParseWord jpNode
  rcases jpAlloc_cases jnodeSize (p.advance len) with ⟨q, halloc, hstay⟩ | ⟨hfull, q, halloc, herr⟩
  · exact .inl ⟨q, by simp [halloc], ((took_advance p len).trans hstay).cast rfl (Nat.zero_add _)⟩
  · exact .inr ⟨hfull, q, by simp [halloc], herr⟩

/-! ## Entries -/

/-- `read` turns the texts that `R` gives to `v` back into `v`, with `a` bytes
of the arena. -/
def Inverts {α : Type} (read : JP → JP × Option α) (R : α → Bytes → Prop) (v : α) (a : Nat) :
    Prop :=
  ∀ t, R v t → ∀ p r, Follow r → p.rest = t ++ r → ReadsIn read p v t.length a

/-- The texts of `v` start with a token that does not end the list. -/
def Opens {α : Type} (close : UInt8) (R : α → Bytes → Prop) (v : α) : Prop :=
  ∀ t, R v t → ∃ c t', t = c :: t' ∧ isWs c = false ∧ c ≠ 47 ∧ c ≠ 0 ∧ c ≠ close

section
variable {α : Type} {entry : JP → JP × Option α} {R : α → Bytes → Prop} {close : UInt8}
  {cost : α → Nat}

/-- At the closing character the loop ends. -/
theorem jpEntries_end (entry : JP → JP × Option α) {p : JP} {b r : Bytes}
    (hclose : isWs close = false ∧ close ≠ 47) (hb : Blank b)
    (hp : p.rest = b ++ close :: r) (n : Nat) (acc : List α) :
    ∃ q, jpEntries entry close n p acc = (q, some acc) ∧ Took p q b.length 0 := by
  have htoken := Token.cons hclose.1 hclose.2 r
  cases n with
  | zero => exact ⟨jpSkipWs p, rfl, jpSkipWs_moved hb htoken hp⟩
  | succ n =>
    obtain ⟨q, hpeek, hmoved⟩ := jpPeek_spec hb htoken hp
    refine ⟨q, ?_, hmoved⟩
    rw [jpEntries, hpeek]
    exact if_pos (.inl rfl)

/-- One round of the loop on an entry. -/
theorem jpEntries_entry {p : JP} {b t r : Bytes} {v : α} (hb : Blank b) (hv : R v t)
    (hopen : Opens close R v) (hinv : Inverts entry R v (cost v)) (hr : Follow r)
    (hp : p.rest = b ++ (t ++ r)) (n : Nat) (acc : List α) :
    (∃ q, jpEntries entry close (n + 1) p acc =
        jpEntries entry close n (jpOptional 44 q) (acc ++ [v]) ∧
      Took p q (b.length + t.length) (cost v)) ∨
    (jpArena < p.apos + cost v ∧
      ∃ q, jpEntries entry close (n + 1) p acc = (q, none) ∧ q.err = jpExhausted) := by
  obtain ⟨c, t', rfl, hws, hslash, hzero, hne⟩ := hopen t hv
  have htoken : Token (c :: (t' ++ r)) := Token.cons hws hslash _
  obtain ⟨q, hpeek, hmoved⟩ := jpPeek_spec hb htoken (by rw [hp]; rfl)
  have hgoes : ¬ (c = close ∨ c = 0) := not_or.mpr ⟨hne, hzero⟩
  have hq : q.rest = (c :: t') ++ r := hmoved.rest hp
  rcases hinv _ hv q r hr hq with ⟨q', hread, hmoved'⟩ | ⟨hfull, q', hread, herr⟩
  · refine .inl ⟨q', ?_, (hmoved.trans hmoved').cast rfl (Nat.zero_add _)⟩
    rw [jpEntries, hpeek]
    simp only [if_neg hgoes, hread]
  · have hapos := hmoved.apos
    refine .inr ⟨by omega, q', ?_, herr⟩
    rw [jpEntries, hpeek]
    simp only [if_neg hgoes, hread]

/-- The loop reads the entries of a text with commas between them. -/
theorem jpEntries_sepBy {vs : List α} {body : Bytes} (h : SepBy R vs body)
    (hclose : isWs close = false ∧ close ≠ 47) (hcomma : close ≠ 44)
    (hnum : isNumChar close = false) (hopen : ∀ v ∈ vs, Opens close R v)
    (hinv : ∀ v ∈ vs, Inverts entry R v (cost v)) {n : Nat} (hn : vs.length ≤ n) {p : JP} {r : Bytes}
    (hp : p.rest = body ++ close :: r) (acc : List α) :
    ReadsIn (fun p => jpEntries entry close n p acc) p (acc ++ vs) body.length
      (vs.map cost).sum := by
  induction h generalizing n p acc with
  | one hb hv hb' =>
    rename_i v b t b'
    obtain ⟨m, rfl⟩ : ∃ m, n = m + 1 := ⟨n - 1, by simp at hn; omega⟩
    have hp' : p.rest = b ++ (t ++ (b' ++ close :: r)) := by simp [hp]
    rcases jpEntries_entry hb hv (hopen v List.mem_cons_self) (hinv v List.mem_cons_self)
      (hb'.follow (Follow.cons hnum r)) hp' m acc with ⟨q, hstep, hmoved⟩ | ⟨hfull, q, hstep, herr⟩
    · have hq : q.rest = b' ++ close :: r := by
        have hread := hmoved.toMoved
        rw [← List.length_append] at hread
        exact hread.rest (by rw [hp', List.append_assoc])
      -- behind the last value comes the bracket: no comma is taken
      have hleft := jpOptional_left hb' (Token.cons hclose.1 hclose.2 r) hq hcomma
      obtain ⟨q', hend, hstay⟩ := jpEntries_end entry (b := []) hclose .nil
        (hleft.rest hq) m (acc ++ [v])
      refine .inl ⟨q', by simp only [hstep, hend], ((hmoved.trans hleft).trans hstay).cast ?_ ?_⟩
      · simp [Nat.add_assoc]
      · simp
    · exact .inr ⟨by simpa using hfull, q, hstep, herr⟩
  | cons hb hv hb' hrest ih =>
    rename_i v vs b t b' ts
    obtain ⟨m, rfl⟩ : ∃ m, n = m + 1 := ⟨n - 1, by simp at hn; omega⟩
    have hp' : p.rest = b ++ (t ++ (b' ++ 44 :: (ts ++ close :: r))) := by simp [hp]
    rcases jpEntries_entry hb hv (hopen v List.mem_cons_self) (hinv v List.mem_cons_self)
      (hb'.follow (Follow.cons (by decide) _)) hp' m acc with
      ⟨q, hstep, hmoved⟩ | ⟨hfull, q, hstep, herr⟩
    · have hq : q.rest = b' ++ 44 :: (ts ++ close :: r) := by
        have hread := hmoved.toMoved
        rw [← List.length_append] at hread
        exact hread.rest (by rw [hp', List.append_assoc])
      have htaken := jpOptional_taken hb' (Token.cons (by decide) (by decide) _) hq
      have hnext : (jpOptional 44 q).rest = ts ++ close :: r := by
        refine Moved.rest (t := b' ++ [44]) ?_ (by rw [hq]; simp)
        rw [List.length_append]
        exact htaken.toMoved
      -- or the arena is full, at this value or at a later one
      have hih := ih (fun v hv => hopen v (List.mem_cons_of_mem _ hv))
        (fun v hv => hinv v (List.mem_cons_of_mem _ hv)) (n := m) (by simpa using hn) hnext
        (acc ++ [v])
      have hcat : acc ++ [v] ++ vs = acc ++ v :: vs := by simp
      have hfirst := hmoved.trans htaken
      rcases hih with ⟨q', hloop, hmoved'⟩ | ⟨hfull, q', hloop, herr⟩
      · refine .inl ⟨q', by simp only [hstep, hloop, hcat], (hfirst.trans hmoved').cast ?_ rfl⟩
        simp only [List.length_append, List.length_cons]
        omega
      · refine .inr ⟨?_, q', by simp only [hstep, hloop], herr⟩
        rw [hfirst.apos] at hfull
        rw [List.map_cons, List.sum_cons]
        omega
    · refine .inr ⟨?_, q, hstep, herr⟩
      rw [List.map_cons, List.sum_cons]
      omega

/-- The same for a list that may be empty. -/
theorem jpEntries_listing {vs : List α} {body : Bytes} (h : Listing R vs body)
    (hclose : isWs close = false ∧ close ≠ 47) (hcomma : close ≠ 44)
    (hnum : isNumChar close = false) (hopen : ∀ v ∈ vs, Opens close R v)
    (hinv : ∀ v ∈ vs, Inverts entry R v (cost v)) {n : Nat} (hn : vs.length ≤ n) {p : JP} {r : Bytes}
    (hp : p.rest = body ++ close :: r) :
    ReadsIn (fun p => jpEntries entry close n p []) p vs body.length (vs.map cost).sum := by
  rcases h with ⟨rfl, hb⟩ | h
  · obtain ⟨q, hend, hmoved⟩ := jpEntries_end entry hclose hb hp n []
    exact .inl ⟨q, hend, hmoved⟩
  · exact jpEntries_sepBy h hclose hcomma hnum hopen hinv hn hp []

end

/-! ## Values -/

/-- The frame of an array or object: opening character, allocations, closing
character. -/
theorem enclosed_took {p q₁ q₂ q₃ : JP} {body r : Bytes} {close : UInt8} {a c : Nat}
    (hopen : Took p q₁ 1 0)
    (halloc : Took q₁ q₂ 0 a) (hbody : Took q₂ q₃ body.length c)
    (hclose : isWs close = false ∧ close ≠ 47) (hq : q₂.rest = body ++ close :: r) :
    Took p (jpOptional close q₃) (body.length + 2) (a + c) := by
  have hend := jpOptional_taken .nil (Token.cons hclose.1 hclose.2 r) (hbody.rest hq)
  refine (((hopen.trans halloc).trans hbody).trans hend).cast ?_ (by omega)
  simp only [List.length_nil]
  omega

section
variable {value : JP → JP × Option JNode} {R : JNode → Bytes → Prop} {cost : JNode → Nat}

theorem jpParseArray_reads {v : List JNode} {body r : Bytes} (h : Listing R v body)
    (hopen : ∀ x ∈ v, Opens 93 R x) (hinv : ∀ x ∈ v, Inverts value R x (cost x))
    (hlen : v.length ≤ jpMaxArr) {p : JP} (hp : p.rest = 91 :: (body ++ [93]) ++ r) :
    ReadsIn (jpParseArray value) p (.arr v) (body.length + 2)
      (aligned jnodeSize + aligned (jpMaxArr * ptrSize) + (v.map cost).sum) := by
  have hp' : p.rest = [] ++ 91 :: (body ++ 93 :: r) := by simp [hp]
  obtain ⟨q₁, hbracket, hmoved⟩ := jpConsume_spec .nil (Token.cons (by decide) (by decide) _) hp'
  unfold ReadsIn jpParseArray jpNode
  simp only [hbracket, ne_eq, not_true_eq_false, if_false]
  have hapos := hmoved.apos
  rcases jpAlloc_cases jnodeSize q₁ with ⟨q₂, hnode, hstay⟩ | ⟨hfull, q₂, hnode, herr⟩
  · have hapos₂ := hstay.apos
    rcases jpAlloc_cases (jpMaxArr * ptrSize) q₂ with ⟨q₃, hitems, hstay'⟩ | ⟨hfull, q₃, hitems, herr⟩
    · have hapos₃ := hstay'.apos
      have hq : q₃.rest = body ++ 93 :: r := by
        rw [hstay'.rest_same, hstay.rest_same]
        exact Moved.rest (t := [91]) hmoved.toMoved hp'
      rcases jpEntries_listing h (by decide) (by decide) (by decide) hopen hinv hlen hq with
        ⟨q₄, hloop, hmoved'⟩ | ⟨hfull, q₄, hloop, herr⟩
      · refine .inl ⟨jpOptional 93 q₄, by simp [hnode, hitems, hloop], ?_⟩
        exact enclosed_took hmoved (hstay.trans hstay') hmoved' (by decide) hq
      · exact .inr ⟨by omega, q₄, by simp [hnode, hitems, hloop], herr⟩
    · exact .inr ⟨by omega, q₃, by simp [hnode, hitems], herr⟩
  · exact .inr ⟨by omega, q₂, by simp [hnode], herr⟩

/-- What a member takes of the arena. -/
def memberCost (cost : JNode → Nat) (m : Bytes × JNode) : Nat :=
  aligned (m.1.length + 1) + cost m.2

theorem jpMember_inverts {m : Bytes × JNode} (hlen : m.1.length ≤ 510)
    (hvalue : ∀ t, R m.2 t → ∀ p b r, Blank b → Follow r → p.rest = b ++ (t ++ r) →
      ReadsIn value p m.2 (b.length + t.length) (cost m.2)) :
    Inverts (jpMember value) (Member R) m (memberCost cost m) := by
  rintro _ ⟨kt, b, b', vt, hkey, hb, hb', hv, rfl⟩ p r hr hp
  have hp' : p.rest = kt ++ (b ++ 58 :: (b' ++ (vt ++ r))) := by simp [hp]
  unfold ReadsIn jpMember memberCost
  rcases jpRawString_reads hkey hlen hp' with ⟨q₁, hread, hmoved⟩ | ⟨hfull, q₁, hread, herr⟩
  · obtain ⟨q₂, hcolon, hmoved'⟩ := jpConsume_spec hb (Token.cons (by decide) (by decide) _)
      (hmoved.rest hp')
    have hq : q₂.rest = b' ++ (vt ++ r) := by
      refine Moved.rest (t := b ++ [58]) ?_ (by rw [hmoved.rest hp']; simp)
      rw [List.length_append]
      exact hmoved'.toMoved
    have hkeyed := hmoved.trans hmoved'
    rcases hvalue vt hv q₂ b' r hb' hr hq with ⟨q₃, hval, hmoved''⟩ | ⟨hfull, q₃, hval, herr⟩
    · refine .inl ⟨q₃, by simp [hread, hcolon, hval], (hkeyed.trans hmoved'').cast ?_ rfl⟩
      simp only [List.length_append, List.length_cons]
      omega
    · have hapos := hkeyed.apos
      exact .inr ⟨by omega, q₃, by simp [hread, hcolon, hval], herr⟩
  · exact .inr ⟨by omega, q₁, by simp [hread], herr⟩

/-- A member starts with the quote of its key. -/
theorem member_opens (m : Bytes × JNode) : Opens 125 (Member R) m := by
  rintro _ ⟨kt, b, b', vt, ⟨t, -, rfl⟩, -, -, -, rfl⟩
  exact ⟨34, _, rfl, by decide⟩

theorem jpParseObject_reads {kv : List (Bytes × JNode)} {body r : Bytes}
    (h : Listing (Member R) kv body)
    (hinv : ∀ m ∈ kv, Inverts (jpMember value) (Member R) m (memberCost cost m))
    (hlen : kv.length ≤ jpMaxObj) {p : JP} (hp : p.rest = 123 :: (body ++ [125]) ++ r) :
    ReadsIn (jpParseObject value) p (.obj kv) (body.length + 2)
      (aligned jnodeSize + aligned (jpMaxObj * ptrSize) + aligned (jpMaxObj * ptrSize) +
        (kv.map (memberCost cost)).sum) := by
  have hp' : p.rest = [] ++ 123 :: (body ++ 125 :: r) := by simp [hp]
  obtain ⟨q₁, hbrace, hmoved⟩ := jpConsume_spec .nil (Token.cons (by decide) (by decide) _) hp'
  unfold ReadsIn jpParseObject jpNode
  simp only [hbrace, ne_eq, not_true_eq_false, if_false]
  have hapos := hmoved.apos
  rcases jpAlloc_cases jnodeSize q₁ with ⟨q₂, hnode, hstay⟩ | ⟨hfull, q₂, hnode, herr⟩
  · have hapos₂ := hstay.apos
    rcases jpAlloc_cases (jpMaxObj * ptrSize) q₂ with ⟨q₃, hkeys, hstay'⟩ | ⟨hfull, q₃, hkeys, herr⟩
    · have hapos₃ := hstay'.apos
      rcases jpAlloc_cases (jpMaxObj * ptrSize) q₃ with
        ⟨q₄, hvals, hstay''⟩ | ⟨hfull, q₄, hvals, herr⟩
      · have hapos₄ := hstay''.apos
        -- the three allocations read nothing
        have hq : q₄.rest = body ++ 125 :: r := by
          rw [hstay''.rest_same, hstay'.rest_same, hstay.rest_same]
          exact Moved.rest (t := [123]) hmoved.toMoved hp'
        rcases jpEntries_listing h (by decide) (by decide) (by decide)
          (fun m _ => member_opens m) hinv hlen hq with ⟨q₅, hloop, hmoved'⟩ | ⟨hfull, q₅, hloop, herr⟩
        · refine .inl ⟨jpOptional 125 q₅, by simp [hnode, hkeys, hvals, hloop], ?_⟩
          exact enclosed_took hmoved ((hstay.trans hstay').trans hstay'') hmoved' (by decide) hq
        · exact .inr ⟨by omega, q₅, by simp [hnode, hkeys, hvals, hloop], herr⟩
      · exact .inr ⟨by omega, q₄, by simp [hnode, hkeys, hvals], herr⟩
    · -- both arrays are allocated before the first is looked at
      refine .inr ⟨by omega, (jpAlloc (jpMaxObj * ptrSize) q₃).1, by simp [hnode, hkeys], ?_⟩
      rcases jpAlloc_cases (jpMaxObj * ptrSize) q₃ with ⟨q₄, hvals, -⟩ | ⟨-, q₄, hvals, herr'⟩
      · rw [hvals]
        have hstay₄ : q₄.err = q₃.err := by
          have := congrArg Prod.fst hvals
          have hok := congrArg Prod.snd hvals
          unfold jpAlloc at this hok
          simp only at this hok
          split at this
          · rename_i hfull
            rw [if_pos hfull] at hok
            cases hok
          · exact this ▸ rfl
        exact hstay₄.trans herr
      · rw [hvals]
        exact herr'
  · exact .inr ⟨by omega, q₂, by simp [hnode], herr⟩

end

/-! ## The arena a tree takes -/

mutual

/-- What `jp_parse_value` takes of the arena for a tree. -/
def arenaSize : JNode → Nat
  | .null | .bool _ | .num _ => aligned jnodeSize
  | .str s => aligned jnodeSize + aligned (s.length + 1)
  | .arr v => aligned jnodeSize + aligned (jpMaxArr * ptrSize) + arenaElems v
  | .obj kv =>
    aligned jnodeSize + aligned (jpMaxObj * ptrSize) + aligned (jpMaxObj * ptrSize) +
      arenaMembers kv

def arenaElems : List JNode → Nat
  | [] => 0
  | v :: vs => arenaSize v + arenaElems vs

def arenaMembers : List (Bytes × JNode) → Nat
  | [] => 0
  | (k, v) :: ms => aligned (k.length + 1) + arenaSize v + arenaMembers ms

end

theorem arenaElems_eq (v : List JNode) : arenaElems v = (v.map arenaSize).sum := by
  induction v with
  | nil => rfl
  | cons x v ih => rw [arenaElems, ih, List.map_cons, List.sum_cons]

theorem arenaMembers_eq (kv : List (Bytes × JNode)) :
    arenaMembers kv = (kv.map (memberCost arenaSize)).sum := by
  induction kv with
  | nil => rfl
  | cons m kv ih =>
    rw [arenaMembers, ih, List.map_cons, List.sum_cons]
    rfl

/-! ## Values of any kind -/

/-- What a value starts with. -/
theorem rendersAt_opens {depth : Nat} {v : JNode} (close : UInt8)
    (hclose : close = 93 ∨ close = 125) : Opens close (RendersAt depth) v := by
  intro t h
  have hne : ∀ c, c ≠ 93 → c ≠ 125 → c ≠ close := by
    rintro c h93 h125 rfl
    rcases hclose with rfl | rfl
    · exact h93 rfl
    · exact h125 rfl
  cases depth with
  | zero => cases h
  | succ depth =>
    cases v with
    | null => exact ⟨110, _, h, by decide, by decide, by decide, hne _ (by decide) (by decide)⟩
    | bool b =>
      cases b with
      | true => exact ⟨116, _, h, by decide, by decide, by decide, hne _ (by decide) (by decide)⟩
      | false => exact ⟨102, _, h, by decide, by decide, by decide, hne _ (by decide) (by decide)⟩
    | num buf =>
      obtain ⟨rfl, hnum⟩ := h
      obtain ⟨c, t', rfl, hstart⟩ := numStart_of_number hnum
      obtain ⟨hws, hslash, hzero, -, -, h93, -, h125, -⟩ := hstart.ne
      exact ⟨c, t', rfl, hws, hslash, hzero, hne c h93 h125⟩
    | str s =>
      obtain ⟨body, -, rfl⟩ := h
      exact ⟨34, _, rfl, by decide, by decide, by decide, hne _ (by decide) (by decide)⟩
    | arr v =>
      obtain ⟨body, -, rfl⟩ := h
      exact ⟨91, _, rfl, by decide, by decide, by decide, hne _ (by decide) (by decide)⟩
    | obj kv =>
      obtain ⟨body, -, rfl⟩ := h
      exact ⟨123, _, rfl, by decide, by decide, by decide, hne _ (by decide) (by decide)⟩

/-- **The parser inverts texts**: behind any blanks it reads the value back if
the arena has room for it, and finds the arena exhausted otherwise. -/
theorem jpParseValue_readsIn {depth : Nat} {v : JNode} {t : Bytes} (hv : RendersAt depth v t)
    (hw : v.Within) {d : Nat} (hd : depth ≤ d) {p : JP} {b r : Bytes} (hb : Blank b)
    (hr : Follow r) (hp : p.rest = b ++ (t ++ r)) :
    ReadsIn (jpParseValue d) p v (b.length + t.length) (arenaSize v) := by
  induction depth generalizing v t d p b r with
  | zero => cases hv
  | succ depth ih =>
    obtain ⟨e, rfl⟩ : ∃ e, d = e + 1 := ⟨d - 1, by omega⟩
    have hde : depth ≤ e := by omega
    obtain ⟨c, t', ht, hws, hslash, -, -⟩ := rendersAt_opens 93 (.inl rfl) t hv
    obtain ⟨q, hpeek, hmoved⟩ := jpPeek_spec (c := c) (r := t' ++ r) hb
      (Token.cons hws hslash _) (by rw [hp, ht]; rfl)
    have hq : q.rest = t ++ r := hmoved.rest hp
    -- what is left is the branch on the first character, without blanks
    suffices h : ReadsIn (fun _ => jpParseValue (e + 1) p) q v t.length (arenaSize v) by
      rcases h with ⟨q', hread, hmoved'⟩ | ⟨hfull, q', hread, herr⟩
      · exact .inl ⟨q', hread, (hmoved.trans hmoved').cast rfl (Nat.zero_add _)⟩
      · have hapos := hmoved.apos
        exact .inr ⟨by omega, q', hread, herr⟩
    cases v with
    | null =>
      have hc : c = 110 := (List.cons.inj (ht.symm.trans hv)).1
      have hread := jpParseWord_reads 4 .null q
      subst hc
      rw [show t.length = 4 by rw [hv]; decide]
      simpa [jpParseValue, hpeek, ReadsIn, arenaSize] using hread
    | bool x =>
      cases x with
      | true =>
        have hc : c = 116 := (List.cons.inj (ht.symm.trans hv)).1
        have hread := jpParseWord_reads 4 (.bool true) q
        subst hc
        rw [show t.length = 4 by rw [hv]; decide]
        simpa [jpParseValue, hpeek, ReadsIn, arenaSize] using hread
      | false =>
        have hc : c = 102 := (List.cons.inj (ht.symm.trans hv)).1
        have hread := jpParseWord_reads 5 (.bool false) q
        subst hc
        rw [show t.length = 5 by rw [hv]; decide]
        simpa [jpParseValue, hpeek, ReadsIn, arenaSize] using hread
    | num buf =>
      obtain ⟨rfl, hnum⟩ := hv
      cases hw with
      | num hlen =>
        obtain ⟨c', t'', hbuf, hstart⟩ := numStart_of_number hnum
        have hc : c = c' := (List.cons.inj (ht.symm.trans hbuf)).1
        subst hc
        obtain ⟨-, -, -, h34, h91, -, h123, -, h116, h102, h110⟩ := hstart.ne
        have hread := jpParseNumber_reads hnum hlen hr hq
        simpa [jpParseValue, hpeek, ReadsIn, arenaSize, h34, h91, h123, h116, h102, h110,
          show c = 45 ∨ 48 ≤ c ∧ c ≤ 57 from hstart] using hread
    | str s =>
      cases hw with
      | str hlen =>
        have hread := jpParseString_reads hv hlen hq
        obtain ⟨body, -, htext⟩ := hv
        have hc : c = 34 := (List.cons.inj (ht.symm.trans htext)).1
        subst hc
        simpa [jpParseValue, hpeek, ReadsIn, arenaSize] using hread
    | arr x =>
      obtain ⟨body, hlist, htext⟩ := hv
      cases hw with
      | arr hlen hall =>
        have hc : c = 91 := (List.cons.inj (ht.symm.trans htext)).1
        subst hc
        have hinv : ∀ y ∈ x, Inverts (jpParseValue e) (RendersAt depth) y (arenaSize y) := by
          intro y hy s hs p' r' hr' hp'
          have hread := ih hs (hall y hy) hde .nil hr' (p := p') (b := []) (by rw [hp']; rfl)
          rwa [List.length_nil, Nat.zero_add] at hread
        have hread := jpParseArray_reads hlist (fun y _ => rendersAt_opens 93 (.inl rfl)) hinv hlen
          (p := q) (r := r) (by rw [hq, htext])
        rw [show t.length = body.length + 2 by rw [htext]; simp]
        simpa [jpParseValue, hpeek, ReadsIn, arenaSize, arenaElems_eq] using hread
    | obj kv =>
      obtain ⟨body, hlist, htext⟩ := hv
      cases hw with
      | obj hlen hkeys hall =>
        have hc : c = 123 := (List.cons.inj (ht.symm.trans htext)).1
        subst hc
        have hinv : ∀ m ∈ kv, Inverts (jpMember (jpParseValue e)) (Member (RendersAt depth)) m
          (memberCost arenaSize m) :=
          fun m hm => jpMember_inverts (hkeys m hm)
            fun s hs p' b' r' hb' hr' hp' => ih hs (hall m hm) hde hb' hr' hp'
        have hread := jpParseObject_reads hlist hinv hlen (p := q) (r := r) (by rw [hq, htext])
        rw [show t.length = body.length + 2 by rw [htext]; simp]
        simpa [jpParseValue, hpeek, ReadsIn, arenaSize, arenaMembers_eq] using hread

theorem jpParseValue_reads {depth : Nat} {v : JNode} {t : Bytes} (hv : RendersAt depth v t)
    (hw : v.Within) {d : Nat} (hd : depth ≤ d) {p : JP} {b r : Bytes} (hb : Blank b)
    (hr : Follow r) (hp : p.rest = b ++ (t ++ r)) :
    Reads (jpParseValue d) p v (b.length + t.length) :=
  (jpParseValue_readsIn hv hw hd hb hr hp).reads

/-- On a whole text the parser returns the tree it stands for. -/
theorem jpParseValue_text {v : JNode} {text : Bytes} (h : IsText v text) (hw : v.Within) :
    (∃ q, jpParseValue jpMaxDepth (.init text) = (q, some v)) ∨
    ∃ q, jpParseValue jpMaxDepth (.init text) = (q, none) ∧ q.err = jpExhausted := by
  obtain ⟨depth, b, t, b', hb, hv, hb', rfl⟩ := h
  have hread := jpParseValue_reads hv hw (Nat.le_max_right jpMaxDepth depth) hb
    (r := b') (by
      have := hb'.follow (r := []) (fun c hc => by cases hc)
      rwa [List.append_nil] at this)
    (p := .init (b ++ (t ++ b'))) rfl
  rw [Reads, jpParseValue_depth (Nat.le_max_left jpMaxDepth depth)] at hread
  rcases hread with ⟨q, hq, -⟩ | hfail
  · exact .inl ⟨q, hq⟩
  · exact .inr hfail

end ContainerSim.Orch
