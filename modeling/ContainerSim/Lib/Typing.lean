import ContainerSim.Lib.Separators

/-!
# Words as they are typed

Who types a line puts separators between the words and quotes around those that
need them. A line typed so is cut up into its words again (`TypedLine.split`),
and so is its beginning if nothing but separators is missing. A beginning that
still has all the words lacks separators only, or the closing quote of the last
word as well (`TypedLine.missing`).
-/

namespace ContainerSim.Lib

variable {α : Type*} [DecidableEq α]

namespace WordSyntax

variable {x : WordSyntax α}

/-- A word as it is typed: bare, or between quotes that it does not hold. -/
inductive Typed (x : WordSyntax α) : List α → List α → Prop where
  | bare {w} : x.Fits (none, w) → Typed x w w
  | quoted {q w} : x.Fits (some q, w) → Typed x w (q :: (w ++ [q]))

/-- Words typed one after the other. -/
inductive TypedLine (x : WordSyntax α) : List (List α) → List α → Prop where
  | nil {line} : (∀ c ∈ line, x.sep c = true) → TypedLine x [] line
  | cons {pre w t rest ws} : (∀ c ∈ pre, x.sep c = true) → x.Typed w t →
      (∀ c ∈ rest.head?, x.sep c = true) → TypedLine x ws rest →
      TypedLine x (w :: ws) (pre ++ (t ++ rest))

/-! ## Reading them -/

theorem nextWord_blank {pre : List α} (hpre : ∀ c ∈ pre, x.sep c = true) (p : List α) :
    x.nextWord (pre ++ p) = x.nextWord p := by
  unfold nextWord
  rw [List.dropWhile_append_of_pos hpre]

theorem split_blank {pre p : List α} (hpre : ∀ c ∈ pre, x.sep c = true)
    {ws : List (Option α × List α)} : x.Split (pre ++ p) ws ↔ x.Split p ws := by
  have hnext := nextWord_blank hpre p
  constructor
  · intro h
    cases h with
    | nil hnone => exact .nil (hnext.symm.trans hnone)
    | cons hword hrest => exact .cons (hnext.symm.trans hword) hrest
  · intro h
    cases h with
    | nil hnone => exact .nil (hnext.trans hnone)
    | cons hword hrest => exact .cons (hnext.trans hword) hrest

theorem split_nil_iff {p : List α} : x.Split p [] ↔ ∀ c ∈ p, x.sep c = true := by
  constructor
  · intro h
    cases h with
    | nil hnone => exact nextWord_eq_none.mp hnone
  · intro h
    exact .nil (nextWord_eq_none.mpr h)

theorem nextWord_quoted {q : α} {w rest : List α} (hw : x.Fits (some q, w)) :
    x.nextWord (q :: (w ++ q :: rest)) = some ((some q, w), rest) := by
  obtain ⟨hquote, hout⟩ := hw
  have hstay : ∀ c ∈ w, decide (c ≠ q) = true := by
    intro c hc
    exact decide_eq_true fun heq => hout (heq ▸ hc)
  have hsep : x.sep q = false := x.sep_quote q hquote
  simp only [nextWord, List.dropWhile_cons, hsep, hquote, Bool.false_eq_true, if_false, if_true]
  rw [List.takeWhile_append_of_pos hstay, List.dropWhile_append_of_pos hstay]
  simp

/-- A typed word is read as what it stands for. -/
theorem Typed.split {w t rest : List α} (ht : x.Typed w t)
    (hrest : ∀ c ∈ rest.head?, x.sep c = true) {ws : List (Option α × List α)}
    (h : x.Split rest ws) : ∃ q, x.Split (t ++ rest) ((q, w) :: ws) := by
  cases ht with
  | bare hw =>
    refine ⟨none, .cons (nextWord_bare hw hrest) ?_⟩
    cases rest with
    | nil => exact h
    | cons s rest =>
      have hs : ∀ c ∈ [s], x.sep c = true := by simpa using hrest
      exact (split_blank hs).mp h
  | @quoted q _ hw =>
    refine ⟨some q, .cons ?_ h⟩
    have hnext : x.nextWord (q :: (w ++ q :: rest)) = some ((some q, w), rest) :=
      nextWord_quoted hw
    simpa using hnext

theorem TypedLine.split {ws : List (List α)} {line : List α} (h : x.TypedLine ws line) :
    ∃ ws', x.Split line ws' ∧ ws'.map Prod.snd = ws := by
  induction h with
  | nil hblank => exact ⟨[], split_nil_iff.mpr hblank, rfl⟩
  | cons hpre ht hrest _ ih =>
    obtain ⟨ws', hsplit, rfl⟩ := ih
    obtain ⟨q, hword⟩ := ht.split hrest hsplit
    exact ⟨_, (split_blank hpre).mpr hword, rfl⟩

/-! ## The beginning of a line -/

omit [DecidableEq α] in
theorem Typed.ne_nil {w t : List α} (h : x.Typed w t) : t ≠ [] := by
  cases h with
  | bare hw => exact hw.1
  | quoted hw => exact List.cons_ne_nil _ _

omit [DecidableEq α] in
/-- A typed word does not end with a separator. -/
theorem Typed.last {w t : List α} (h : x.Typed w t) : ∀ c ∈ t.getLast?, x.sep c = false := by
  intro c hc
  cases h with
  | bare hw => exact hw.2.1 c (List.mem_of_getLast? hc)
  | @quoted q _ hw =>
    rw [← List.cons_append, List.getLast?_concat] at hc
    obtain rfl := Option.some.inj hc
    exact x.sep_quote _ hw.1

/-- A cut behind the first word. -/
theorem take_behind {β : Type*} (pre t rest : List β) (k : Nat) :
    (pre ++ (t ++ rest)).take (pre.length + t.length + k) = pre ++ (t ++ rest.take k) := by
  rw [Nat.add_assoc, List.take_length_add_append, List.take_length_add_append]

theorem drop_behind {β : Type*} (pre t rest : List β) (k : Nat) :
    (pre ++ (t ++ rest)).drop (pre.length + t.length + k) = rest.drop k := by
  rw [Nat.add_assoc, List.drop_length_add_append, List.drop_length_add_append]

/-- What separates the words still does in a beginning. -/
theorem head_take {β : Type*} {p : β → Prop} {l : List β} (h : ∀ c ∈ l.head?, p c) (k : Nat) :
    ∀ c ∈ (l.take k).head?, p c := by
  cases l with
  | nil => simp
  | cons a l =>
    cases k with
    | zero => simp
    | succ k => exact h

omit [DecidableEq α] in
/-- All the words are there as long as only separators are missing. -/
theorem TypedLine.take {ws : List (List α)} {line : List α} (h : x.TypedLine ws line) {n : Nat}
    (hblank : ∀ c ∈ line.drop n, x.sep c = true) : x.TypedLine ws (line.take n) := by
  induction h generalizing n with
  | nil hline => exact .nil fun c hc => hline c (List.mem_of_mem_take hc)
  | @cons pre w t rest ws hpre ht hrest _ ih =>
    -- the last byte of the word is no separator, so the cut is behind it
    have hle : pre.length + t.length ≤ n := by
      by_contra hlt
      obtain ⟨l, a, rfl⟩ : ∃ l a, t = l ++ [a] :=
        ⟨_, _, (List.dropLast_append_getLast ht.ne_nil).symm⟩
      have hmem : a ∈ (pre ++ (l ++ [a] ++ rest)).drop n := by
        have hn : n ≤ (pre ++ l).length := by
          simp only [List.length_append, List.length_singleton] at hlt ⊢
          omega
        have hassoc : pre ++ (l ++ [a] ++ rest) = (pre ++ l) ++ a :: rest := by simp
        rw [hassoc, List.drop_append_of_le_length hn]
        exact List.mem_append_right _ List.mem_cons_self
      have hfalse := ht.last a (by simp)
      rw [hblank a hmem] at hfalse
      cases hfalse
    obtain ⟨k, rfl⟩ := Nat.exists_eq_add_of_le hle
    rw [drop_behind] at hblank
    rw [take_behind]
    exact .cons hpre ht (head_take hrest k) (ih hblank)

/-- What is left of a word, when not all of it is there. -/
theorem Typed.split_take {w t : List α} (ht : x.Typed w t) {k : Nat} (hk : k < t.length)
    {ws : List (Option α × List α)} (h : x.Split (t.take k) ws) :
    (ws = [] ∧ k = 0) ∨ ∃ q v, ws = [(q, v)] ∧ (v = w → t.drop k = [t.getLast ht.ne_nil] ∧
      x.quote (t.getLast ht.ne_nil) = true) := by
  cases k with
  | zero => exact .inl ⟨h.unique (split_nil_iff.mpr (List.forall_mem_nil _)), rfl⟩
  | succ k =>
    right
    -- a word that is cut short is not the word, but for a closing quote
    cases ht with
    | bare hw =>
      obtain ⟨hne, hsep, hquote⟩ := hw
      have hfits : x.Fits (none, w.take (k + 1)) := by
        refine ⟨?_, fun c hc => hsep c (List.mem_of_mem_take hc), ?_⟩
        · intro hnil
          rcases List.take_eq_nil_iff.mp hnil with h0 | h0
          · cases h0
          · exact hne h0
        · intro c hc
          cases w with
          | nil => exact absurd rfl hne
          | cons a w => exact hquote c hc
      have hnext : x.nextWord (w.take (k + 1) ++ []) = some ((none, w.take (k + 1)), [].drop 1) :=
        nextWord_bare hfits (by simp)
      rw [List.append_nil, List.drop_nil] at hnext
      refine ⟨none, w.take (k + 1), h.unique (.cons hnext (.nil rfl)), fun heq => ?_⟩
      have hlen := congrArg List.length heq
      rw [List.length_take] at hlen
      omega
    | @quoted q _ hw =>
      obtain ⟨hquote, hout⟩ := hw
      have hkw : k ≤ w.length := by
        simp only [List.length_cons, List.length_append, List.length_nil] at hk
        omega
      have hcut : (q :: (w ++ [q])).take (k + 1) = q :: w.take k := by
        rw [List.take_succ_cons, List.take_append_of_le_length hkw]
      have hstay : ∀ c ∈ w.take k, decide (c ≠ q) = true := by
        intro c hc
        exact decide_eq_true fun heq => hout (heq ▸ List.mem_of_mem_take hc)
      have hsep : x.sep q = false := x.sep_quote q hquote
      have hnext : x.nextWord (q :: w.take k) = some ((some q, w.take k), []) := by
        simp only [nextWord, List.dropWhile_cons, hsep, hquote, Bool.false_eq_true, if_false,
          if_true]
        rw [List.takeWhile_eq_self_iff.mpr hstay, List.dropWhile_eq_nil_iff.mpr hstay]
        rfl
      rw [hcut] at h
      refine ⟨some q, w.take k, h.unique (.cons hnext (.nil rfl)), fun heq => ?_⟩
      have hlast : (q :: (w ++ [q])).getLast (List.cons_ne_nil _ _) = q := by simp
      have hall : k = w.length := by
        have hlen := congrArg List.length heq
        rw [List.length_take] at hlen
        omega
      rw [hlast, hall, List.drop_succ_cons, List.drop_left]
      exact ⟨rfl, hquote⟩

/-- A beginning that has all the words lacks separators, or a closing quote. -/
theorem TypedLine.missing {ws : List (List α)} {line : List α} (h : x.TypedLine ws line) {n : Nat}
    {ws' : List (Option α × List α)} (hsplit : x.Split (line.take n) ws')
    (hsame : ws'.map Prod.snd = ws) :
    (∀ c ∈ line.drop n, x.sep c = true) ∨
      ∃ q post, x.quote q = true ∧ (∀ c ∈ post, x.sep c = true) ∧ line.drop n = q :: post := by
  induction h generalizing n ws' with
  | nil hline => exact .inl fun c hc => hline c (List.mem_of_mem_drop hc)
  | @cons pre w t rest ws hpre ht hrest hws ih =>
    by_cases hle : pre.length + t.length ≤ n
    · -- the whole word is there
      obtain ⟨k, rfl⟩ := Nat.exists_eq_add_of_le hle
      obtain ⟨ws'', hws''⟩ := exists_split x (rest.take k)
      obtain ⟨q, hword⟩ := ht.split (head_take hrest k) hws''
      rw [take_behind, split_blank hpre] at hsplit
      rw [hsplit.unique hword, List.map_cons, List.cons.injEq] at hsame
      rw [drop_behind]
      exact ih hws'' hsame.2
    · by_cases hin : n ≤ pre.length
      · -- not even its first byte is
        rw [List.take_append_of_le_length hin] at hsplit
        have hnone := hsplit.unique
          (split_nil_iff.mpr fun c hc => hpre c (List.mem_of_mem_take hc))
        rw [hnone] at hsame
        cases hsame
      · obtain ⟨k, rfl⟩ := Nat.exists_eq_add_of_le (Nat.le_of_not_le hin)
        have hk : k < t.length := by omega
        have hcut : (pre ++ (t ++ rest)).take (pre.length + k) = pre ++ t.take k := by
          rw [List.take_length_add_append, List.take_append_of_le_length (Nat.le_of_lt hk)]
        have hgone : (pre ++ (t ++ rest)).drop (pre.length + k) = t.drop k ++ rest := by
          rw [List.drop_length_add_append, List.drop_append_of_le_length (Nat.le_of_lt hk)]
        rw [hcut, split_blank hpre] at hsplit
        -- the word is cut: it can only be whole if the cut is in front of the closing quote
        rcases ht.split_take hk hsplit with ⟨rfl, -⟩ | ⟨q, v, rfl, hlast⟩
        · cases hsame
        · rw [List.map_cons, List.map_nil, List.cons.injEq] at hsame
          obtain ⟨hv, rfl⟩ := hsame
          obtain ⟨hdrop, hquote⟩ := hlast hv
          cases hws with
          | nil hblank =>
            right
            exact ⟨_, rest, hquote, hblank, by rw [hgone, hdrop]; rfl⟩

/-- A beginning has no more words than the line. -/
theorem TypedLine.length_take_le {ws : List (List α)} {line : List α} (h : x.TypedLine ws line)
    {n : Nat} {ws' : List (Option α × List α)} (hsplit : x.Split (line.take n) ws') :
    ws'.length ≤ ws.length := by
  induction h generalizing n ws' with
  | nil hline =>
    rw [hsplit.unique (split_nil_iff.mpr fun c hc => hline c (List.mem_of_mem_take hc))]
    exact Nat.le_refl _
  | @cons pre w t rest ws hpre ht hrest hws ih =>
    by_cases hle : pre.length + t.length ≤ n
    · obtain ⟨k, rfl⟩ := Nat.exists_eq_add_of_le hle
      obtain ⟨ws'', hws''⟩ := exists_split x (rest.take k)
      obtain ⟨q, hword⟩ := ht.split (head_take hrest k) hws''
      rw [take_behind, split_blank hpre] at hsplit
      rw [hsplit.unique hword]
      exact Nat.succ_le_succ (ih hws'')
    · by_cases hin : n ≤ pre.length
      · rw [List.take_append_of_le_length hin] at hsplit
        rw [hsplit.unique (split_nil_iff.mpr fun c hc => hpre c (List.mem_of_mem_take hc))]
        exact Nat.zero_le _
      · obtain ⟨k, rfl⟩ := Nat.exists_eq_add_of_le (Nat.le_of_not_le hin)
        have hk : k < t.length := by omega
        rw [List.take_length_add_append, List.take_append_of_le_length (Nat.le_of_lt hk),
          split_blank hpre] at hsplit
        rcases ht.split_take hk hsplit with ⟨rfl, -⟩ | ⟨q, v, rfl, -⟩
        · exact Nat.zero_le _
        · exact Nat.succ_le_succ (Nat.zero_le _)

end WordSyntax

end ContainerSim.Lib
