import ContainerSim.Lib.Words

/-!
# Words under two syntaxes

Two syntaxes with the same quotes, one of which has more separators. They cut
a line into the same words exactly if none of the additional separators strays,
that is stands outside of quotes: up to the first that does the two readings
are the same, and with it the words hold fewer characters.
-/

namespace ContainerSim.Lib

variable {α : Type*} [DecidableEq α]

/-- Where in a line a character stands. -/
inductive Place (α : Type*) where
  | between
  | bare
  | quoted (q : α)

/-- From the place on, a separator of `y` that is none of `x` stands outside of
quotes. -/
def strays (x y : WordSyntax α) : Place α → List α → Bool
  | _, [] => false
  | .between, c :: p =>
    if x.sep c then strays x y .between p
    else if y.sep c then true
    else if y.quote c then strays x y (.quoted c) p
    else strays x y .bare p
  | .bare, c :: p =>
    if x.sep c then strays x y .between p
    else if y.sep c then true
    else strays x y .bare p
  | .quoted q, c :: p =>
    if c = q then strays x y .between p else strays x y (.quoted q) p

variable {x y : WordSyntax α}

theorem strays_between (p : List α) :
    strays x y .between p =
      match p.dropWhile x.sep with
      | [] => false
      | c :: p =>
        if y.sep c then true
        else if y.quote c then strays x y (.quoted c) p
        else strays x y .bare p := by
  induction p with
  | nil => rfl
  | cons c p ih =>
    rw [strays, List.dropWhile_cons]
    cases hc : x.sep c with
    | true => exact ih
    | false => rfl

theorem strays_quoted (q : α) (p : List α) :
    strays x y (.quoted q) p = strays x y .between ((p.dropWhile (· ≠ q)).drop 1) := by
  induction p with
  | nil => rfl
  | cons c p ih =>
    rw [strays, List.dropWhile_cons]
    by_cases hc : c = q
    · simp [hc]
    · simpa [hc] using ih

theorem strays_bare (hsep : ∀ c, x.sep c = true → y.sep c = true) (p : List α) :
    strays x y .bare p =
      match p.dropWhile (!y.sep ·) with
      | [] => false
      | c :: p => if x.sep c then strays x y .between p else true := by
  induction p with
  | nil => rfl
  | cons c p ih =>
    rw [strays, List.dropWhile_cons]
    cases hx : x.sep c with
    | true => simp [hsep c hx, hx]
    | false =>
      cases hy : y.sep c with
      | true => simp [hx]
      | false => simpa using ih

omit [DecidableEq α] in
/-- A stop of the longer scan is one of the shorter too, if it stops there. -/
theorem takeWhile_eq_of_stop {P Q : α → Bool} {l : List α} (hPQ : ∀ c, Q c = true → P c = true)
    (h : ∀ c ∈ (l.dropWhile Q).head?, P c = false) :
    l.takeWhile P = l.takeWhile Q ∧ l.dropWhile P = l.dropWhile Q := by
  induction l with
  | nil => exact ⟨rfl, rfl⟩
  | cons c l ih =>
    cases hQ : Q c with
    | true =>
      have hP := hPQ c hQ
      rw [List.dropWhile_cons_of_pos hQ] at h
      simp only [List.takeWhile_cons, List.dropWhile_cons, hP, hQ, if_true]
      exact ⟨by rw [(ih h).1], (ih h).2⟩
    | false =>
      have hP : P c = false := h c (by simp [hQ])
      simp [hP, hQ]

section
variable (hquote : ∀ c, x.quote c = y.quote c) (hsep : ∀ c, x.sep c = true → y.sep c = true)
include hquote hsep

/-- Where nothing strays the next word is the same. -/
theorem nextWord_eq_of_strays {p : List α} (h : strays x y .between p = false) :
    x.nextWord p = y.nextWord p ∧
      ∀ w rest, y.nextWord p = some (w, rest) → strays x y .between rest = false := by
  rw [strays_between] at h
  -- a byte that separates in one syntax only does not come between words
  have hskip : p.dropWhile y.sep = p.dropWhile x.sep := by
    refine (takeWhile_eq_of_stop hsep fun c hc => ?_).2
    cases hdrop : p.dropWhile x.sep with
    | nil =>
      rw [hdrop] at hc
      cases hc
    | cons d q =>
      rw [hdrop] at h hc
      obtain rfl := Option.some.inj hc
      by_contra hy
      rw [Bool.not_eq_false] at hy
      simp [hy] at h
  unfold WordSyntax.nextWord
  rw [hskip]
  cases hdrop : p.dropWhile x.sep with
  | nil => exact ⟨rfl, fun w rest hw => by cases hw⟩
  | cons c q =>
    rw [hdrop] at h
    simp only at h ⊢
    rw [hquote c]
    have hy : y.sep c = false := by
      by_contra hy
      rw [Bool.not_eq_false] at hy
      simp [hy] at h
    rw [if_neg (by simp [hy])] at h
    cases hq : y.quote c with
    | true =>
      rw [if_pos hq, strays_quoted] at h
      refine ⟨rfl, fun w rest hw => ?_⟩
      rw [if_pos rfl] at hw
      obtain ⟨-, rfl⟩ := Prod.mk.inj (Option.some.inj hw)
      exact h
    | false =>
      rw [if_neg (by simp [hq]), strays_bare hsep] at h
      have hx : x.sep c = false := by
        by_contra hx
        rw [Bool.not_eq_false] at hx
        rw [hsep c hx] at hy
        cases hy
      -- nor does a bare word end at one
      have hstop : ∀ d ∈ ((c :: q).dropWhile (!y.sep ·)).head?, (!x.sep d) = false := by
        intro d hd
        rw [List.dropWhile_cons_of_pos (by simp [hy])] at hd
        cases hrest : q.dropWhile (!y.sep ·) with
        | nil =>
          rw [hrest] at hd
          cases hd
        | cons e rest =>
          rw [hrest] at h hd
          obtain rfl := Option.some.inj hd
          by_contra hnot
          simp at hnot
          simp [hnot] at h
      have hsame := takeWhile_eq_of_stop (P := (!x.sep ·)) (Q := (!y.sep ·)) (fun d hd => by
        by_contra hnot
        simp at hnot hd
        rw [hsep d hnot] at hd
        cases hd) hstop
      simp only [Bool.false_eq_true, if_false]
      rw [hsame.1, hsame.2]
      refine ⟨rfl, fun w rest hw => ?_⟩
      obtain ⟨-, rfl⟩ := Prod.mk.inj (Option.some.inj hw)
      rw [List.dropWhile_cons_of_pos (by simp [hy])]
      cases hrest : q.dropWhile (!y.sep ·) with
      | nil => rfl
      | cons e rest =>
        rw [hrest] at h
        simp only at h
        split at h
        · exact h
        · cases h

/-- So all words are. -/
theorem split_iff_of_strays {p : List α} {ws : List (Option α × List α)}
    (h : strays x y .between p = false) : x.Split p ws ↔ y.Split p ws := by
  constructor
  · intro hsplit
    induction hsplit with
    | nil hnone => exact .nil ((nextWord_eq_of_strays hquote hsep h).1.symm.trans hnone)
    | cons hword _ ih =>
      obtain ⟨hsame, hrest⟩ := nextWord_eq_of_strays hquote hsep h
      rw [hsame] at hword
      exact .cons hword (ih (hrest _ _ hword))
  · intro hsplit
    induction hsplit with
    | nil hnone => exact .nil ((nextWord_eq_of_strays hquote hsep h).1.trans hnone)
    | cons hword _ ih =>
      obtain ⟨hsame, hrest⟩ := nextWord_eq_of_strays hquote hsep h
      exact .cons (hsame.trans hword) (ih (hrest _ _ hword))

end

/-! ## Counting the additional separators -/

/-- A separator of `y` that is none of `x`. -/
def extra (x y : WordSyntax α) (c : α) : Bool := y.sep c && !x.sep c

/-- To `x` they all are characters of words. -/
theorem WordSyntax.Split.countP_extra (hquote : ∀ c, x.quote c = y.quote c) {p : List α}
    {ws : List (Option α × List α)} (h : x.Split p ws) :
    p.countP (extra x y) = (ws.map fun w => w.2.countP (extra x y)).sum := by
  have hsepZero : ∀ l : List α, (∀ c ∈ l, x.sep c = true) → l.countP (extra x y) = 0 := by
    intro l hl
    rw [List.countP_eq_zero]
    intro c hc
    simp [extra, hl c hc]
  have hquoteZero : ∀ q, x.quote q = true → extra x y q = false := by
    intro q hq
    rw [hquote] at hq
    simp [extra, y.sep_quote q hq]
  induction h with
  | nil hnone => exact hsepZero _ (nextWord_eq_none.mp hnone)
  | cons hword _ ih =>
    rw [List.map_cons, List.sum_cons, ← ih]
    cases word_of_nextWord hword with
    | bare hpre _ _ _ hpost hp =>
      rw [hp]
      simp only [List.countP_append, hsepZero _ hpre, hsepZero _ hpost, Nat.zero_add]
    | quoted hpre hq _ hp =>
      rw [hp]
      simp [List.countP_append, hsepZero _ hpre, hquoteZero _ hq]
    | «open» hpre hq _ hp =>
      rw [hp]
      simp [List.countP_append, hsepZero _ hpre, hquoteZero _ hq]

omit [DecidableEq α] in
/-- Without one of them among the separators, both syntaxes skip the same. -/
theorem dropWhile_eq_of_no_extra (hsep : ∀ c, x.sep c = true → y.sep c = true) {p : List α}
    (h : (p.takeWhile y.sep).countP (extra x y) = 0) : p.dropWhile x.sep = p.dropWhile y.sep := by
  have hpre : ∀ c ∈ p.takeWhile y.sep, x.sep c = true := by
    intro c hc
    have hnot := List.countP_eq_zero.mp h c hc
    simpa [extra, List.mem_takeWhile_imp hc] using hnot
  conv_lhs => rw [← @List.takeWhile_append_dropWhile _ y.sep p]
  rw [List.dropWhile_append_of_pos hpre]
  cases hdrop : p.dropWhile y.sep with
  | nil => rfl
  | cons c q =>
    have hy := of_dropWhile_cons hdrop
    refine List.dropWhile_cons_of_neg fun hx => ?_
    rw [hsep c hx] at hy
    cases hy

/-- A word of `y` and the rest hold fewer of them than the line if one strays in
front of the rest. -/
theorem nextWord_countP_extra (hsep : ∀ c, x.sep c = true → y.sep c = true)
    {p rest : List α} {w : Option α × List α} (h : y.nextWord p = some (w, rest)) :
    w.2.countP (extra x y) + rest.countP (extra x y) ≤ p.countP (extra x y) ∧
      (w.2.countP (extra x y) + rest.countP (extra x y) = p.countP (extra x y) →
        strays x y .between p = strays x y .between rest) := by
  have hp := congrArg (List.countP (extra x y)) (@List.takeWhile_append_dropWhile _ y.sep p)
  rw [List.countP_append] at hp
  have hskip : (p.takeWhile y.sep).countP (extra x y) = 0 →
      p.dropWhile x.sep = p.dropWhile y.sep := dropWhile_eq_of_no_extra hsep
  unfold WordSyntax.nextWord at h
  rw [strays_between]
  cases hdrop : p.dropWhile y.sep with
  | nil =>
    rw [hdrop] at h
    cases h
  | cons c q =>
    have hy : y.sep c = false := of_dropWhile_cons hdrop
    rw [hdrop] at h hp hskip
    simp only at h
    have hc : extra x y c = false := by simp [extra, hy]
    rw [List.countP_cons_of_neg (by simp [hc])] at hp
    split at h
    · -- in quotes: the closing one is no separator
      rename_i hq
      obtain ⟨rfl, rfl⟩ := Prod.mk.inj (Option.some.inj h)
      have hcut := congrArg (List.countP (extra x y))
        (@List.takeWhile_append_dropWhile _ (· ≠ c) q)
      rw [List.countP_append] at hcut
      have hrest : ((q.dropWhile (· ≠ c)).drop 1).countP (extra x y) =
          (q.dropWhile (· ≠ c)).countP (extra x y) := by
        cases hstop : q.dropWhile (· ≠ c) with
        | nil => rfl
        | cons d rest =>
          have hd : d = c := by simpa using of_dropWhile_cons hstop
          simp [hd, hc]
      simp only [hrest]
      refine ⟨by omega, fun heq => ?_⟩
      rw [hskip (by omega)]
      simp [hy, hq, strays_quoted]
    · rename_i hq
      obtain ⟨rfl, rfl⟩ := Prod.mk.inj (Option.some.inj h)
      simp only [List.takeWhile_cons, List.dropWhile_cons, hy, Bool.not_false, if_true]
      have hcut := congrArg (List.countP (extra x y))
        (@List.takeWhile_append_dropWhile _ (!y.sep ·) q)
      rw [List.countP_append] at hcut
      rw [List.countP_cons_of_neg (by simp [hc])]
      have hle : ((q.dropWhile (!y.sep ·)).drop 1).countP (extra x y) ≤
          (q.dropWhile (!y.sep ·)).countP (extra x y) := (List.drop_sublist _ _).countP_le
      refine ⟨by omega, fun heq => ?_⟩
      rw [hskip (by omega)]
      simp only [hy, hq]
      rw [if_neg (by simp), if_neg (by simp), strays_bare hsep]
      cases hstop : q.dropWhile (!y.sep ·) with
      | nil => rfl
      | cons d rest =>
        have hd : y.sep d = true := by simpa using of_dropWhile_cons hstop
        cases hx : x.sep d with
        | true => simp [hx]
        | false =>
          -- the separator that ended the word is an additional one
          have hextra : extra x y d = true := by simp [extra, hd, hx]
          rw [hstop] at hcut heq
          simp only [List.drop_one, List.tail_cons, List.countP_cons_of_pos hextra] at hcut heq
          omega

theorem WordSyntax.Split.strays (hsep : ∀ c, x.sep c = true → y.sep c = true) {p : List α}
    {ws : List (Option α × List α)} (h : y.Split p ws) :
    (ws.map fun w => w.2.countP (extra x y)).sum ≤ p.countP (extra x y) ∧
      ((ws.map fun w => w.2.countP (extra x y)).sum = p.countP (extra x y) →
        Lib.strays x y .between p = false) := by
  induction h with
  | @nil p hnone =>
    refine ⟨Nat.zero_le _, fun hzero => ?_⟩
    have hx : ∀ c ∈ p, x.sep c = true := by
      intro c hc
      have hnot := List.countP_eq_zero.mp hzero.symm c hc
      simpa [extra, nextWord_eq_none.mp hnone c hc] using hnot
    rw [strays_between, List.dropWhile_eq_nil_iff.mpr hx]
  | cons hword _ ih =>
    obtain ⟨hle, heq⟩ := nextWord_countP_extra hsep hword
    rw [List.map_cons, List.sum_cons]
    refine ⟨by omega, fun hsum => ?_⟩
    rw [heq (by omega)]
    exact ih.2 (by omega)

/-- Both syntaxes cut the line into the same words exactly if no additional
separator strays. -/
theorem words_eq_iff (hquote : ∀ c, x.quote c = y.quote c)
    (hsep : ∀ c, x.sep c = true → y.sep c = true) {p : List α}
    {ws ws' : List (Option α × List α)} (h : x.Split p ws) (h' : y.Split p ws') :
    ws.map Prod.snd = ws'.map Prod.snd ↔ strays x y .between p = false := by
  constructor
  · intro heq
    refine (h'.strays hsep).2 ?_
    have hcount := h.countP_extra hquote
    have hmap : ∀ l : List (Option α × List α), (l.map fun w => w.2.countP (extra x y)) =
        (l.map Prod.snd).map (List.countP (extra x y)) := fun l => by rw [List.map_map]; rfl
    rw [hmap, heq, ← hmap] at hcount
    exact hcount.symm
  · intro hnone
    have hsame := (split_iff_of_strays hquote hsep hnone).mp h
    rw [hsame.unique h']

/-- Every line has words. -/
theorem exists_split (x : WordSyntax α) (p : List α) : ∃ ws, x.Split p ws := by
  induction hn : p.length using Nat.strong_induction_on generalizing p with
  | _ n ih =>
    cases hword : x.nextWord p with
    | none => exact ⟨[], .nil hword⟩
    | some word =>
      obtain ⟨w, rest⟩ := word
      obtain ⟨ws, hws⟩ := ih rest.length (hn ▸ WordSyntax.length_of_nextWord hword) rest rfl
      exact ⟨w :: ws, .cons hword hws⟩

end ContainerSim.Lib
