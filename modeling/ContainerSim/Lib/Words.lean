import Mathlib.Data.List.Basic
import Mathlib.Data.List.TakeWhile
import Mathlib.Algebra.BigOperators.Group.List.Basic
import Mathlib.Algebra.Order.Ring.Nat
import Mathlib.Tactic.Common

/-!
# Words of a line, bare or in quotes

A word starts after separators. One that starts with a quote runs to the next
such quote or the end of the line, any other one to the next separator or the
end. `joined` writes a list of words with one separator between them, and in
quotes those that hold the separator. A line made so is cut up into the same
words again only if every word is safe by itself (`split_joined_iff`): what is
quoted is known by counting the quotes of the line.
-/

namespace ContainerSim.Lib

/-- Where a scan stops. -/
theorem of_dropWhile_cons {α : Type*} {P : α → Bool} {l q : List α} {c : α}
    (h : l.dropWhile P = c :: q) : P c = false := by
  have hhead := List.head?_dropWhile_not P l
  rw [h] at hhead
  simpa using hhead

variable {α : Type*} [DecidableEq α]

/-- What separates words and which marks quote them. -/
structure WordSyntax (α : Type*) where
  sep : α → Bool
  quote : α → Bool
  sep_quote : ∀ c, quote c = true → sep c = false

namespace WordSyntax

variable (x : WordSyntax α)

/-- The next word, the quote it stood in, and the rest of the line. -/
def nextWord (p : List α) : Option ((Option α × List α) × List α) :=
  match p.dropWhile x.sep with
  | [] => none
  | c :: p =>
    if x.quote c then
      some ((some c, p.takeWhile (· ≠ c)), (p.dropWhile (· ≠ c)).drop 1)
    else
      some ((none, (c :: p).takeWhile (!x.sep ·)), ((c :: p).dropWhile (!x.sep ·)).drop 1)

/-- All words of a line. -/
inductive Split : List α → List (Option α × List α) → Prop where
  | nil {p} : x.nextWord p = none → Split p []
  | cons {p w rest ws} : x.nextWord p = some (w, rest) → Split rest ws → Split p (w :: ws)

variable {x}

theorem nextWord_eq_none {p : List α} :
    x.nextWord p = none ↔ ∀ c ∈ p, x.sep c = true := by
  rw [← List.dropWhile_eq_nil_iff, nextWord]
  split
  · rename_i h
    simp [h]
  · rename_i h
    rw [h]
    split <;> simp

/-- What a word is made of, and where it stood. -/
inductive Word (x : WordSyntax α) (p : List α) : Option α × List α → List α → Prop where
  | bare {pre w post rest} : (∀ c ∈ pre, x.sep c = true) → w ≠ [] → (∀ c ∈ w, x.sep c = false) →
      (∀ c ∈ w.head?, x.quote c = false) → (∀ c ∈ post, x.sep c = true) →
      p = pre ++ (w ++ (post ++ rest)) → Word x p (none, w) rest
  | quoted {pre q w rest} : (∀ c ∈ pre, x.sep c = true) → x.quote q = true → q ∉ w →
      p = pre ++ q :: (w ++ q :: rest) → Word x p (some q, w) rest
  | open {pre q w} : (∀ c ∈ pre, x.sep c = true) → x.quote q = true → q ∉ w →
      p = pre ++ q :: w → Word x p (some q, w) []

theorem word_of_nextWord {p rest : List α} {w : Option α × List α}
    (h : x.nextWord p = some (w, rest)) : Word x p w rest := by
  have hpre : ∀ c ∈ p.takeWhile x.sep, x.sep c = true := fun c hc => List.mem_takeWhile_imp hc
  have hp : p = p.takeWhile x.sep ++ p.dropWhile x.sep := List.takeWhile_append_dropWhile.symm
  unfold nextWord at h
  split at h
  · cases h
  · rename_i c p' hdrop
    rw [hdrop] at hp
    split at h
    · -- in quotes, up to the next one of the same kind or the end
      rename_i hquote
      obtain ⟨rfl, rfl⟩ := Prod.mk.inj (Option.some.inj h)
      have hw : c ∉ p'.takeWhile (· ≠ c) := fun hc => by simpa using List.mem_takeWhile_imp hc
      have hp' : p' = p'.takeWhile (· ≠ c) ++ p'.dropWhile (· ≠ c) :=
        List.takeWhile_append_dropWhile.symm
      cases hrest : p'.dropWhile (· ≠ c) with
      | nil =>
        rw [hrest, List.append_nil] at hp'
        rw [← hp'] at hw ⊢
        exact .open hpre hquote hw hp
      | cons d rest =>
        -- the scan stops at a quote of the same kind
        have hd : d = c := by simpa using of_dropWhile_cons hrest
        rw [hrest, hd] at hp'
        refine .quoted hpre hquote hw ?_
        rw [List.drop_one, List.tail_cons, ← hp']
        exact hp
    · -- bare, up to the next separator or the end
      rename_i hquote
      obtain ⟨rfl, rfl⟩ := Prod.mk.inj (Option.some.inj h)
      have hsep : x.sep c = false := of_dropWhile_cons hdrop
      have hw : ∀ d ∈ (c :: p').takeWhile (!x.sep ·), x.sep d = false := fun d hd => by
        simpa using List.mem_takeWhile_imp hd
      have hsplit : c :: p' = (c :: p').takeWhile (!x.sep ·) ++ (c :: p').dropWhile (!x.sep ·) :=
        List.takeWhile_append_dropWhile.symm
      have hne : (c :: p').takeWhile (!x.sep ·) ≠ [] := by
        simp [hsep]
      have hhead : ∀ d ∈ ((c :: p').takeWhile (!x.sep ·)).head?, x.quote d = false := by
        simp [hsep, hquote]
      cases hrest : (c :: p').dropWhile (!x.sep ·) with
      | nil =>
        rw [hrest] at hsplit
        refine .bare hpre hne hw hhead (List.forall_mem_nil _) ?_
        rw [List.nil_append, List.drop_nil, ← hsplit]
        exact hp
      | cons d rest =>
        have hd : x.sep d = true := by simpa using of_dropWhile_cons hrest
        rw [hrest] at hsplit
        refine .bare hpre hne hw hhead (List.forall_mem_singleton.mpr hd) ?_
        rw [List.drop_one, List.tail_cons, List.singleton_append, ← hsplit]
        exact hp

theorem Split.unique {p : List α} {ws ws' : List (Option α × List α)} (h : x.Split p ws)
    (h' : x.Split p ws') : ws = ws' := by
  induction h generalizing ws' with
  | nil hnone =>
    cases h' with
    | nil => rfl
    | cons hword _ => rw [hnone] at hword; cases hword
  | cons hword _ ih =>
    cases h' with
    | nil hnone => rw [hnone] at hword; cases hword
    | cons hword' hrest' =>
      obtain ⟨rfl, rfl⟩ := Prod.mk.inj (Option.some.inj (hword.symm.trans hword'))
      rw [ih hrest']

/-! ## Counting quotes -/

theorem count_of_sep {pre : List α} (h : ∀ c ∈ pre, x.sep c = true) {c : α}
    (hc : x.quote c = true) : pre.count c = 0 := by
  rw [List.count_eq_zero]
  intro hmem
  have hsep := h c hmem
  rw [x.sep_quote c hc] at hsep
  cases hsep

/-- The quotes of a line are those inside its words and the two around each
word in quotes; the last one may be missing. -/
theorem Split.count {p : List α} {ws : List (Option α × List α)} (h : x.Split p ws) {c : α}
    (hc : x.quote c = true) :
    ∃ missing ≤ 1, p.count c + missing =
      (ws.map fun w => w.2.count c).sum + 2 * ws.countP (·.1 = some c) := by
  induction h with
  | nil hnone => exact ⟨0, by omega, by simp [count_of_sep (nextWord_eq_none.mp hnone) hc]⟩
  | @cons p w rest ws hword hrest ih =>
    obtain ⟨missing, hle, heq⟩ := ih
    rw [List.map_cons, List.sum_cons, List.countP_cons]
    cases word_of_nextWord hword with
    | bare hpre _ _ _ hpost hp =>
      refine ⟨missing, hle, ?_⟩
      simp only [hp, List.count_append, count_of_sep hpre hc, count_of_sep hpost hc,
        reduceCtorEq, decide_false, Bool.false_eq_true, if_false]
      omega
    | @quoted pre q w _ hpre hq hw hp =>
      refine ⟨missing, hle, ?_⟩
      by_cases hqc : q = c
      · simp only [hp, hqc, List.count_append, List.count_cons, count_of_sep hpre hc, beq_self_eq_true,
          decide_true, if_true]
        omega
      · have hbeq : (q == c) = false := beq_false_of_ne hqc
        simp only [hp, hqc, hbeq, List.count_append, List.count_cons, count_of_sep hpre hc,
          Option.some.injEq, decide_false, Bool.false_eq_true, if_false]
        omega
    | @«open» pre q w hpre hq hw hp =>
      -- nothing is left, so this is the word that lacks its closing quote
      have hlast : ws = [] := hrest.unique (.nil rfl)
      subst hlast
      by_cases hqc : q = c
      · rw [hqc] at hw hp
        have hnone : w.count c = 0 := List.count_eq_zero.mpr hw
        refine ⟨1, by omega, ?_⟩
        simp [hp, hqc, count_of_sep hpre hc, hnone]
      · refine ⟨0, by omega, ?_⟩
        simp [hp, hqc, count_of_sep hpre hc]

/-- A bare word could be read bare, a quoted one does not hold its quote. -/
def Fits (x : WordSyntax α) : Option α × List α → Prop
  | (none, w) => w ≠ [] ∧ (∀ c ∈ w, x.sep c = false) ∧ ∀ c ∈ w.head?, x.quote c = false
  | (some q, w) => x.quote q = true ∧ q ∉ w

theorem Split.fits {p : List α} {ws : List (Option α × List α)} (h : x.Split p ws) :
    ∀ w ∈ ws, x.Fits w := by
  induction h with
  | nil => exact List.forall_mem_nil _
  | cons hword _ ih =>
    refine List.forall_mem_cons.mpr ⟨?_, ih⟩
    cases word_of_nextWord hword with
    | bare _ hne hsep hhead _ _ => exact ⟨hne, hsep, hhead⟩
    | quoted _ hq hw _ => exact ⟨hq, hw⟩
    | «open» _ hq hw _ => exact ⟨hq, hw⟩

/-- A word takes something of the text. -/
theorem length_of_nextWord {p rest : List α} {w : Option α × List α}
    (h : x.nextWord p = some (w, rest)) : rest.length < p.length := by
  cases word_of_nextWord h with
  | bare _ hne _ _ _ hp =>
    have hw := List.length_pos_iff.mpr hne
    rw [hp]
    simp only [List.length_append]
    omega
  | quoted _ _ _ hp =>
    rw [hp]
    simp only [List.length_append, List.length_cons]
    omega
  | «open» _ _ _ hp =>
    rw [hp]
    simp

/-- A word and what ends it are taken from the text; nothing has to end the last one. -/
theorem nextWord_length {p rest : List α} {w : Option α × List α}
    (h : x.nextWord p = some (w, rest)) :
    w.2.length + 1 + rest.length ≤ p.length ∨ rest = [] ∧ w.2.length ≤ p.length := by
  have hdrop := (List.dropWhile_sublist x.sep (l := p)).length_le
  unfold nextWord at h
  split at h
  · cases h
  · rename_i c p' hp'
    rw [hp', List.length_cons] at hdrop
    split at h
    · obtain ⟨rfl, rfl⟩ := Prod.mk.inj (Option.some.inj h)
      have hsum := congrArg List.length (List.takeWhile_append_dropWhile (p := (· ≠ c)) (l := p'))
      rw [List.length_append] at hsum
      left
      rw [List.length_drop]
      show (p'.takeWhile (· ≠ c)).length + 1 + _ ≤ _
      omega
    · obtain ⟨rfl, rfl⟩ := Prod.mk.inj (Option.some.inj h)
      have hsum := congrArg List.length
        (List.takeWhile_append_dropWhile (p := (!x.sep ·)) (l := c :: p'))
      rw [List.length_append, List.length_cons] at hsum
      -- the word ends at the end of the text or in front of a separator
      cases hend : (c :: p').dropWhile (!x.sep ·) with
      | nil =>
        right
        refine ⟨List.drop_nil, ?_⟩
        show ((c :: p').takeWhile (!x.sep ·)).length ≤ _
        omega
      | cons d rest =>
        left
        rw [hend, List.length_cons] at hsum
        rw [List.drop_one, List.tail_cons]
        show ((c :: p').takeWhile (!x.sep ·)).length + 1 + _ ≤ _
        omega

/-- There is room in a text for its words and something between each two of them. -/
theorem Split.length_le {p : List α} {ws : List (Option α × List α)} (h : x.Split p ws) :
    (ws.map fun w => w.2.length + 1).sum ≤ p.length + 1 := by
  induction h with
  | nil => exact Nat.zero_le _
  | @cons p w rest ws hword hrest ih =>
    rw [List.map_cons, List.sum_cons]
    rcases nextWord_length hword with hle | ⟨rfl, hle⟩
    · omega
    · have hlast : ws = [] := hrest.unique (.nil rfl)
      rw [hlast, List.map_nil, List.sum_nil]
      omega

/-- The words of a text behind those before it; `none` if there are more than `max`. -/
def collect (x : WordSyntax α) (max : Nat) : Nat → List α → List (List α) → Option (List (List α))
  | 0, _, words => some words
  | fuel + 1, p, words =>
    match x.nextWord p with
    | none => some words
    | some (w, rest) =>
      if words.length ≥ max then none else collect x max fuel rest (words ++ [w.2])

theorem split_of_collect {max fuel : Nat} {p : List α} {words words' : List (List α)}
    (hfuel : p.length ≤ fuel) (h : x.collect max fuel p words = some words') :
    ∃ ws, x.Split p ws ∧ words' = words ++ ws.map Prod.snd := by
  fun_induction collect x max fuel p words with
  | case1 p words =>
    cases h
    rw [List.length_eq_zero_iff.mp (Nat.le_zero.mp hfuel)]
    exact ⟨[], .nil rfl, (List.append_nil _).symm⟩
  | case2 fuel p words hnone =>
    cases h
    exact ⟨[], .nil hnone, (List.append_nil _).symm⟩
  | case3 => cases h
  | case4 fuel p words word rest hword hroom ih =>
    have hlt := length_of_nextWord hword
    obtain ⟨ws, hsplit, rfl⟩ := ih (by omega) h
    refine ⟨word :: ws, .cons hword hsplit, ?_⟩
    rw [List.map_cons, List.append_assoc, List.singleton_append]

theorem Split.collect {max fuel : Nat} {p : List α} {words : List (List α)}
    {ws : List (Option α × List α)} (h : x.Split p ws) (hfuel : p.length ≤ fuel)
    (hroom : words.length + ws.length ≤ max) :
    x.collect max fuel p words = some (words ++ ws.map Prod.snd) := by
  -- the fuel is the length of what is left, and every word takes some of it
  induction h generalizing fuel words with
  | @nil p hnone =>
    rw [List.map_nil, List.append_nil]
    cases fuel with
    | zero => rfl
    | succ fuel => rw [WordSyntax.collect, hnone]
  | @cons p word rest ws hword hrest ih =>
    have hlt := length_of_nextWord hword
    rw [List.length_cons] at hroom
    cases fuel with
    | zero => omega
    | succ fuel =>
      have hnext : (words ++ [word.2]).length + ws.length ≤ max := by
        simp only [List.length_append, List.length_singleton]
        omega
      rw [WordSyntax.collect, hword]
      simp only
      rw [if_neg (by omega), ih (by omega) hnext]
      rw [List.map_cons, List.append_assoc, List.singleton_append]

theorem collect_length {max fuel : Nat} {p : List α} {words words' : List (List α)}
    (hroom : words.length ≤ max) (h : x.collect max fuel p words = some words') :
    words'.length ≤ max := by
  fun_induction collect x max fuel p words with
  | case1 | case2 =>
    cases h
    exact hroom
  | case3 => cases h
  | case4 fuel p words word rest hword hless ih =>
    refine ih ?_ h
    rw [List.length_append, List.length_singleton]
    omega

/-- The words of a line, if there is room for them. -/
theorem Split.collect_eq {max : Nat} {p : List α} {ws : List (Option α × List α)}
    (h : x.Split p ws) :
    x.collect max p.length p [] = if ws.length ≤ max then some (ws.map Prod.snd) else none := by
  split
  · rename_i hroom
    rw [h.collect (le_refl _) (by simpa using hroom), List.nil_append]
  · rename_i hroom
    cases hwords : x.collect max p.length p [] with
    | none => rfl
    | some words =>
      obtain ⟨ws', hsplit, rfl⟩ := split_of_collect (le_refl _) hwords
      have hlen := collect_length (Nat.zero_le _) hwords
      rw [h.unique hsplit] at hroom
      rw [List.nil_append, List.length_map] at hlen
      omega

/-- A bare word at the front of a text. -/
theorem nextWord_bare {w rest : List α} (hw : x.Fits (none, w))
    (hrest : ∀ c ∈ rest.head?, x.sep c = true) :
    x.nextWord (w ++ rest) = some ((none, w), rest.drop 1) := by
  obtain ⟨hne, hsep, hhead⟩ := hw
  have hbare : ∀ c ∈ w, (!x.sep c) = true := fun c hc => by rw [hsep c hc]; rfl
  obtain ⟨c, w, rfl⟩ := List.exists_cons_of_ne_nil hne
  have hcsep : x.sep c = false := hsep c List.mem_cons_self
  have hcquote : x.quote c = false := hhead c rfl
  have hstop : rest.takeWhile (!x.sep ·) = [] ∧ rest.dropWhile (!x.sep ·) = rest := by
    cases rest with
    | nil => exact ⟨rfl, rfl⟩
    | cons d rest => simp [hrest d rfl]
  have hcut : x.nextWord ((c :: w) ++ rest) =
      some ((none, ((c :: w) ++ rest).takeWhile (!x.sep ·)),
        (((c :: w) ++ rest).dropWhile (!x.sep ·)).drop 1) := by
    simp only [nextWord, List.cons_append, List.dropWhile_cons, hcsep, hcquote,
      Bool.false_eq_true, if_false]
  rw [List.takeWhile_append_of_pos hbare, List.dropWhile_append_of_pos hbare, hstop.1, hstop.2,
    List.append_nil] at hcut
  exact hcut

end WordSyntax

/-! ## Joining words -/

/-- `w`, in quotes if it holds the separator. -/
def quotedWord (s q : α) (w : List α) : List α := if s ∈ w then q :: (w ++ [q]) else w

/-- The words one after the other, with one separator between two. -/
def joined (s q : α) : List (List α) → List α
  | [] => []
  | [w] => quotedWord s q w
  | w :: ws => quotedWord s q w ++ s :: joined s q ws

/-- The word comes out of a joined line as it went in. -/
def SafeWord (x : WordSyntax α) (s q : α) (w : List α) : Prop :=
  (s ∈ w ∧ q ∉ w) ∨ (s ∉ w ∧ w ≠ [] ∧ ∀ c ∈ w.head?, x.quote c = false)

instance (x : WordSyntax α) (s q : α) (w : List α) : Decidable (SafeWord x s q w) := by
  unfold SafeWord
  infer_instance

theorem count_quotedWord {s q c : α} (w : List α) :
    (quotedWord s q w).count c = w.count c + if c = q ∧ s ∈ w then 2 else 0 := by
  unfold quotedWord
  by_cases hs : s ∈ w
  · by_cases hcq : c = q
    · simp [hs, hcq]
    · simp [hs, hcq, Ne.symm hcq]
  · simp [hs]

theorem count_joined {s q c : α} (hsc : c ≠ s) (ws : List (List α)) :
    (joined s q ws).count c = (ws.map (List.count c)).sum +
      if c = q then 2 * ws.countP (s ∈ ·) else 0 := by
  induction ws with
  | nil => simp [joined]
  | cons w ws ih =>
    have hjoin : (joined s q (w :: ws)).count c =
        (quotedWord s q w).count c + (joined s q ws).count c := by
      cases ws with
      | nil => simp [joined]
      | cons w' ws => simp [joined, Ne.symm hsc]
    rw [hjoin, ih, count_quotedWord, List.map_cons, List.sum_cons, List.countP_cons]
    by_cases hcq : c = q <;> by_cases hs : s ∈ w <;> simp [hcq, hs] <;> omega

/-- Where more cannot hold, what holds at least as often holds no oftener. -/
theorem iff_of_countP_eq {β : Type*} {p q : β → Bool} {l : List β}
    (himp : ∀ y ∈ l, p y = true → q y = true) (h : l.countP q = l.countP p) :
    ∀ y ∈ l, q y = true → p y = true := by
  induction l with
  | nil => exact List.forall_mem_nil _
  | cons a l ih =>
    rw [List.forall_mem_cons] at himp
    have hle := List.countP_mono_left himp.2
    rw [List.countP_cons, List.countP_cons] at h
    refine List.forall_mem_cons.mpr ⟨fun hq => ?_, ih himp.2 ?_⟩
    · by_contra hp
      rw [if_pos hq, if_neg hp] at h
      omega
    · split at h <;> split at h <;> first | omega | exact absurd (himp.1 ‹_›) ‹_›

section
variable {x : WordSyntax α} {s q : α} (hsep : ∀ c, x.sep c = true ↔ c = s)
  (hquote : x.quote q = true)
include hsep hquote

omit [DecidableEq α] hquote in
theorem quote_ne_sep {c : α} (hc : x.quote c = true) : c ≠ s := by
  intro heq
  have hfalse := x.sep_quote c hc
  rw [(hsep c).mpr heq] at hfalse
  cases hfalse

/-- Only words with the separator are read in quotes, and in quotes `q`. -/
theorem WordSyntax.Split.joined_fits {ws : List (Option α × List α)}
    (h : x.Split (joined s q (ws.map Prod.snd)) ws) :
    ∀ w ∈ ws, SafeWord x s q w.2 := by
  -- the joined line has two quotes for each word with a separator, so as many words
  -- are read in quotes; a single missing one would make the count odd
  have hcount : ∀ c, x.quote c = true →
      (ws.countP (·.1 = some c)) = if c = q then ws.countP (s ∈ ·.2) else 0 := by
    intro c hc
    obtain ⟨missing, hle, heq⟩ := h.count hc
    rw [count_joined (quote_ne_sep hsep hc), List.map_map, List.countP_map] at heq
    have hsum : (ws.map (List.count c ∘ Prod.snd)).sum = (ws.map fun w => w.2.count c).sum := rfl
    have hspace : ws.countP ((fun w => decide (s ∈ w)) ∘ Prod.snd) = ws.countP (s ∈ ·.2) := rfl
    rw [hsum, hspace] at heq
    split at heq <;> rename_i hcq
    · rw [if_pos hcq]
      omega
    · rw [if_neg hcq]
      omega
  have hfits := h.fits
  -- a word with a separator was not read bare, and no other quote than `q` was used
  have hspacey : ∀ w ∈ ws, s ∈ w.2 → w.1 = some q := by
    intro w hw hs
    obtain ⟨o, w⟩ := w
    cases o with
    | none =>
      have hnot := (hfits _ hw).2.1 s hs
      rw [(hsep s).mpr rfl] at hnot
      cases hnot
    | some c =>
      by_contra hcq
      have hzero := hcount c (hfits _ hw).1
      rw [if_neg fun heq => hcq (congrArg some heq), List.countP_eq_zero] at hzero
      exact hzero _ hw (decide_eq_true rfl)
  -- as many words hold the separator as are read in `q`, so these are the same
  have hquoted : ∀ w ∈ ws, w.1 = some q → s ∈ w.2 := by
    have hsame := hcount q hquote
    rw [if_pos rfl] at hsame
    intro w hw hq
    exact of_decide_eq_true (iff_of_countP_eq (p := fun w => decide (s ∈ w.2))
      (fun w hw hs => decide_eq_true (hspacey w hw (of_decide_eq_true hs))) hsame w hw
      (decide_eq_true hq))
  intro w hw
  by_cases hs : s ∈ w.2
  · have hq := hspacey w hw hs
    obtain ⟨o, w⟩ := w
    cases hq
    exact .inl ⟨hs, (hfits _ hw).2⟩
  · obtain ⟨o, w⟩ := w
    cases o with
    | none => exact .inr ⟨hs, (hfits _ hw).1, (hfits _ hw).2.2⟩
    | some c =>
      exfalso
      have hzero := hcount c (hfits _ hw).1
      have hcq : c ≠ q := fun heq => hs (hquoted _ hw (congrArg some heq))
      rw [if_neg hcq, List.countP_eq_zero] at hzero
      exact hzero _ hw (decide_eq_true rfl)

/-- The mark a safe word is read with. -/
def readAs (s q : α) (w : List α) : Option α × List α := (if s ∈ w then some q else none, w)

theorem nextWord_quotedWord {w rest : List α} (hw : SafeWord x s q w)
    (hrest : ∀ c ∈ rest.head?, x.sep c = true) :
    x.nextWord (quotedWord s q w ++ rest) =
      some (readAs s q w, if s ∈ w then rest else rest.drop 1) := by
  rcases hw with ⟨hs, hq⟩ | ⟨hs, hne, hhead⟩
  · have hqsep : x.sep q = false := x.sep_quote q hquote
    have hstay : ∀ c ∈ w, decide (c ≠ q) = true := fun c hc =>
      decide_eq_true fun heq => hq (heq ▸ hc)
    simp only [quotedWord, readAs, hs, if_true, WordSyntax.nextWord, List.cons_append,
      List.append_assoc, List.dropWhile_cons, hqsep, hquote, Bool.false_eq_true, if_false]
    rw [List.takeWhile_append_of_pos hstay, List.dropWhile_append_of_pos hstay]
    simp
  · have hfits : x.Fits (none, w) := by
      refine ⟨hne, fun c hc => ?_, hhead⟩
      rw [← Bool.not_eq_true, hsep]
      exact fun heq => hs (heq ▸ hc)
    simp only [quotedWord, readAs, hs, if_false]
    exact WordSyntax.nextWord_bare hfits hrest

omit hsep hquote in
theorem WordSyntax.Split.sep_cons {p : List α} {ws : List (Option α × List α)} (hs : x.sep s = true)
    (h : x.Split p ws) : x.Split (s :: p) ws := by
  have hskip : x.nextWord (s :: p) = x.nextWord p := by
    simp [WordSyntax.nextWord, hs]
  cases h with
  | nil hnone => exact .nil (hskip.trans hnone)
  | cons hword hrest => exact .cons (hskip.trans hword) hrest

theorem split_joined {ws : List (List α)} (h : ∀ w ∈ ws, SafeWord x s q w) :
    x.Split (joined s q ws) (ws.map (readAs s q)) := by
  induction ws with
  | nil => exact .nil rfl
  | cons w ws ih =>
    rw [List.forall_mem_cons] at h
    have htail := ih h.2
    cases ws with
    | nil =>
      have hword : x.nextWord (quotedWord s q w ++ []) = _ :=
        nextWord_quotedWord hsep hquote h.1 (by simp)
      rw [List.append_nil] at hword
      refine .cons hword ?_
      rw [List.drop_nil, ite_self]
      exact htail
    | cons w' ws =>
      have hword : x.nextWord (quotedWord s q w ++ s :: joined s q (w' :: ws)) = _ :=
        nextWord_quotedWord hsep hquote h.1 (by simpa using (hsep s).mpr rfl)
      refine .cons hword ?_
      split
      · exact htail.sep_cons ((hsep s).mpr rfl)
      · exact htail

/-- A joined line is cut up into the same words exactly if all are safe. -/
theorem split_joined_iff {args : List (List α)} :
    (∃ ws, x.Split (joined s q args) ws ∧ ws.map Prod.snd = args) ↔
      ∀ w ∈ args, SafeWord x s q w := by
  constructor
  · rintro ⟨ws, hsplit, rfl⟩ w hw
    obtain ⟨y, hy, rfl⟩ := List.mem_map.mp hw
    exact hsplit.joined_fits hsep hquote y hy
  · intro h
    refine ⟨_, split_joined hsep hquote h, ?_⟩
    rw [List.map_map]
    exact List.map_id args

end

/-! ## Joining words without quotes -/

section
variable {x : WordSyntax α} {s : α}

theorem split_intercalate (hs : x.sep s = true) {ws : List (List α)}
    (h : ∀ w ∈ ws, x.Fits (none, w)) : x.Split ([s].intercalate ws) (ws.map fun w => (none, w)) := by
  induction ws with
  | nil => exact .nil rfl
  | cons w ws ih =>
    rw [List.forall_mem_cons] at h
    have htail := ih h.2
    cases ws with
    | nil =>
      have hword : x.nextWord (w ++ []) = some ((none, w), [].drop 1) :=
        WordSyntax.nextWord_bare h.1 (by simp)
      rw [List.append_nil] at hword
      rw [List.intercalate_singleton]
      exact .cons hword (.nil rfl)
    | cons w' ws =>
      have hword : x.nextWord (w ++ s :: [s].intercalate (w' :: ws)) = _ :=
        WordSyntax.nextWord_bare h.1 (by simpa using hs)
      rw [List.intercalate_cons_cons, List.append_assoc, List.singleton_append]
      exact .cons hword htail

omit [DecidableEq α] in
theorem count_intercalate [DecidableEq α] {c : α} (hc : c ≠ s) (ws : List (List α)) :
    ([s].intercalate ws).count c = (ws.map (List.count c)).sum := by
  induction ws with
  | nil => rfl
  | cons w ws ih =>
    cases ws with
    | nil => simp
    | cons w' ws =>
      rw [List.intercalate_cons_cons, List.count_append, List.count_append, ih,
        List.count_singleton, if_neg (by simpa using Ne.symm hc)]
      simp

/-- What was joined without quotes and is cut up into the same words was read
bare throughout: a word in quotes would need two quotes more than there are. -/
theorem WordSyntax.Split.intercalate_fits (hs : x.sep s = true) {ws : List (Option α × List α)}
    (h : x.Split ([s].intercalate (ws.map Prod.snd)) ws) : ∀ w ∈ ws, x.Fits (none, w.2) := by
  intro w hw
  obtain ⟨o, w⟩ := w
  have hfits := h.fits _ hw
  cases o with
  | none => exact hfits
  | some c =>
    exfalso
    obtain ⟨missing, hle, heq⟩ := h.count hfits.1
    have hcs : c ≠ s := by
      rintro rfl
      have hfalse := x.sep_quote c hfits.1
      rw [hs] at hfalse
      cases hfalse
    rw [count_intercalate hcs, List.map_map] at heq
    have hsum : (ws.map (List.count c ∘ Prod.snd)).sum = (ws.map fun w => w.2.count c).sum := rfl
    have hpos : 0 < ws.countP (·.1 = some c) :=
      List.countP_pos_iff.mpr ⟨_, hw, decide_eq_true rfl⟩
    omega

/-- Words joined by a separator are cut up again exactly if all are bare. -/
theorem split_intercalate_iff (hs : x.sep s = true) {args : List (List α)} :
    (∃ ws, x.Split ([s].intercalate args) ws ∧ ws.map Prod.snd = args) ↔
      ∀ w ∈ args, x.Fits (none, w) := by
  constructor
  · rintro ⟨ws, hsplit, rfl⟩ w hw
    obtain ⟨y, hy, rfl⟩ := List.mem_map.mp hw
    exact hsplit.intercalate_fits hs y hy
  · intro h
    refine ⟨_, split_intercalate hs h, ?_⟩
    rw [List.map_map]
    exact List.map_id args

end

end ContainerSim.Lib
