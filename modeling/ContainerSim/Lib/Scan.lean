import ContainerSim.Lib.Decimal

/-!
# Scanning words

`%Ns` of `sscanf` and `strstr`. What `%Ns` reads is the first word of the text,
cut at the width; what was cut off is read next. What `strstr` finds is the
first place at which the word stands.
-/

namespace ContainerSim.Lib

/-- `%Ns` of `sscanf`: what it reads and what is left. -/
def scanWord (width : Nat) (s : Bytes) : Option (Bytes × Bytes) :=
  let s := s.dropWhile isSpace
  let word := (s.takeWhile fun c => !isSpace c).take width
  if word = [] then none else some (word, s.drop word.length)

/-- `strstr`: the text from the first occurrence on. -/
def strstr (s t : Bytes) : Option Bytes := s.tails.find? fun u => t.isPrefixOf u

/-- The text begins with blanks, the word and `rest`, and the word ends there. -/
structure FirstWord (s word rest : Bytes) : Prop where
  split : ∃ blanks : Bytes, s = blanks ++ (word ++ rest) ∧ ∀ c ∈ blanks, isSpace c = true
  nonempty : word ≠ []
  solid : ∀ c ∈ word, isSpace c = false
  ends : ∀ c ∈ rest.head?, isSpace c = true

theorem firstWord_of_all {blanks word rest : Bytes} (hblanks : blanks.all isSpace = true)
    (hne : word ≠ []) (hsolid : (word.all fun c => !isSpace c) = true)
    (hends : rest.head?.all isSpace = true) : FirstWord (blanks ++ (word ++ rest)) word rest where
  split := ⟨blanks, rfl, List.all_eq_true.mp hblanks⟩
  nonempty := hne
  solid := fun c hc => by simpa using List.all_eq_true.mp hsolid c hc
  ends := fun c hc => (Option.all_eq_true _ _).mp hends c hc

theorem FirstWord.dropWhile {s word rest : Bytes} (h : FirstWord s word rest) :
    s.dropWhile isSpace = word ++ rest := by
  obtain ⟨⟨blanks, rfl, hblanks⟩, hne, hsolid, -⟩ := h
  rw [List.dropWhile_append_of_pos hblanks]
  cases word with
  | nil => exact absurd rfl hne
  | cons c word => exact List.dropWhile_cons_of_neg (by simp [hsolid c List.mem_cons_self])

theorem FirstWord.takeWhile {s word rest : Bytes} (h : FirstWord s word rest) :
    (word ++ rest).takeWhile (fun c => !isSpace c) = word := by
  rw [List.takeWhile_append_of_pos fun c hc => by simp [h.solid c hc]]
  cases hrest : rest with
  | nil => simp
  | cons c r =>
    have hc := h.ends c (by rw [hrest]; rfl)
    rw [List.takeWhile_cons_of_neg (by simp [hc]), List.append_nil]

theorem FirstWord.scan {s word rest : Bytes} (h : FirstWord s word rest) {width : Nat}
    (hwidth : 0 < width) :
    scanWord width s = some (word.take width, word.drop width ++ rest) := by
  have hne : word.take width ≠ [] := by
    rw [Ne, List.take_eq_nil_iff]
    exact not_or.mpr ⟨by omega, h.nonempty⟩
  have hdrop : (word ++ rest).drop (word.take width).length = word.drop width ++ rest := by
    rw [List.length_take, List.drop_append_of_le_length (Nat.min_le_right _ _)]
    congr 1
    rcases Nat.le_total width word.length with hle | hle
    · rw [Nat.min_eq_left hle]
    · rw [Nat.min_eq_right hle, List.drop_length, List.drop_eq_nil_of_le hle]
  unfold scanWord
  simp only [h.dropWhile, h.takeWhile]
  rw [if_neg hne, hdrop]

theorem FirstWord.unique {s word rest word' rest' : Bytes} (h : FirstWord s word rest)
    (h' : FirstWord s word' rest') : word = word' ∧ rest = rest' := by
  have hsame : word ++ rest = word' ++ rest' := by rw [← h.dropWhile, h'.dropWhile]
  have hword : word = word' := by rw [← h.takeWhile, hsame, h'.takeWhile]
  subst hword
  exact ⟨rfl, List.append_cancel_left hsame⟩

/-- What is scanned is the first word, cut at the width. -/
theorem firstWord_of_scan {width : Nat} {s word rest : Bytes}
    (h : scanWord width s = some (word, rest)) :
    ∃ full rest', FirstWord s full rest' ∧ word = full.take width ∧
      rest = full.drop width ++ rest' := by
  have hword : FirstWord s ((s.dropWhile isSpace).takeWhile fun c => !isSpace c)
      ((s.dropWhile isSpace).dropWhile fun c => !isSpace c) := by
    refine ⟨⟨s.takeWhile isSpace, ?_, fun c hc => List.mem_takeWhile_imp hc⟩, ?_, ?_, ?_⟩
    · rw [List.takeWhile_append_dropWhile, List.takeWhile_append_dropWhile]
    · intro hnil
      unfold scanWord at h
      simp only [hnil, List.take_nil, if_true] at h
      cases h
    · intro c hc
      simpa using List.mem_takeWhile_imp hc
    · intro c hc
      have hhead := List.head?_dropWhile_not (fun c => !isSpace c) (s.dropWhile isSpace)
      rw [Option.mem_def.mp hc] at hhead
      simpa using hhead
  have hwidth : 0 < width := by
    by_contra hzero
    obtain rfl : width = 0 := by omega
    unfold scanWord at h
    simp only [List.take_zero, if_true] at h
    cases h
  have hscan := hword.scan hwidth
  rw [h] at hscan
  obtain ⟨rfl, rfl⟩ := Prod.mk.inj (Option.some.inj hscan)
  exact ⟨_, _, hword, rfl, rfl⟩

/-! ## Substrings -/

/-- The word stands in the text behind `pre`, and not before. -/
structure FirstAt (s t pre post : Bytes) : Prop where
  split : s = pre ++ (t ++ post)
  first : ∀ pre' post', s = pre' ++ (t ++ post') → pre.length ≤ pre'.length

theorem FirstAt.unique {s t pre post pre' post' : Bytes} (h : FirstAt s t pre post)
    (h' : FirstAt s t pre' post') : pre = pre' ∧ post = post' := by
  have hlen : pre.length = pre'.length :=
    Nat.le_antisymm (h.first _ _ h'.split) (h'.first _ _ h.split)
  obtain ⟨hpre, hrest⟩ := List.append_inj (h.split.symm.trans h'.split) hlen
  exact ⟨hpre, List.append_cancel_left hrest⟩

/-- What stands behind the first place does not matter for it. -/
theorem FirstAt.behind {s t pre post : Bytes} (h : FirstAt s t pre post) (post' : Bytes) :
    FirstAt (pre ++ (t ++ post')) t pre post' where
  split := rfl
  first := by
    intro before after heq
    by_contra hlen
    -- an earlier place ends before the text behind begins
    have hbefore : before ++ t <+: pre ++ (t ++ post') := ⟨after, by rw [heq, List.append_assoc]⟩
    have hpre : pre ++ t <+: pre ++ (t ++ post') := ⟨post', by rw [List.append_assoc]⟩
    have hshorter : (before ++ t).length ≤ (pre ++ t).length := by
      rw [List.length_append, List.length_append]
      omega
    have hprefix := List.prefix_of_prefix_length_le hbefore hpre hshorter
    obtain ⟨gap, hgap⟩ := hprefix
    refine hlen (h.first before (gap ++ post) ?_)
    rw [h.split, ← List.append_assoc, ← hgap, List.append_assoc, List.append_assoc]

/-- The first place of a word moves with a character in front of the text. -/
theorem FirstAt.cons {s t pre post : Bytes} {c : UInt8} (h : FirstAt s t pre post)
    (hc : ¬ t <+: c :: s) : FirstAt (c :: s) t (c :: pre) post where
  split := by rw [h.split, List.cons_append]
  first := by
    intro pre' post' heq
    cases pre' with
    | nil => exact absurd ⟨post', heq.symm⟩ hc
    | cons d pre' =>
      have hpre := h.first pre' post' (List.cons.inj heq).2
      exact Nat.succ_le_succ hpre

theorem exists_firstAt {s t : Bytes} (h : t <:+: s) : ∃ pre post, FirstAt s t pre post := by
  induction s with
  | nil =>
    obtain rfl := List.infix_nil.mp h
    exact ⟨[], [], rfl, fun _ _ _ => Nat.zero_le _⟩
  | cons c s ih =>
    by_cases hc : t <+: c :: s
    · obtain ⟨post, hpost⟩ := hc
      exact ⟨[], post, hpost.symm, fun _ _ _ => Nat.zero_le _⟩
    · obtain ⟨pre, post, hfirst⟩ := ih ((List.infix_cons_iff.mp h).resolve_left hc)
      exact ⟨c :: pre, post, hfirst.cons hc⟩

theorem strstr_cons (c : UInt8) (s t : Bytes) :
    strstr (c :: s) t = if t.isPrefixOf (c :: s) then some (c :: s) else strstr s t := by
  unfold strstr
  rw [List.tails_cons]
  split
  · rename_i h
    exact List.find?_cons_of_pos h
  · rename_i h
    exact List.find?_cons_of_neg h

theorem strstr_of_firstAt {s t pre post : Bytes} (h : FirstAt s t pre post) :
    strstr s t = some (t ++ post) := by
  induction s generalizing pre with
  | nil =>
    obtain ⟨rfl, htp⟩ := List.append_eq_nil_iff.mp h.split.symm
    obtain ⟨rfl, rfl⟩ := List.append_eq_nil_iff.mp htp
    rfl
  | cons c s ih =>
    rw [strstr_cons]
    cases pre with
    | nil =>
      have hsplit : c :: s = t ++ post := h.split
      rw [if_pos (List.isPrefixOf_iff_prefix.mpr ⟨post, hsplit.symm⟩), hsplit]
    | cons d pre =>
      obtain ⟨rfl, hs⟩ := List.cons.inj h.split
      have hno : ¬ t.isPrefixOf (c :: s) = true := by
        rw [List.isPrefixOf_iff_prefix]
        rintro ⟨post', hpost⟩
        exact absurd (h.first [] post' hpost.symm) (Nat.not_succ_le_zero _)
      rw [if_neg hno]
      refine ih ⟨hs, fun pre' post' heq => ?_⟩
      exact Nat.le_of_succ_le_succ (h.first (c :: pre') post' (congrArg (c :: ·) heq))

theorem strstr_eq_none {s t : Bytes} (h : ¬ t <:+: s) : strstr s t = none := by
  unfold strstr
  rw [List.find?_eq_none]
  intro u hu hprefix
  refine h ((List.isPrefixOf_iff_prefix.mp hprefix).isInfix.trans ?_)
  exact ((List.mem_tails u s).mp hu).isInfix

/-- Looking for a word by its first byte, which the text has once. -/
theorem strstr_single {c : UInt8} {pre post : Bytes} (hpre : c ∉ pre) (hpost : c ∉ post)
    (t : Bytes) : strstr (pre ++ c :: post) (c :: t) =
      if t.isPrefixOf post then some (c :: post) else none := by
  induction pre with
  | nil =>
    have hnone : strstr post (c :: t) = none :=
      strstr_eq_none fun h => hpost (h.subset List.mem_cons_self)
    rw [List.nil_append, strstr_cons, hnone]
    simp
  | cons x pre ih =>
    rw [List.mem_cons, not_or] at hpre
    rw [List.cons_append, strstr_cons, ih hpre.2, if_neg]
    simp [hpre.1]

theorem strstr_absent {c : UInt8} {s t : Bytes} (ht : c ∈ t) (hs : c ∉ s) : strstr s t = none :=
  strstr_eq_none fun h => hs (h.subset ht)

/-! ## Numbers in front of a separator -/

/-- The digits end where a character follows that is none. -/
theorem scanNat_append {b : Nat} {c : UInt8} (hdigit : isDigit b c = false) (s rest : Bytes) :
    (scanNat b (s ++ c :: rest)).map (·.1) = (scanNat b s).map (·.1) := by
  have htake : (s ++ c :: rest).takeWhile (isDigit b) = s.takeWhile (isDigit b) := by
    rw [List.takeWhile_append]
    split
    · rename_i hall
      rw [List.takeWhile_cons_of_neg (by simp [hdigit]), List.append_nil]
      exact ((List.takeWhile_prefix _).eq_of_length hall).symm
    · rfl
  unfold scanNat
  rw [htake]
  split
  · rfl
  · rfl

/-- A number ends where a character follows that belongs to none. -/
theorem atoi_append {c : UInt8} (hdigit : isDigit 10 c = false) (hspace : isSpace c = false)
    (hminus : c ≠ 45) (hplus : c ≠ 43) (s rest : Bytes) : atoi (s ++ c :: rest) = atoi s := by
  have hnat : ∀ (g : Nat → Int) (t : Bytes),
      ((scanNat 10 (t ++ c :: rest)).map fun r => (g r.1, r.2)).map (·.1) =
        ((scanNat 10 t).map fun r => (g r.1, r.2)).map (·.1) := by
    intro g t
    have hmap := congrArg (Option.map g) (scanNat_append hdigit t rest)
    simpa only [Option.map_map, Function.comp_def] using hmap
  have hdrop : (s ++ c :: rest).dropWhile isSpace = s.dropWhile isSpace ++ c :: rest := by
    rw [List.dropWhile_append]
    split
    · rename_i hall
      rw [List.isEmpty_iff.mp hall, List.dropWhile_cons_of_neg (by simp [hspace])]
      rfl
    · rfl
  unfold atoi scanInt
  rw [hdrop]
  congr 1
  -- the sign is the first character of what is left of the text
  generalize s.dropWhile isSpace = t
  split
  · rename_i heq
    cases t with
    | nil => exact absurd (List.cons.inj heq).1 hminus
    | cons d t =>
      obtain ⟨rfl, rfl⟩ := List.cons.inj heq
      exact hnat (fun n => -(n : Int)) t
  · rename_i heq
    cases t with
    | nil => exact absurd (List.cons.inj heq).1 hplus
    | cons d t =>
      obtain ⟨rfl, rfl⟩ := List.cons.inj heq
      exact hnat (fun n => (n : Int)) t
  · rename_i h45 h43
    have hunsigned := hnat (fun n => (n : Int)) t
    rw [hunsigned]
    split
    · exact absurd rfl (h45 _)
    · exact absurd rfl (h43 _)
    · rfl

end ContainerSim.Lib
