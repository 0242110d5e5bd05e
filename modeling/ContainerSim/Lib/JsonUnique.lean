import ContainerSim.Lib.JsonExact

/-!
# A text stands for one value

The grammar of JSON is unambiguous: what a text stands for, and where it ends
in front of other text, is determined by its bytes (`Denotes.unique`,
`Document.unique`).
-/

namespace ContainerSim.Lib.Json

/-- Two ways of cutting a text behind characters of one kind are the same. -/
theorem span_unique {p : UInt8 → Prop} {t t' x y : Bytes} (ht : ∀ c ∈ t, p c) (ht' : ∀ c ∈ t', p c)
    (hx : ∀ c ∈ x.head?, ¬ p c) (hy : ∀ c ∈ y.head?, ¬ p c) (heq : t ++ x = t' ++ y) :
    t = t' ∧ x = y := by
  rcases List.append_eq_append_iff.mp heq with ⟨a, rfl, rfl⟩ | ⟨a, rfl, rfl⟩
  · cases a with
    | nil => exact ⟨(List.append_nil t).symm, rfl⟩
    | cons c a => exact absurd (ht' c (by simp)) (hx c rfl)
  · cases a with
    | nil => exact ⟨List.append_nil t', rfl⟩
    | cons c a => exact absurd (ht c (by simp)) (hy c rfl)

/-! ## Numbers and blanks -/

/-- No number goes on here. -/
def Stop (x : Bytes) : Prop := ∀ c ∈ x.head?, ¬ Numeric c

theorem stop_nil : Stop [] := fun c hc => by cases hc

theorem stop_cons {c : UInt8} (h : ¬ Numeric c) (x : Bytes) : Stop (c :: x) := by
  intro d hd
  rwa [← Option.some.inj hd]

theorem Ws.stop {w x : Bytes} (h : Ws w) (hx : Stop x) : Stop (w ++ x) := by
  cases w with
  | nil => exact hx
  | cons c w =>
    refine stop_cons ?_ (w ++ x)
    rcases h c List.mem_cons_self with rfl | rfl | rfl | rfl
    · decide
    · decide
    · decide
    · decide

/-- Blanks in front of other characters. -/
theorem Ws.unique {w w' x y : Bytes} {c d : UInt8} (h : Ws w) (h' : Ws w') (hc : ¬ Ws [c])
    (hd : ¬ Ws [d]) (heq : w ++ c :: x = w' ++ d :: y) : w = w' ∧ c = d ∧ x = y := by
  have hhead : ∀ {b : UInt8} {l : Bytes}, ¬ Ws [b] → ∀ e ∈ (b :: l).head?,
      ¬ (e = 32 ∨ e = 9 ∨ e = 10 ∨ e = 13) := by
    intro b l hb e he hws
    obtain rfl := Option.some.inj he
    exact hb (List.forall_mem_singleton.mpr hws)
  obtain ⟨hw, hrest⟩ := span_unique h h' (hhead hc) (hhead hd) heq
  obtain ⟨hcd, hxy⟩ := List.cons.inj hrest
  exact ⟨hw, hcd, hxy⟩

/-! ## Strings -/

theorem escapes_unique {e c d : UInt8} (hc : (e, c) ∈ escapes) (hd : (e, d) ∈ escapes) : c = d := by
  have hall : (escapes.all fun p => decide (escapes.lookup p.1 = some p.2)) = true := by decide
  have hlookup : ∀ p ∈ escapes, escapes.lookup p.1 = some p.2 :=
    fun p hp => of_decide_eq_true (List.all_eq_true.mp hall p hp)
  exact Option.some.inj ((hlookup _ hc).symm.trans (hlookup _ hd))

theorem not_escape_unit {c : UInt8} : (117, c) ∉ escapes := by
  intro h
  have hall : (escapes.all fun p => decide (p.1 ≠ 117)) = true := by decide
  exact of_decide_eq_true (List.all_eq_true.mp hall _ h) rfl

theorem Chars.unique {s s' t t' x y : Bytes} (h : Chars s t) (h' : Chars s' t')
    (heq : t ++ 34 :: x = t' ++ 34 :: y) : s = s' ∧ t = t' := by
  induction h generalizing s' t' with
  | nil =>
    cases h' with
    | nil => exact ⟨rfl, rfl⟩
    | raw _ hq _ _ => exact absurd (List.cons.inj heq).1.symm hq
    | esc _ _ => exact absurd (List.cons.inj heq).1 (by decide)
    | unit _ _ _ => exact absurd (List.cons.inj heq).1 (by decide)
  | raw _ hq hb _ ih =>
    cases h' with
    | nil => exact absurd (List.cons.inj heq).1 hq
    | raw _ _ _ h' =>
      obtain ⟨rfl, hrest⟩ := List.cons.inj heq
      obtain ⟨rfl, rfl⟩ := ih h' hrest
      exact ⟨rfl, rfl⟩
    | esc _ _ => exact absurd (List.cons.inj heq).1 hb
    | unit _ _ _ => exact absurd (List.cons.inj heq).1 hb
  | esc he _ ih =>
    cases h' with
    | nil => exact absurd (List.cons.inj heq).1 (by decide)
    | raw _ _ hb _ => exact absurd (List.cons.inj heq).1.symm hb
    | esc he' h' =>
      obtain ⟨rfl, hrest⟩ := List.cons.inj (List.cons.inj heq).2
      obtain ⟨rfl, rfl⟩ := ih h' hrest
      obtain rfl := escapes_unique he he'
      exact ⟨rfl, rfl⟩
    | unit _ _ _ =>
      obtain ⟨rfl, -⟩ := List.cons.inj (List.cons.inj heq).2
      exact absurd he not_escape_unit
  | unit hlen _ _ ih =>
    cases h' with
    | nil => exact absurd (List.cons.inj heq).1 (by decide)
    | raw _ _ hb _ => exact absurd (List.cons.inj heq).1.symm hb
    | esc he' _ =>
      obtain ⟨rfl, -⟩ := List.cons.inj (List.cons.inj heq).2
      exact absurd he' not_escape_unit
    | unit hlen' _ h' =>
      simp only [List.cons_append, List.append_assoc, List.cons.injEq, true_and] at heq
      obtain ⟨rfl, hrest⟩ := List.append_inj heq (hlen.trans hlen'.symm)
      obtain ⟨rfl, rfl⟩ := ih h' hrest
      exact ⟨rfl, rfl⟩

/-- What stands behind the characters of a string, read on its own. -/
theorem Chars.cancel {s s' t r : Bytes} (h : Chars s t) (h' : Chars s' (t ++ r)) :
    ∃ s₂, s' = s ++ s₂ ∧ Chars s₂ r := by
  induction h generalizing s' with
  | nil => exact ⟨s', rfl, h'⟩
  | @raw c s t _ _ hb _ ih =>
    generalize hu : c :: t ++ r = u at h'
    cases h' with
    | nil => cases hu
    | raw _ _ _ h' =>
      obtain ⟨rfl, rfl⟩ := List.cons.inj hu
      obtain ⟨s₂, rfl, hr⟩ := ih h'
      exact ⟨s₂, rfl, hr⟩
    | esc _ _ => exact absurd (List.cons.inj hu).1 hb
    | unit _ _ _ => exact absurd (List.cons.inj hu).1 hb
  | @esc e c s t he _ ih =>
    generalize hu : 92 :: e :: t ++ r = u at h'
    cases h' with
    | nil => cases hu
    | raw _ _ hb _ => exact absurd (List.cons.inj hu).1.symm hb
    | esc he' h' =>
      obtain ⟨rfl, rfl⟩ := List.cons.inj (List.cons.inj hu).2
      obtain ⟨s₂, rfl, hr⟩ := ih h'
      obtain rfl := escapes_unique he he'
      exact ⟨s₂, rfl, hr⟩
    | unit _ _ _ =>
      -- `u` is not an escape of one character
      obtain ⟨rfl, -⟩ := List.cons.inj (List.cons.inj hu).2
      exact absurd he not_escape_unit
  | @unit ds s t hlen _ _ ih =>
    generalize hu : 92 :: 117 :: (ds ++ t) ++ r = u at h'
    cases h' with
    | nil => cases hu
    | raw _ _ hb _ => exact absurd (List.cons.inj hu).1.symm hb
    | esc he' _ =>
      obtain ⟨rfl, -⟩ := List.cons.inj (List.cons.inj hu).2
      exact absurd he' not_escape_unit
    | unit hlen' _ h' =>
      simp only [List.cons_append, List.append_assoc, List.cons.injEq, true_and] at hu
      obtain ⟨rfl, rfl⟩ := List.append_inj hu (hlen.trans hlen'.symm)
      obtain ⟨s₂, rfl, hr⟩ := ih h'
      exact ⟨s₂, (List.append_assoc _ _ _).symm, hr⟩

/-- One character is no string text if it has to be escaped. -/
theorem Chars.not_bare {s : Bytes} {c : UInt8} (hc : c = 34 ∨ c = 92) : ¬ Chars s [c] := by
  intro h
  generalize ht : [c] = t at h
  cases h with
  | nil => cases ht
  | raw _ hq hb _ =>
    obtain ⟨rfl, -⟩ := List.cons.inj ht
    exact hc.elim hq hb
  | esc _ _ => cases (List.cons.inj ht).2
  | unit _ _ _ => cases (List.cons.inj ht).2

/-- A string stands as the only text of its value. -/
theorem Chars.exactText {s t : Bytes} (h : Chars s t) : Exact (.str s) (quoted t) where
  start := ⟨34, t ++ [34], rfl, by decide⟩
  only := by
    intro t' x y h' heq
    cases h' with
    | str h' =>
      rw [quoted_append, quoted_append] at heq
      rw [(h'.unique h (List.cons.inj heq).2).2]

theorem denotes_str_iff {s t : Bytes} : Denotes (.str s) (quoted t) ↔ Chars s t := by
  constructor
  · intro h
    generalize ht : quoted t = u at h
    cases h with
    | str h =>
      obtain ⟨rfl, -⟩ := List.append_inj' (List.cons.inj ht).2 rfl
      exact h
  · exact .str

/-! ## Values -/

def Value.kind : Value → Nat
  | .null => 0
  | .bool true => 1
  | .bool false => 2
  | .num _ => 3
  | .str _ => 4
  | .arr _ => 5
  | .obj _ => 6

/-- The kind of the values whose texts start with the character. -/
def kindOf (c : UInt8) : Nat :=
  if c = 110 then 0 else if c = 116 then 1 else if c = 102 then 2 else if c = 34 then 4
  else if c = 91 then 5 else if c = 123 then 6 else 3

theorem kindOf_number {c : UInt8} (h : c = 45 ∨ 48 ≤ c ∧ c ≤ 57) : kindOf c = 3 := by
  rcases h with rfl | ⟨hlow, hhigh⟩
  · decide
  · have hne : ∀ d : UInt8, d < 48 ∨ 57 < d → c ≠ d := by
      rintro d hd rfl
      simp only [UInt8.lt_iff_toNat_lt, UInt8.le_iff_toNat_le] at hd hlow hhigh
      omega
    unfold kindOf
    rw [if_neg (hne 110 (by decide)), if_neg (hne 116 (by decide)), if_neg (hne 102 (by decide)),
      if_neg (hne 34 (by decide)), if_neg (hne 91 (by decide)), if_neg (hne 123 (by decide))]

theorem Denotes.kind {v : Value} {t : Bytes} (h : Denotes v t) :
    ∃ c r, t = c :: r ∧ kindOf c = v.kind := by
  cases h with
  | null => exact ⟨_, _, rfl, rfl⟩
  | true => exact ⟨_, _, rfl, rfl⟩
  | false => exact ⟨_, _, rfl, rfl⟩
  | num h =>
    obtain ⟨c, r, rfl, hc⟩ := h.start
    exact ⟨c, r, rfl, kindOf_number hc⟩
  | str _ => exact ⟨_, _, rfl, rfl⟩
  | arrNil _ => exact ⟨_, _, rfl, rfl⟩
  | arr _ => exact ⟨_, _, rfl, rfl⟩
  | objNil _ => exact ⟨_, _, rfl, rfl⟩
  | obj _ => exact ⟨_, _, rfl, rfl⟩

theorem Denotes.kind_eq {v v' : Value} {t t' x y : Bytes} (h : Denotes v t) (h' : Denotes v' t')
    (heq : t ++ x = t' ++ y) : v.kind = v'.kind := by
  obtain ⟨c, r, rfl, hc⟩ := h.kind
  obtain ⟨c', r', rfl, hc'⟩ := h'.kind
  obtain ⟨rfl, -⟩ := List.cons.inj heq
  rw [← hc, hc']

/-- The first character behind the blanks of the elements of an array. -/
theorem Elems.start {vs : List Value} {t : Bytes} (h : Elems vs t) :
    ∃ w c r, t = w ++ c :: r ∧ Ws w ∧ ¬ Ws [c] ∧ c ≠ 93 := by
  cases h with
  | one hw hv _ =>
    obtain ⟨c, r, rfl, hc, hne⟩ := hv.start
    exact ⟨_, c, _, rfl, hw, hc, hne⟩
  | cons hw hv _ _ =>
    obtain ⟨c, r, rfl, hc, hne⟩ := hv.start
    exact ⟨_, c, _, rfl, hw, hc, hne⟩

theorem Elems.ne_nil {vs : List Value} {t w x y : Bytes} (h : Elems vs t) (hw : Ws w) :
    t ++ 93 :: x ≠ w ++ 93 :: y := by
  intro heq
  obtain ⟨w', c, r, rfl, hw', hc, hne⟩ := h.start
  rw [List.append_assoc, List.cons_append] at heq
  exact hne (hw'.unique hw hc (by decide) heq).2.1

theorem Members.ne_nil {ms : List (Bytes × Value)} {t w x y : Bytes} (h : Members ms t) (hw : Ws w) :
    t ++ 125 :: x ≠ w ++ 125 :: y := by
  intro heq
  have hstart : ∃ w' r, t = w' ++ 34 :: r ∧ Ws w' := by
    cases h with
    | one hw' _ _ _ _ _ => exact ⟨_, _, rfl, hw'⟩
    | cons hw' _ _ _ _ _ _ => exact ⟨_, _, rfl, hw'⟩
  obtain ⟨w', r, rfl, hw'⟩ := hstart
  rw [List.append_assoc, List.cons_append] at heq
  exact absurd (hw'.unique hw (by decide) (by decide) heq).2.1 (by decide)

/-- A key with its colon. -/
theorem key_unique {w w' k k' kt kt' w₁ w₁' x y : Bytes} (hw : Ws w) (hw' : Ws w')
    (hk : Chars k kt) (hk' : Chars k' kt') (hw₁ : Ws w₁) (hw₁' : Ws w₁')
    (heq : w ++ (quoted kt ++ (w₁ ++ 58 :: x)) = w' ++ (quoted kt' ++ (w₁' ++ 58 :: y))) :
    k = k' ∧ w = w' ∧ kt = kt' ∧ w₁ = w₁' ∧ x = y := by
  rw [quoted_append, quoted_append] at heq
  obtain ⟨rfl, -, hrest⟩ := hw.unique hw' (by decide) (by decide) heq
  obtain ⟨rfl, rfl⟩ := hk.unique hk' hrest
  have hcolon := (List.cons.inj (List.append_cancel_left hrest)).2
  obtain ⟨rfl, -, hxy⟩ := hw₁.unique hw₁' (by decide) (by decide) hcolon
  exact ⟨rfl, rfl, rfl, rfl, hxy⟩

/-- What ends a value in an array or an object. -/
def Ends (d : UInt8) : Prop := d = 44 ∨ d = 93 ∨ d = 125

theorem Ends.spec {d : UInt8} (h : Ends d) : ¬ Ws [d] ∧ ¬ Numeric d := by
  rcases h with rfl | rfl | rfl
  · decide
  · decide
  · decide

/-- A value between blanks and the character that ends it. -/
theorem value_unique {v v' : Value} {w w' t t' w₁ w₁' x y : Bytes} {d d' : UInt8}
    (hunique : ∀ {x y}, t ++ x = t' ++ y → Stop x → Stop y → v = v' ∧ t = t') (hv : Denotes v t)
    (hv' : Denotes v' t') (hw : Ws w) (hw' : Ws w') (hw₁ : Ws w₁) (hw₁' : Ws w₁') (hd : Ends d)
    (hd' : Ends d') (heq : w ++ (t ++ (w₁ ++ d :: x)) = w' ++ (t' ++ (w₁' ++ d' :: y))) :
    v = v' ∧ w = w' ∧ t = t' ∧ w₁ = w₁' ∧ d = d' ∧ x = y := by
  obtain ⟨c, r, hc, hcw, -⟩ := hv.start
  obtain ⟨c', r', hc', hcw', -⟩ := hv'.start
  obtain rfl : w = w' := by
    rw [hc, hc', List.cons_append, List.cons_append] at heq
    exact (hw.unique hw' hcw hcw' heq).1
  have hrest := List.append_cancel_left heq
  obtain ⟨rfl, rfl⟩ := hunique hrest (hw₁.stop (stop_cons hd.spec.2 x))
    (hw₁'.stop (stop_cons hd'.spec.2 y))
  obtain ⟨rfl, rfl, rfl⟩ := hw₁.unique hw₁' hd.spec.1 hd'.spec.1 (List.append_cancel_left hrest)
  exact ⟨rfl, rfl, rfl, rfl, rfl, rfl⟩

mutual

/-- By the form of the first text; the first character fixes the kind of the
value of the second. -/
theorem Denotes.unique {v : Value} {t : Bytes} : Denotes v t → ∀ {v' : Value} {t' x y : Bytes},
    Denotes v' t' → t ++ x = t' ++ y → Stop x → Stop y → v = v' ∧ t = t'
  | .null, _, _, _, _, h', heq, _, _ => by
    have hkind := Denotes.kind_eq .null h' heq
    cases h' with
    | null => exact ⟨rfl, rfl⟩
    | _ => cases hkind
  | .true, _, _, _, _, h', heq, _, _ => by
    have hkind := Denotes.kind_eq .true h' heq
    cases h' with
    | true => exact ⟨rfl, rfl⟩
    | _ => cases hkind
  | .false, _, _, _, _, h', heq, _, _ => by
    have hkind := Denotes.kind_eq .false h' heq
    cases h' with
    | false => exact ⟨rfl, rfl⟩
    | _ => cases hkind
  | .num h, _, _, _, _, h', heq, hx, hy => by
    have hkind := Denotes.kind_eq (.num h) h' heq
    cases h' with
    | num h' =>
      -- a number ends where its characters do
      obtain ⟨rfl, -⟩ := span_unique (numeric_of_number h) (numeric_of_number h') hx hy heq
      exact ⟨rfl, rfl⟩
    | _ => cases hkind
  | .str h, _, _, _, _, h', heq, _, _ => by
    have hkind := Denotes.kind_eq (.str h) h' heq
    cases h' with
    | str h' =>
      rw [quoted_append, quoted_append] at heq
      obtain ⟨rfl, rfl⟩ := h.unique h' (List.cons.inj heq).2
      exact ⟨rfl, rfl⟩
    | _ => cases hkind
  | .arrNil hw, _, _, _, _, h', heq, _, _ => by
    have hkind := Denotes.kind_eq (.arrNil hw) h' heq
    cases h' with
    | arrNil hw' =>
      simp only [List.cons_append, List.append_assoc, List.cons.injEq, true_and] at heq
      obtain ⟨rfl, -, -⟩ := hw.unique hw' (by decide) (by decide) heq
      exact ⟨rfl, rfl⟩
    | arr hvs' =>
      simp only [List.cons_append, List.append_assoc, List.cons.injEq, true_and] at heq
      -- between the brackets of the one there are blanks only, in the other a value
      exact absurd heq.symm (hvs'.ne_nil hw)
    | _ => cases hkind
  | .arr hvs, _, _, _, _, h', heq, _, _ => by
    have hkind := Denotes.kind_eq (.arr hvs) h' heq
    cases h' with
    | arrNil hw' =>
      simp only [List.cons_append, List.append_assoc, List.cons.injEq, true_and] at heq
      exact absurd heq (hvs.ne_nil hw')
    | arr hvs' =>
      simp only [List.cons_append, List.append_assoc, List.cons.injEq, true_and] at heq
      obtain ⟨rfl, rfl⟩ := hvs.unique hvs' heq
      exact ⟨rfl, rfl⟩
    | _ => cases hkind
  | .objNil hw, _, _, _, _, h', heq, _, _ => by
    have hkind := Denotes.kind_eq (.objNil hw) h' heq
    cases h' with
    | objNil hw' =>
      simp only [List.cons_append, List.append_assoc, List.cons.injEq, true_and] at heq
      obtain ⟨rfl, -, -⟩ := hw.unique hw' (by decide) (by decide) heq
      exact ⟨rfl, rfl⟩
    | obj hms' =>
      simp only [List.cons_append, List.append_assoc, List.cons.injEq, true_and] at heq
      exact absurd heq.symm (hms'.ne_nil hw)
    | _ => cases hkind
  | .obj hms, _, _, _, _, h', heq, _, _ => by
    have hkind := Denotes.kind_eq (.obj hms) h' heq
    cases h' with
    | objNil hw' =>
      simp only [List.cons_append, List.append_assoc, List.cons.injEq, true_and] at heq
      exact absurd heq (hms.ne_nil hw')
    | obj hms' =>
      simp only [List.cons_append, List.append_assoc, List.cons.injEq, true_and] at heq
      obtain ⟨rfl, rfl⟩ := hms.unique hms' heq
      exact ⟨rfl, rfl⟩
    | _ => cases hkind

theorem Elems.unique {vs : List Value} {t : Bytes} : Elems vs t →
    ∀ {vs' : List Value} {t' x y : Bytes}, Elems vs' t' → t ++ 93 :: x = t' ++ 93 :: y →
      vs = vs' ∧ t = t'
  | .one hw hv hw₁, _, _, _, _, h', heq => by
    cases h' with
    | one hw' hv' hw₁' =>
      simp only [List.append_assoc] at heq
      obtain ⟨rfl, rfl, rfl, rfl, -, -⟩ := value_unique (fun he hx hy => hv.unique hv' he hx hy) hv
        hv' hw hw' hw₁ hw₁' (.inr (.inl rfl)) (.inr (.inl rfl)) heq
      exact ⟨rfl, rfl⟩
    | cons hw' hv' hw₁' _ =>
      simp only [List.append_assoc, List.cons_append] at heq
      obtain ⟨-, -, -, -, hd, -⟩ := value_unique (fun he hx hy => hv.unique hv' he hx hy) hv
        hv' hw hw' hw₁ hw₁' (.inr (.inl rfl)) (.inl rfl) heq
      exact absurd hd (by decide)
  | .cons hw hv hw₁ hvs, _, _, _, _, h', heq => by
    cases h' with
    | one hw' hv' hw₁' =>
      simp only [List.append_assoc, List.cons_append] at heq
      obtain ⟨-, -, -, -, hd, -⟩ := value_unique (fun he hx hy => hv.unique hv' he hx hy) hv
        hv' hw hw' hw₁ hw₁' (.inl rfl) (.inr (.inl rfl)) heq
      exact absurd hd (by decide)
    | cons hw' hv' hw₁' hvs' =>
      simp only [List.append_assoc, List.cons_append] at heq
      obtain ⟨rfl, rfl, rfl, rfl, -, hrest⟩ := value_unique (fun he hx hy => hv.unique hv' he hx hy) hv
        hv' hw hw' hw₁ hw₁' (.inl rfl) (.inl rfl) heq
      obtain ⟨rfl, rfl⟩ := hvs.unique hvs' hrest
      exact ⟨rfl, rfl⟩

theorem Members.unique {ms : List (Bytes × Value)} {t : Bytes} : Members ms t →
    ∀ {ms' : List (Bytes × Value)} {t' x y : Bytes}, Members ms' t' →
      t ++ 125 :: x = t' ++ 125 :: y → ms = ms' ∧ t = t'
  | .one hw hk hw₁ hw₂ hv hw₃, _, _, _, _, h', heq => by
    cases h' with
    | one hw' hk' hw₁' hw₂' hv' hw₃' =>
      simp only [List.append_assoc, List.cons_append] at heq
      obtain ⟨rfl, rfl, rfl, rfl, hvalue⟩ := key_unique hw hw' hk hk' hw₁ hw₁' heq
      obtain ⟨rfl, rfl, rfl, rfl, -, -⟩ := value_unique (fun he hx hy => hv.unique hv' he hx hy) hv
        hv' hw₂ hw₂' hw₃ hw₃' (.inr (.inr rfl)) (.inr (.inr rfl)) hvalue
      exact ⟨rfl, rfl⟩
    | cons hw' hk' hw₁' hw₂' hv' hw₃' _ =>
      simp only [List.append_assoc, List.cons_append] at heq
      obtain ⟨-, -, -, -, hvalue⟩ := key_unique hw hw' hk hk' hw₁ hw₁' heq
      obtain ⟨-, -, -, -, hd, -⟩ := value_unique (fun he hx hy => hv.unique hv' he hx hy) hv
        hv' hw₂ hw₂' hw₃ hw₃' (.inr (.inr rfl)) (.inl rfl) hvalue
      exact absurd hd (by decide)
  | .cons hw hk hw₁ hw₂ hv hw₃ hms, _, _, _, _, h', heq => by
    cases h' with
    | one hw' hk' hw₁' hw₂' hv' hw₃' =>
      simp only [List.append_assoc, List.cons_append] at heq
      obtain ⟨-, -, -, -, hvalue⟩ := key_unique hw hw' hk hk' hw₁ hw₁' heq
      obtain ⟨-, -, -, -, hd, -⟩ := value_unique (fun he hx hy => hv.unique hv' he hx hy) hv
        hv' hw₂ hw₂' hw₃ hw₃' (.inl rfl) (.inr (.inr rfl)) hvalue
      exact absurd hd (by decide)
    | cons hw' hk' hw₁' hw₂' hv' hw₃' hms' =>
      simp only [List.append_assoc, List.cons_append] at heq
      obtain ⟨rfl, rfl, rfl, rfl, hvalue⟩ := key_unique hw hw' hk hk' hw₁ hw₁' heq
      obtain ⟨rfl, rfl, rfl, rfl, -, hrest⟩ := value_unique (fun he hx hy => hv.unique hv' he hx hy) hv
        hv' hw₂ hw₂' hw₃ hw₃' (.inl rfl) (.inl rfl) hvalue
      obtain ⟨rfl, rfl⟩ := hms.unique hms' hrest
      exact ⟨rfl, rfl⟩

end

/-- A text stands for at most one value. -/
theorem Document.unique {v v' : Value} {text : Bytes} (h : Document v text) (h' : Document v' text) :
    v = v' := by
  obtain ⟨w, t, w₁, hw, hv, hw₁, rfl⟩ := h
  obtain ⟨w', t', w₁', hw', hv', hw₁', heq⟩ := h'
  obtain ⟨c, r, rfl, hc, -⟩ := hv.start
  obtain ⟨c', r', rfl, hc', -⟩ := hv'.start
  rw [List.cons_append, List.cons_append] at heq
  obtain ⟨rfl, rfl, hrest⟩ := hw.unique hw' hc hc' heq
  have hstop : ∀ {b : Bytes}, Ws b → Stop b := by
    intro b hb
    have hb' := hb.stop stop_nil
    rwa [List.append_nil] at hb'
  exact (hv.unique hv' (congrArg (c :: ·) hrest) (hstop hw₁) (hstop hw₁')).1

/-- What a text stands for is read from it, and nothing else. -/
theorem Document.iff {v : Value} {text : Bytes} (h : Document v text) (v' : Value) :
    Document v' text ↔ v' = v := by
  constructor
  · exact fun h' => h'.unique h
  · rintro rfl
    exact h

end ContainerSim.Lib.Json
