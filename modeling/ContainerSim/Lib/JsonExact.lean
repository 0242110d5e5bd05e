import ContainerSim.Lib.Json

/-!
# Strings that stand unescaped

Text that is put between quotes as it is, without escapes, is read back as
itself only if it needs none (`denotes_quoted_iff`); whatever stands in it, no
other text denotes the same value in its place. So a text of arrays and objects
built that way denotes its value only if every string in it is plain
(`denotes_array_iff`, `denotes_object_iff`).
-/

namespace ContainerSim.Lib.Json

theorem unitBytes_length_le (n : Nat) : (unitBytes n).length ≤ 3 := by
  unfold unitBytes
  split
  · exact Nat.le_add_left 1 2
  · split
    · exact Nat.le_add_left 2 1
    · exact Nat.le_refl 3

theorem Chars.length_le {s t : Bytes} (h : Chars s t) : s.length ≤ t.length := by
  induction h with
  | nil => exact Nat.le_refl 0
  | raw _ _ _ _ ih => exact Nat.succ_le_succ ih
  | esc _ _ ih =>
    rw [List.length_cons, List.length_cons, List.length_cons]
    omega
  | @unit ds s t hlen _ _ ih =>
    have hunit := unitBytes_length_le (readDigits 16 ds)
    rw [List.length_append, List.length_cons, List.length_cons, List.length_append]
    omega

/-- Only raw characters keep the length. -/
theorem Chars.plain {s t : Bytes} (h : Chars s t) (hlen : s.length = t.length) :
    t = s ∧ Plain s := by
  induction h with
  | nil => exact ⟨rfl, List.forall_mem_nil _⟩
  | raw h32 hq hb _ ih =>
    obtain ⟨rfl, hplain⟩ := ih (Nat.succ.inj hlen)
    exact ⟨rfl, List.forall_mem_cons.mpr ⟨⟨h32, hq, hb⟩, hplain⟩⟩
  | @esc e c s t _ h ih =>
    have hle := h.length_le
    simp only [List.length_cons] at hlen
    omega
  | @unit ds s t hds _ h ih =>
    have hle := h.length_le
    have hunit := unitBytes_length_le (readDigits 16 ds)
    simp only [List.length_append, List.length_cons] at hlen
    omega

/-- A quote inside a string is escaped: the string splits there. -/
theorem Chars.split_quote {s p u : Bytes} (h : Chars s (p ++ 34 :: u)) :
    ∃ c p' d, p = p' ++ [92] ∧ Chars c p' ∧ Chars d u ∧ s = c ++ 34 :: d := by
  generalize ht : p ++ 34 :: u = t at h
  induction h generalizing p with
  | nil => exact absurd ht (by simp)
  | @raw c s t h32 hq hb _ ih =>
    cases p with
    | nil => exact absurd (List.cons.inj ht).1.symm hq
    | cons b p =>
      rw [List.cons_append, List.cons.injEq] at ht
      obtain ⟨rfl, ht⟩ := ht
      obtain ⟨c, p', d, rfl, hc, hd, rfl⟩ := ih ht
      exact ⟨b :: c, b :: p', d, rfl, .raw h32 hq hb hc, hd, rfl⟩
  | @esc e c s t he h ih =>
    cases p with
    | nil => exact absurd (List.cons.inj ht).1 (by decide)
    | cons b p =>
      rw [List.cons_append, List.cons.injEq] at ht
      obtain ⟨rfl, ht⟩ := ht
      cases p with
      | nil =>
        -- the quote is the letter of the escape
        obtain ⟨rfl, rfl⟩ := List.cons.inj ht
        have hc : c = 34 := by
          simp only [escapes, List.mem_cons, Prod.mk.injEq, List.not_mem_nil, or_false] at he
          rcases he with h | h | h | h | h | h | h | h
          · exact h.2
          all_goals exact absurd h.1 (by decide)
        exact ⟨[], [], s, rfl, .nil, h, by rw [hc]; rfl⟩
      | cons b p =>
        rw [List.cons_append, List.cons.injEq] at ht
        obtain ⟨rfl, ht⟩ := ht
        obtain ⟨c', p', d, rfl, hc, hd, rfl⟩ := ih ht
        exact ⟨c :: c', 92 :: b :: p', d, rfl, .esc he hc, hd, rfl⟩
  | @unit ds s t hlen hds h ih =>
    cases p with
    | nil => exact absurd (List.cons.inj ht).1 (by decide)
    | cons b p =>
      rw [List.cons_append, List.cons.injEq] at ht
      obtain ⟨rfl, ht⟩ := ht
      cases p with
      | nil => exact absurd (List.cons.inj ht).1 (by decide)
      | cons b p =>
        rw [List.cons_append, List.cons.injEq] at ht
        obtain ⟨rfl, ht⟩ := ht
        -- no digit is a quote, so it comes behind the digits
        rcases List.append_eq_append_iff.mp ht with ⟨a, hds', ha⟩ | ⟨a, rfl, ha⟩
        · cases a with
          | nil =>
            rw [List.append_nil] at hds'
            subst hds'
            obtain ⟨c', p', d, hp', -, -, -⟩ := @ih [] ha
            exact absurd hp'.symm (List.append_ne_nil_of_right_ne_nil _ (List.cons_ne_nil _ _))
          | cons b a =>
            obtain ⟨rfl, -⟩ := List.cons.inj ha
            have hmem := hds 34 (hds' ▸ List.mem_append_right _ List.mem_cons_self)
            exact absurd rfl (isDigit_silent hmem).1
        · obtain ⟨c', p', d, rfl, hc, hd, rfl⟩ := ih ha.symm
          refine ⟨unitBytes (readDigits 16 ds) ++ c', 92 :: 117 :: (ds ++ p'), d, ?_, .unit hlen hds hc,
            hd, ?_⟩
          · simp
          · simp

/-- A string is not read from itself, a quote and more. -/
theorem Chars.ne_quote {s t u : Bytes} (h : Chars s t) : t ≠ s ++ 34 :: u := by
  -- what is left behind the quote gets shorter each time the string is split there
  induction hn : u.length using Nat.strong_induction_on generalizing s t u with
  | _ n ih =>
    rintro rfl
    obtain ⟨c, p, d, hs, hc, hd, hs'⟩ := h.split_quote
    have hdu := hd.length_le
    have hsplit : p ++ [92] = c ++ 34 :: d := hs.symm.trans hs'
    rcases List.eq_nil_or_concat d with rfl | ⟨d', b, rfl⟩
    · have hlast := congrArg List.getLast? hsplit
      simp at hlast
    · have hcut : p ++ [92] = (c ++ 34 :: d') ++ [b] := by simpa using hsplit
      obtain ⟨hp, -⟩ := List.append_inj' hcut rfl
      refine ih d'.length ?_ hc rfl hp
      rw [List.concat_eq_append, List.length_append, List.length_singleton] at hdu
      omega

theorem Ws.eq_nil {w r l : Bytes} {c : UInt8} (h : Ws w) (heq : w ++ r = c :: l)
    (hc : ¬ Ws [c]) : w = [] := by
  cases w with
  | nil => rfl
  | cons b w =>
    obtain ⟨rfl, -⟩ := List.cons.inj heq
    refine absurd (fun d hd => ?_) hc
    rw [List.mem_singleton.mp hd]
    exact h b List.mem_cons_self

instance (w : Bytes) : Decidable (Ws w) := List.decidableBAll _ w

/-- The only text of the value that starts like this one is this one. -/
structure Exact (v : Value) (t : Bytes) : Prop where
  start : ∃ c r, t = c :: r ∧ ¬ Ws [c]
  only : ∀ t' x y, Denotes v t' → t' ++ x = t ++ y → t' = t

theorem not_ws_of_number {c : UInt8} (h : c = 45 ∨ 48 ≤ c ∧ c ≤ 57) : ¬ Ws [c] ∧ c ≠ 93 := by
  rcases h with rfl | ⟨hlow, hhigh⟩
  · decide
  · have hne : ∀ d : UInt8, d < 48 ∨ 57 < d → c ≠ d := by
      rintro d hd rfl
      simp only [UInt8.lt_iff_toNat_lt, UInt8.le_iff_toNat_le] at hd hlow hhigh
      omega
    refine ⟨fun hws => ?_, hne 93 (by decide)⟩
    rcases List.forall_mem_singleton.mp hws with h | h | h | h
    · exact hne 32 (by decide) h
    · exact hne 9 (by decide) h
    · exact hne 10 (by decide) h
    · exact hne 13 (by decide) h

theorem exact_num {t : Bytes} (ht : NumberText t) : Exact (.num t) t where
  start := by
    obtain ⟨c, r, hcr, hc⟩ := ht.start
    exact ⟨c, r, hcr, (not_ws_of_number hc).1⟩
  only := by
    intro t' x y h _
    cases h
    rfl

theorem exact_bool (b : Bool) : Exact (.bool b) (boolText b) where
  start := by
    cases b with
    | false => exact ⟨102, bytes "alse", rfl, by decide⟩
    | true => exact ⟨116, bytes "rue", rfl, by decide⟩
  only := by
    intro t' x y h _
    cases h
    · rfl
    · rfl

/-- A string that is written unescaped is read back only as it stands. -/
theorem Chars.exact {s t x y : Bytes} (h : Chars s t) (heq : t ++ 34 :: x = s ++ 34 :: y) :
    t = s ∧ Plain s := by
  have hlen : s.length = t.length := by
    by_contra hne
    have hlt : s.length < t.length := Nat.lt_of_le_of_ne h.length_le hne
    rcases List.append_eq_append_iff.mp heq with ⟨a, rfl, -⟩ | ⟨a, rfl, ha⟩
    · rw [List.length_append] at hlt
      omega
    · cases a with
      | nil => simp at hlt
      | cons b a =>
        obtain ⟨rfl, -⟩ := List.cons.inj ha
        exact h.ne_quote rfl
  exact h.plain hlen

theorem quoted_append (t x : Bytes) : quoted t ++ x = 34 :: (t ++ 34 :: x) := by
  simp [quoted]

theorem exact_str (s : Bytes) : Exact (.str s) (quoted s) where
  start := ⟨34, s ++ [34], rfl, by decide⟩
  only := by
    intro t' x y h heq
    cases h with
    | str h =>
      rw [quoted_append, quoted_append] at heq
      rw [(h.exact (List.cons.inj heq).2).1]

theorem denotes_quoted_iff {s : Bytes} : Denotes (.str s) (quoted s) ↔ Plain s := by
  constructor
  · intro h
    generalize ht : quoted s = t at h
    cases h with
    | @str _ t h =>
      have heq : t ++ 34 :: [] = s ++ 34 :: [] := (List.cons.inj ht).2.symm
      exact (h.exact heq).2
  · exact fun h => .str h.chars

theorem Denotes.start {v : Value} {t : Bytes} (h : Denotes v t) :
    ∃ c r, t = c :: r ∧ ¬ Ws [c] ∧ c ≠ 93 := by
  cases h with
  | null => exact ⟨110, bytes "ull", rfl, by decide⟩
  | true => exact ⟨116, bytes "rue", rfl, by decide⟩
  | false => exact ⟨102, bytes "alse", rfl, by decide⟩
  | num h =>
    obtain ⟨c, r, hcr, hc⟩ := h.start
    exact ⟨c, r, hcr, not_ws_of_number hc⟩
  | @str _ t _ => exact ⟨34, t ++ [34], rfl, by decide⟩
  | @arrNil w _ => exact ⟨91, w ++ [93], rfl, by decide⟩
  | @arr _ t _ => exact ⟨91, t ++ [93], rfl, by decide⟩
  | @objNil w _ => exact ⟨123, w ++ [125], rfl, by decide⟩
  | @obj _ t _ => exact ⟨123, t ++ [125], rfl, by decide⟩

/-- A value with blanks before it, read against a text without. -/
theorem Exact.value {v : Value} {t t' w x y : Bytes} (h : Exact v t) (hw : Ws w)
    (hv : Denotes v t') (heq : w ++ (t' ++ x) = t ++ y) : w = [] ∧ t' = t ∧ x = y := by
  obtain ⟨c, r, hcr, hc⟩ := h.start
  obtain rfl := hw.eq_nil (heq.trans (by rw [hcr, List.cons_append])) hc
  obtain rfl := h.only _ _ _ hv heq
  exact ⟨rfl, rfl, List.append_cancel_left heq⟩

theorem Exact.document {v : Value} {t : Bytes} (h : Exact v t) (hdoc : Document v t) :
    Denotes v t := by
  obtain ⟨w, t', w', hw, hv, -, heq⟩ := hdoc
  obtain ⟨rfl, rfl, -⟩ := h.value hw hv (heq.symm.trans (List.append_nil t).symm)
  exact hv

/-- Without its end the text is no text of the value. -/
theorem Exact.not_document {v : Value} {t tail : Bytes} (h : Exact v (t ++ tail)) (hne : tail ≠ []) :
    ¬ Document v t := by
  rintro ⟨w, t', w', hw, hv, -, rfl⟩
  have heq : w ++ (t' ++ (w' ++ tail)) = (w ++ (t' ++ w') ++ tail) ++ [] := by simp
  obtain ⟨rfl, ht, -⟩ := h.value hw hv heq
  have hlen := congrArg List.length ht
  have htail := List.length_pos_iff.mpr hne
  simp only [List.length_append, List.length_nil] at hlen
  omega

/-- What follows a value in an array: blanks, then a comma or the end. -/
theorem Ws.follow {w x y : Bytes} {c d : UInt8} (h : Ws w) (heq : w ++ c :: x = d :: y)
    (hd : ¬ Ws [d]) : w = [] ∧ c = d ∧ x = y := by
  obtain rfl := h.eq_nil heq hd
  obtain ⟨rfl, rfl⟩ := List.cons.inj heq
  exact ⟨rfl, rfl, rfl⟩

section
variable {α : Type*} {value : α → Value} {text : α → Bytes}

/-- The values of a list, read against the texts of its first `k` entries. -/
theorem Elems.exact {l : List α} (hexact : ∀ a ∈ l, Exact (value a) (text a)) {k : Nat}
    {t x y : Bytes} (h : Elems (l.map value) t)
    (heq : t ++ 93 :: x = [44].intercalate ((l.take k).map text) ++ 93 :: y) :
    l.take k = l ∧ t = [44].intercalate (l.map text) ∧ ∀ a ∈ l, Denotes (value a) (text a) := by
  induction l generalizing k t with
  | nil => cases h
  | cons a l ih =>
    obtain ⟨ha, hl⟩ := List.forall_mem_cons.mp hexact
    cases k with
    | zero =>
      -- a value does not start with the bracket
      exfalso
      have hstart : ∀ {w t' r : Bytes} {v : Value}, Ws w → Denotes v t' →
          w ++ (t' ++ r) ≠ 93 :: y := by
        intro w t' r v hw hv heq
        obtain rfl := hw.eq_nil heq (by decide)
        obtain ⟨c, r', rfl, -, hc⟩ := hv.start
        exact hc (List.cons.inj heq).1
      rw [List.map_cons] at h
      generalize l.map value = vs at h
      cases h with
      | one hw hv _ => exact hstart hw hv (by simpa using heq)
      | cons hw hv _ _ => exact hstart hw hv (by simpa using heq)
    | succ k =>
      rw [List.take_succ_cons, List.map_cons] at heq
      rw [List.map_cons] at h
      generalize hvs : l.map value = vs at h
      cases h with
      | @one _ w t' w' hw hv hw' =>
        obtain rfl := List.map_eq_nil_iff.mp hvs
        rw [List.take_nil, List.map_nil, List.intercalate_singleton, List.append_assoc,
          List.append_assoc] at heq
        obtain ⟨rfl, rfl, hrest⟩ := ha.value hw hv heq
        obtain ⟨rfl, -, -⟩ := hw'.follow hrest (by decide)
        exact ⟨by simp, by simp, List.forall_mem_singleton.mpr hv⟩
      | @cons _ _ w t' w' ts hw hv hw' hvs' =>
        subst hvs
        cases hk : l.take k with
        | nil =>
          rw [hk, List.map_nil, List.intercalate_singleton] at heq
          simp only [List.append_assoc, List.cons_append] at heq
          obtain ⟨rfl, rfl, hrest⟩ := ha.value hw hv heq
          obtain ⟨-, hbad, -⟩ := hw'.follow hrest (by decide)
          exact absurd hbad (by decide)
        | cons b l' =>
          rw [hk, List.map_cons, intercalate_cons_cons] at heq
          simp only [List.append_assoc, List.cons_append, List.nil_append] at heq
          obtain ⟨rfl, rfl, hrest⟩ := ha.value hw hv heq
          obtain ⟨rfl, -, hrest⟩ := hw'.follow hrest (by decide)
          rw [← List.map_cons, ← hk] at hrest
          obtain ⟨htake, rfl, hall⟩ := ih hl hvs' hrest
          refine ⟨by rw [List.take_succ_cons, htake], ?_, List.forall_mem_cons.mpr ⟨hv, hall⟩⟩
          rw [htake] at hk
          rw [hk, List.map_cons, List.map_cons, List.map_cons, intercalate_cons_cons]
          simp

theorem array_append (ts : List Bytes) (x : Bytes) :
    array ts ++ x = 91 :: ([44].intercalate ts ++ 93 :: x) := by
  simp [array]

theorem Denotes.array_inv {l : List α} (hexact : ∀ a ∈ l, Exact (value a) (text a)) {k : Nat}
    {t x y : Bytes} (h : Denotes (.arr (l.map value)) t)
    (heq : t ++ x = array ((l.take k).map text) ++ y) :
    l.take k = l ∧ t = array (l.map text) ∧ ∀ a ∈ l, Denotes (value a) (text a) := by
  rw [array_append] at heq
  generalize hvs : l.map value = vs at h
  cases h with
  | @arrNil w hw =>
    obtain rfl := List.map_eq_nil_iff.mp hvs
    rw [List.cons_append, List.append_assoc] at heq
    simp only [List.take_nil, List.map_nil, List.intercalate_nil, List.nil_append, List.cons.injEq,
      true_and] at heq
    obtain ⟨rfl, -, -⟩ := hw.follow heq (by decide)
    exact ⟨List.take_nil, rfl, List.forall_mem_nil _⟩
  | @arr _ t hvs' =>
    subst hvs
    rw [List.cons_append, List.append_assoc] at heq
    obtain ⟨htake, rfl, hall⟩ := hvs'.exact hexact (List.cons.inj heq).2
    exact ⟨htake, rfl, hall⟩

/-- The values of a whole list against the texts of its first `k` entries. -/
theorem exact_array {l : List α} (hexact : ∀ a ∈ l, Exact (value a) (text a)) (k : Nat) :
    Exact (.arr (l.map value)) (array ((l.take k).map text)) where
  start := ⟨91, _, rfl, by decide⟩
  only := by
    intro t' x y h heq
    obtain ⟨htake, ht, -⟩ := h.array_inv hexact heq
    rw [ht, htake]

/-- A list of which the first `k` entries are written denotes the whole list only
if that is all of it. -/
theorem denotes_array_iff {l : List α} (hexact : ∀ a ∈ l, Exact (value a) (text a)) {k : Nat} :
    Denotes (.arr (l.map value)) (array ((l.take k).map text)) ↔
      l.take k = l ∧ ∀ a ∈ l, Denotes (value a) (text a) := by
  constructor
  · intro h
    obtain ⟨htake, -, hall⟩ := h.array_inv (x := []) (y := []) hexact rfl
    exact ⟨htake, hall⟩
  · rintro ⟨htake, hall⟩
    rw [htake]
    refine denotes_array ?_
    rw [List.forall₂_map_left_iff, List.forall₂_map_right_iff, List.forall₂_same]
    exact hall

end

/-- A member whose value is written as it has to be. -/
structure ExactMember (kv : Bytes × Value) (m : String × Bytes) : Prop where
  key : kv.1 = bytes m.1
  value : Exact kv.2 m.2

theorem member_append (m : String × Bytes) (x : Bytes) :
    member m ++ x = 34 :: (bytes m.1 ++ 34 :: (58 :: (m.2 ++ x))) := by
  simp [member, quoted]

theorem ExactMember.read {k : Bytes} {v : Value} {m : String × Bytes} (h : ExactMember (k, v) m)
    {w kt w₁ w₂ t x y : Bytes} (hw : Ws w) (hk : Chars k kt) (hw₁ : Ws w₁) (hw₂ : Ws w₂)
    (hv : Denotes v t)
    (heq : w ++ (quoted kt ++ (w₁ ++ 58 :: (w₂ ++ (t ++ x)))) = member m ++ y) :
    w ++ (quoted kt ++ (w₁ ++ 58 :: (w₂ ++ t))) = member m ∧ Denotes v m.2 ∧
      Plain (bytes m.1) ∧ x = y := by
  obtain ⟨rfl, hexact⟩ := h
  rw [member_append] at heq
  obtain rfl := hw.eq_nil heq (by decide)
  rw [List.nil_append, quoted_append] at heq
  obtain ⟨hkey, hplain⟩ := hk.exact (List.cons.inj heq).2
  obtain rfl := hkey
  have hrest := (List.cons.inj (List.append_cancel_left (List.cons.inj heq).2)).2
  obtain ⟨rfl, -, hrest⟩ := hw₁.follow hrest (by decide)
  obtain ⟨rfl, rfl, rfl⟩ := hexact.value hw₂ hv hrest
  exact ⟨rfl, hv, hplain, rfl⟩

theorem Members.exact {kvs : List (Bytes × Value)} {ms : List (String × Bytes)}
    (hexact : List.Forall₂ ExactMember kvs ms) {t x y : Bytes} (h : Members kvs t)
    (heq : t ++ 125 :: x = [44].intercalate (ms.map member) ++ 125 :: y) :
    t = [44].intercalate (ms.map member) ∧ List.Forall₂ MemberOf kvs ms := by
  induction hexact generalizing t with
  | nil => cases h
  | @cons kv m kvs ms hm hms ih =>
    rw [List.map_cons] at heq ⊢
    cases h with
    | one hw hk hw₁ hw₂ hv hw' =>
      obtain rfl := List.forall₂_nil_left_iff.mp hms
      rw [List.map_nil, List.intercalate_singleton] at heq ⊢
      simp only [List.append_assoc, List.cons_append] at heq
      obtain ⟨heq', hv', hplain, hrest⟩ := hm.read hw hk hw₁ hw₂ hv heq
      obtain ⟨rfl, -, -⟩ := hw'.follow hrest (by decide)
      rw [List.append_nil]
      exact ⟨heq', .cons ⟨hm.key, hplain, hv'⟩ .nil⟩
    | cons hw hk hw₁ hw₂ hv hw' hkvs =>
      cases hms with
      | nil => cases hkvs
      | @cons kv' m' kvs ms hm' hms =>
        rw [List.map_cons, intercalate_cons_cons] at heq ⊢
        simp only [List.append_assoc, List.cons_append, List.nil_append] at heq
        obtain ⟨heq', hv', hplain, hrest⟩ := hm.read hw hk hw₁ hw₂ hv heq
        obtain ⟨rfl, -, hrest⟩ := hw'.follow hrest (by decide)
        obtain ⟨rfl, hall⟩ := ih hkvs (by rw [List.map_cons]; exact hrest)
        refine ⟨?_, .cons ⟨hm.key, hplain, hv'⟩ hall⟩
        rw [← heq']
        simp

theorem object_append (ms : List (String × Bytes)) (x : Bytes) :
    object ms ++ x = 123 :: ([44].intercalate (ms.map member) ++ 125 :: x) := by
  simp [object]

theorem Denotes.object_inv {kvs : List (Bytes × Value)} {ms : List (String × Bytes)}
    (hexact : List.Forall₂ ExactMember kvs ms) {t x y : Bytes} (h : Denotes (.obj kvs) t)
    (heq : t ++ x = object ms ++ y) : t = object ms ∧ List.Forall₂ MemberOf kvs ms := by
  rw [object_append] at heq
  cases h with
  | @objNil w hw =>
    obtain rfl := List.forall₂_nil_left_iff.mp hexact
    rw [List.cons_append, List.append_assoc] at heq
    obtain ⟨rfl, -, -⟩ := hw.follow (List.cons.inj heq).2 (by decide)
    exact ⟨rfl, .nil⟩
  | @obj _ t hms =>
    rw [List.cons_append, List.append_assoc] at heq
    obtain ⟨rfl, hall⟩ := hms.exact hexact (List.cons.inj heq).2
    exact ⟨rfl, hall⟩

theorem exact_object {kvs : List (Bytes × Value)} {ms : List (String × Bytes)}
    (hexact : List.Forall₂ ExactMember kvs ms) : Exact (.obj kvs) (object ms) where
  start := ⟨123, _, rfl, by decide⟩
  only := fun _ _ _ h heq => (h.object_inv hexact heq).1

theorem denotes_object_iff {kvs : List (Bytes × Value)} {ms : List (String × Bytes)}
    (hexact : List.Forall₂ ExactMember kvs ms) :
    Denotes (.obj kvs) (object ms) ↔ List.Forall₂ MemberOf kvs ms :=
  ⟨fun h => (h.object_inv (x := []) (y := []) hexact rfl).2, denotes_object⟩

end ContainerSim.Lib.Json
