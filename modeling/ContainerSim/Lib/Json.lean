import ContainerSim.Lib.Decimal
import ContainerSim.Lib.Lines

/-!
# JSON

The grammar of JSON over bytes, as a relation between values and the texts
that stand for them (`Denotes`). A text is built from the texts of its parts
(`denotes_array`, `denotes_object`). The brackets of a text match
(`Denotes.balanced`), so what still has to be closed is no text.
-/

namespace ContainerSim.Lib

def Digits (s : Bytes) : Prop := s ≠ [] ∧ ∀ c ∈ s, 48 ≤ c ∧ c ≤ 57

/-- A JSON number: sign, integer part without leading zeros, fraction, exponent. -/
def NumberText (text : Bytes) : Prop :=
  ∃ sign int frac exp, text = sign ++ (int ++ (frac ++ exp)) ∧
    (sign = [] ∨ sign = [45]) ∧
    (Digits int ∧ (int.head? = some 48 → int = [48])) ∧
    (frac = [] ∨ ∃ ds, Digits ds ∧ frac = 46 :: ds) ∧
    (exp = [] ∨ ∃ e sgn ds, (e = 101 ∨ e = 69) ∧ (sgn = [] ∨ sgn = [43] ∨ sgn = [45]) ∧
      Digits ds ∧ exp = e :: (sgn ++ ds))

theorem fmtNat_digits (n : Nat) : Digits (fmtNat n) := by
  refine ⟨fmtBase_ne_nil 10 n, fun c hc => ?_⟩
  have hdigit := fmtBase_isDigit (by omega) (by omega) n c hc
  unfold isDigit digitVal at hdigit
  split at hdigit
  · assumption
  · -- the other digits of `digitVal` are those above nine
    rename_i hnot
    exfalso
    split at hdigit
    · rename_i hlow
      simp only [Option.any_some, decide_eq_true_eq, UInt8.le_iff_toNat_le] at hdigit hlow
      have h97 : (97 : UInt8).toNat = 97 := rfl
      omega
    · split at hdigit
      · rename_i hhigh
        simp only [Option.any_some, decide_eq_true_eq, UInt8.le_iff_toNat_le] at hdigit hhigh
        have h65 : (65 : UInt8).toNat = 65 := rfl
        omega
      · cases hdigit

/-- Only `0` is printed with a leading zero. -/
theorem fmtNat_head {n : Nat} (h : (fmtNat n).head? = some 48) : fmtNat n = [48] := by
  unfold fmtNat fmtBase at h ⊢
  split
  · rfl
  · rename_i hn
    exfalso
    rw [if_neg hn] at h
    have hne : Nat.digits 10 n ≠ [] := by simpa [Nat.digits_eq_nil_iff_eq_zero] using hn
    have hlast := Nat.getLast_digit_ne_zero 10 hn
    have hlt := Nat.digits_lt_base (by omega) (List.getLast_mem hne)
    rw [List.head?_map, List.head?_reverse, List.getLast?_eq_getLast_of_ne_nil hne, Option.map_some,
      Option.some.injEq] at h
    generalize (Nat.digits 10 n).getLast hne = d at hlast hlt h
    have hval := digitVal_digitByte (d := d) (by omega)
    rw [h] at hval
    exact hlast (Option.some.inj hval).symm

theorem numberText_fmtInt (i : Int) : NumberText (fmtInt i) := by
  cases i with
  | ofNat n =>
    exact ⟨[], fmtNat n, [], [], by simp [fmtInt], .inl rfl, ⟨fmtNat_digits n, fmtNat_head⟩,
      .inl rfl, .inl rfl⟩
  | negSucc n =>
    exact ⟨[45], fmtNat (n + 1), [], [], by simp [fmtInt], .inr rfl,
      ⟨fmtNat_digits _, fmtNat_head⟩, .inl rfl, .inl rfl⟩

theorem numberText_fmtNat (n : Nat) : NumberText (fmtNat n) := numberText_fmtInt (.ofNat n)

/-- The first character of a number. -/
theorem NumberText.start {t : Bytes} (h : NumberText t) :
    ∃ c r, t = c :: r ∧ (c = 45 ∨ 48 ≤ c ∧ c ≤ 57) := by
  obtain ⟨sign, int, frac, exp, rfl, hsign, ⟨hint, -⟩, -, -⟩ := h
  rcases hsign with rfl | rfl
  · obtain ⟨d, ds, rfl⟩ := List.exists_cons_of_ne_nil hint.1
    exact ⟨d, ds ++ (frac ++ exp), rfl, .inr (hint.2 d List.mem_cons_self)⟩
  · exact ⟨45, int ++ (frac ++ exp), rfl, .inl rfl⟩

/-- A character of a number. -/
def Numeric (c : UInt8) : Prop := (48 ≤ c ∧ c ≤ 57) ∨ c = 45 ∨ c = 43 ∨ c = 46 ∨ c = 101 ∨ c = 69

instance (c : UInt8) : Decidable (Numeric c) := by unfold Numeric; infer_instance

theorem numeric_of_number {t : Bytes} (h : NumberText t) : ∀ c ∈ t, Numeric c := by
  obtain ⟨sign, int, frac, exp, rfl, hsign, ⟨hint, -⟩, hfrac, hexp⟩ := h
  have hdigits : ∀ {ds : Bytes}, Digits ds → ∀ c ∈ ds, Numeric c := fun h c hc => .inl (h.2 c hc)
  have hsmall : ∀ {l : Bytes}, l = [] ∨ l = [43] ∨ l = [45] → ∀ c ∈ l, Numeric c := by
    rintro l (rfl | rfl | rfl) c hc
    · cases hc
    · rw [List.mem_singleton.mp hc]
      decide
    · rw [List.mem_singleton.mp hc]
      decide
  refine List.forall_mem_append.mpr ⟨hsmall (hsign.imp_right .inr), ?_⟩
  refine List.forall_mem_append.mpr ⟨hdigits hint, ?_⟩
  refine List.forall_mem_append.mpr ⟨?_, ?_⟩
  · rcases hfrac with rfl | ⟨ds, hds, rfl⟩
    · exact List.forall_mem_nil _
    · exact List.forall_mem_cons.mpr ⟨by decide, hdigits hds⟩
  · rcases hexp with rfl | ⟨e, sgn, ds, he, hsgn, hds, rfl⟩
    · exact List.forall_mem_nil _
    · refine List.forall_mem_cons.mpr ⟨?_, List.forall_mem_append.mpr ⟨hsmall hsgn, hdigits hds⟩⟩
      rcases he with rfl | rfl
      · decide
      · decide

namespace Json

/-- A number is kept as its text. -/
inductive Value where
  | null
  | bool (b : Bool)
  | num (text : Bytes)
  | str (s : Bytes)
  | arr (vs : List Value)
  | obj (ms : List (Bytes × Value))

instance : Inhabited Value := ⟨.null⟩

def Ws (w : Bytes) : Prop := ∀ c ∈ w, c = 32 ∨ c = 9 ∨ c = 10 ∨ c = 13

/-- The letter behind a backslash and what the two stand for. -/
def escapes : List (UInt8 × UInt8) :=
  [(34, 34), (92, 92), (47, 47), (98, 8), (102, 12), (110, 10), (114, 13), (116, 9)]

/-- The UTF-8 bytes of a 16-bit unit; the halves of a surrogate pair are taken apart. -/
def unitBytes (n : Nat) : Bytes :=
  if n < 128 then [UInt8.ofNat n]
  else if n < 2048 then [UInt8.ofNat (192 + n / 64), UInt8.ofNat (128 + n % 64)]
  else [UInt8.ofNat (224 + n / 4096), UInt8.ofNat (128 + n / 64 % 64), UInt8.ofNat (128 + n % 64)]

/-- What stands between the quotes of a string; the encoding of the bytes above
127 is not looked at. -/
inductive Chars : Bytes → Bytes → Prop
  | nil : Chars [] []
  | raw {c : UInt8} {s t : Bytes} : 32 ≤ c → c ≠ 34 → c ≠ 92 → Chars s t → Chars (c :: s) (c :: t)
  | esc {e c : UInt8} {s t : Bytes} : (e, c) ∈ escapes → Chars s t →
      Chars (c :: s) (92 :: e :: t)
  | unit {ds s t : Bytes} : ds.length = 4 → (∀ d ∈ ds, isDigit 16 d = true) → Chars s t →
      Chars (unitBytes (readDigits 16 ds) ++ s) (92 :: 117 :: (ds ++ t))

/-- A string between its quotes. -/
def quoted (t : Bytes) : Bytes := 34 :: (t ++ [34])

mutual

/-- The text stands for the value. -/
inductive Denotes : Value → Bytes → Prop
  | null : Denotes .null (bytes "null")
  | true : Denotes (.bool true) (bytes "true")
  | false : Denotes (.bool false) (bytes "false")
  | num {t : Bytes} : NumberText t → Denotes (.num t) t
  | str {s t : Bytes} : Chars s t → Denotes (.str s) (quoted t)
  | arrNil {w : Bytes} : Ws w → Denotes (.arr []) (91 :: (w ++ [93]))
  | arr {vs : List Value} {t : Bytes} : Elems vs t → Denotes (.arr vs) (91 :: (t ++ [93]))
  | objNil {w : Bytes} : Ws w → Denotes (.obj []) (123 :: (w ++ [125]))
  | obj {ms : List (Bytes × Value)} {t : Bytes} : Members ms t →
      Denotes (.obj ms) (123 :: (t ++ [125]))

/-- The values of an array, at least one. -/
inductive Elems : List Value → Bytes → Prop
  | one {v : Value} {w t w' : Bytes} : Ws w → Denotes v t → Ws w' → Elems [v] (w ++ (t ++ w'))
  | cons {v : Value} {vs : List Value} {w t w' ts : Bytes} : Ws w → Denotes v t → Ws w' →
      Elems vs ts → Elems (v :: vs) (w ++ (t ++ (w' ++ 44 :: ts)))

/-- The members of an object, at least one. -/
inductive Members : List (Bytes × Value) → Bytes → Prop
  | one {k : Bytes} {v : Value} {w kt w₁ w₂ t w' : Bytes} : Ws w → Chars k kt → Ws w₁ → Ws w₂ →
      Denotes v t → Ws w' →
      Members [(k, v)] (w ++ (quoted kt ++ (w₁ ++ 58 :: (w₂ ++ (t ++ w')))))
  | cons {k : Bytes} {v : Value} {ms : List (Bytes × Value)} {w kt w₁ w₂ t w' ts : Bytes} :
      Ws w → Chars k kt → Ws w₁ → Ws w₂ → Denotes v t → Ws w' → Members ms ts →
      Members ((k, v) :: ms)
        (w ++ (quoted kt ++ (w₁ ++ 58 :: (w₂ ++ (t ++ (w' ++ 44 :: ts))))))

end

/-- A whole text, with blanks around the value. -/
def Document (v : Value) (text : Bytes) : Prop :=
  ∃ w t w', Ws w ∧ Denotes v t ∧ Ws w' ∧ text = w ++ (t ++ w')

def WellFormed (text : Bytes) : Prop := ∃ v, Document v text

/-- No character that needs an escape. -/
def Plain (s : Bytes) : Prop := ∀ c ∈ s, 32 ≤ c ∧ c ≠ 34 ∧ c ≠ 92

instance (s : Bytes) : Decidable (Plain s) := List.decidableBAll _ s

/-- `"key":text`. -/
def member (m : String × Bytes) : Bytes := quoted (bytes m.1) ++ 58 :: m.2

/-- `{"key":text,...}` without blanks. -/
def object (ms : List (String × Bytes)) : Bytes :=
  123 :: ([44].intercalate (ms.map member) ++ [125])

example : object [("a", quoted (bytes "x")), ("n", bytes "1")] =
    bytes "\x7b\"a\":\"x\",\"n\":1\x7d" := by decide

/-- `[text,...]` without blanks. -/
def array (ts : List Bytes) : Bytes := 91 :: ([44].intercalate ts ++ [93])

def boolText (b : Bool) : Bytes := bytes (if b then "true" else "false")

/-! ## Texts of values -/

theorem ws_nil : Ws [] := List.forall_mem_nil _

theorem Plain.chars {s : Bytes} (h : Plain s) : Chars s s := by
  induction s with
  | nil => exact .nil
  | cons c s ih =>
    obtain ⟨hc, hs⟩ := List.forall_mem_cons.mp h
    exact .raw hc.1 hc.2.1 hc.2.2 (ih hs)

theorem denotes_boolText (b : Bool) : Denotes (.bool b) (boolText b) := by
  cases b with
  | false => exact .false
  | true => exact .true

theorem intercalate_cons_cons (sep a b : Bytes) (l : List Bytes) :
    sep.intercalate (a :: b :: l) = a ++ (sep ++ sep.intercalate (b :: l)) := by
  rw [List.intercalate_cons_cons, List.append_assoc]

theorem denotes_array {vs : List Value} {ts : List Bytes} (h : List.Forall₂ Denotes vs ts) :
    Denotes (.arr vs) (array ts) := by
  unfold array
  cases h with
  | nil => exact .arrNil ws_nil
  | @cons v t vs ts hv hvs =>
    refine .arr ?_
    induction hvs generalizing v t with
    | nil => simpa using Elems.one ws_nil hv ws_nil
    | @cons v' t' vs ts hv' _ ih =>
      rw [intercalate_cons_cons]
      simpa using Elems.cons ws_nil hv ws_nil (ih hv')

theorem exists_denotes_array {ts : List Bytes} (h : ∀ t ∈ ts, ∃ v, Denotes v t) :
    ∃ v, Denotes v (array ts) := by
  choose! value hvalue using h
  refine ⟨.arr (ts.map value), denotes_array ?_⟩
  rw [List.forall₂_map_left_iff, List.forall₂_same]
  exact hvalue

/-- The member stands for the key and the value. -/
structure MemberOf (kv : Bytes × Value) (m : String × Bytes) : Prop where
  key : kv.1 = bytes m.1
  plain : Plain (bytes m.1)
  value : Denotes kv.2 m.2

theorem memberOf {k : String} {v : Value} {t : Bytes} (hk : Plain (bytes k)) (hv : Denotes v t) :
    MemberOf (bytes k, v) (k, t) :=
  ⟨rfl, hk, hv⟩

theorem denotes_object {kvs : List (Bytes × Value)} {ms : List (String × Bytes)}
    (h : List.Forall₂ MemberOf kvs ms) : Denotes (.obj kvs) (object ms) := by
  unfold object
  cases h with
  | nil => exact .objNil ws_nil
  | @cons kv m kvs ms hm hms =>
    refine .obj ?_
    induction hms generalizing kv m with
    | nil =>
      obtain ⟨k, v⟩ := kv
      obtain ⟨rfl, hplain, hv⟩ := hm
      simpa [member] using Members.one ws_nil hplain.chars ws_nil ws_nil hv ws_nil
    | @cons kv' m' kvs ms hm' _ ih =>
      obtain ⟨k, v⟩ := kv
      obtain ⟨rfl, hplain, hv⟩ := hm
      rw [List.map_cons, List.map_cons, intercalate_cons_cons]
      simpa [member] using
        Members.cons ws_nil hplain.chars ws_nil ws_nil hv ws_nil (ih hm')

theorem length_quoted (s : Bytes) : (quoted s).length = s.length + 2 := by
  simp [quoted]

/-- Each key brings its two quotes, a colon and a comma or brace. -/
theorem length_object {ms : List (String × Bytes)} (h : ms ≠ []) :
    (object ms).length = ((ms.map Prod.fst).map fun k => (bytes k).length + 4).sum +
      (ms.map fun m => m.2.length).sum + 1 := by
  have hsum := length_intercalate 44 (ms.map member) (by simpa using h)
  have hmember : (fun l : Bytes => l.length + 1) ∘ member =
      fun m : String × Bytes => ((bytes m.1).length + 4) + m.2.length := by
    funext m
    show (quoted (bytes m.1) ++ 58 :: m.2).length + 1 = _
    rw [List.length_append, length_quoted, List.length_cons]
    omega
  rw [List.map_map, hmember, List.sum_map_add] at hsum
  have hkeys : (ms.map Prod.fst).map (fun k => (bytes k).length + 4) =
      ms.map fun m => (bytes m.1).length + 4 := List.map_map
  rw [hkeys, object, List.length_cons, List.length_append, List.length_singleton]
  omega

theorem Denotes.document {v : Value} {t : Bytes} (h : Denotes v t) : Document v t :=
  ⟨[], t, [], ws_nil, h, ws_nil, by simp⟩

/-! ## Brackets -/

/-- Where a reader of the text is. -/
inductive Mode where
  | outside | inside | escaped
  deriving DecidableEq

/-- One byte, with the depth of the brackets outside strings. -/
def scanByte : Mode × Int → UInt8 → Mode × Int
  | (.outside, d), c =>
    if c = 34 then (.inside, d)
    else if c = 91 ∨ c = 123 then (.outside, d + 1)
    else if c = 93 ∨ c = 125 then (.outside, d - 1)
    else (.outside, d)
  | (.inside, d), c =>
    if c = 34 then (.outside, d) else if c = 92 then (.escaped, d) else (.inside, d)
  | (.escaped, d), _ => (.inside, d)

/-- Every bracket that the text opens is closed in it. -/
def Balanced (t : Bytes) : Prop := ∀ d, t.foldl scanByte (.outside, d) = (.outside, d)

theorem Balanced.append {t t' : Bytes} (h : Balanced t) (h' : Balanced t') :
    Balanced (t ++ t') := by
  intro d
  rw [List.foldl_append, h d, h' d]

/-- A byte that neither opens nor closes anything. -/
def Silent (c : UInt8) : Prop := c ≠ 34 ∧ c ≠ 91 ∧ c ≠ 123 ∧ c ≠ 93 ∧ c ≠ 125

instance (c : UInt8) : Decidable (Silent c) := by
  unfold Silent
  infer_instance

theorem scanByte_silent {c : UInt8} (h : Silent c) (d : Int) :
    scanByte (.outside, d) c = (.outside, d) := by
  obtain ⟨hq, hla, hlo, hra, hro⟩ := h
  simp only [scanByte, hq, hla, hlo, hra, hro, if_false, or_self]

theorem Balanced.cons {c : UInt8} {t : Bytes} (hc : Silent c) (h : Balanced t) :
    Balanced (c :: t) := by
  intro d
  rw [List.foldl_cons, scanByte_silent hc, h d]

theorem balanced_silent {t : Bytes} (h : ∀ c ∈ t, Silent c) : Balanced t := by
  induction t with
  | nil => exact fun d => rfl
  | cons c t ih =>
    obtain ⟨hc, ht⟩ := List.forall_mem_cons.mp h
    exact (ih ht).cons hc

theorem balanced_literal {t : Bytes} (h : (t.all fun c => decide (Silent c)) = true) :
    Balanced t :=
  balanced_silent fun c hc => of_decide_eq_true (List.all_eq_true.mp h c hc)

theorem Ws.balanced {w : Bytes} (h : Ws w) : Balanced w := by
  refine balanced_silent fun c hc => ?_
  rcases h c hc with rfl | rfl | rfl | rfl <;> decide

theorem Balanced.enclose {t : Bytes} (h : Balanced t) {l r : UInt8} (hl : l = 91 ∨ l = 123)
    (hr : r = 93 ∨ r = 125) : Balanced (l :: (t ++ [r])) := by
  intro d
  have hopen : scanByte (.outside, d) l = (.outside, d + 1) := by
    rcases hl with rfl | rfl <;> rfl
  have hclose : scanByte (.outside, d + 1) r = (.outside, d) := by
    rcases hr with rfl | rfl <;> simp [scanByte]
  rw [List.foldl_cons, hopen, List.foldl_append, h, List.foldl_cons, hclose]
  rfl

theorem isDigit_silent {b : Nat} {c : UInt8} (h : isDigit b c = true) :
    c ≠ 34 ∧ c ≠ 92 ∧ Silent c := by
  have hne : ∀ d : UInt8, digitVal d = none → c ≠ d := by
    rintro d hd rfl
    rw [isDigit, hd] at h
    cases h
  exact ⟨hne 34 rfl, hne 92 rfl, hne 34 rfl, hne 91 rfl, hne 123 rfl, hne 93 rfl, hne 125 rfl⟩

theorem isDigit_plain {b : Nat} {c : UInt8} (h : isDigit b c = true) : 32 ≤ c ∧ c ≠ 34 ∧ c ≠ 92 := by
  obtain ⟨hq, hb, -⟩ := isDigit_silent h
  refine ⟨?_, hq, hb⟩
  by_contra hlow
  have hnone : digitVal c = none := by
    unfold digitVal
    simp only [UInt8.le_iff_toNat_le] at hlow ⊢
    have h32 : (32 : UInt8).toNat = 32 := rfl
    have h48 : (48 : UInt8).toNat = 48 := rfl
    have h65 : (65 : UInt8).toNat = 65 := rfl
    have h97 : (97 : UInt8).toNat = 97 := rfl
    rw [if_neg (by omega), if_neg (by omega), if_neg (by omega)]
  rw [isDigit, hnone] at h
  cases h

theorem plain_of_isDigit {s : Bytes} {b : Nat} (h : ∀ c ∈ s, isDigit b c = true) : Plain s :=
  fun c hc => isDigit_plain (h c hc)

theorem plain_fmtInt (i : Int) : Plain (fmtInt i) := by
  have hnat : ∀ n, Plain (fmtNat n) :=
    fun n => plain_of_isDigit (fmtBase_isDigit (by omega) (by omega) n)
  cases i with
  | ofNat n => exact hnat n
  | negSucc n => exact List.forall_mem_cons.mpr ⟨by decide, hnat (n + 1)⟩

theorem foldl_scanByte_inside {t : Bytes} (h : ∀ c ∈ t, c ≠ 34 ∧ c ≠ 92) (d : Int) :
    t.foldl scanByte (.inside, d) = (.inside, d) := by
  induction t with
  | nil => rfl
  | cons c t ih =>
    obtain ⟨⟨hq, hb⟩, ht⟩ := List.forall_mem_cons.mp h
    rw [List.foldl_cons, show scanByte (.inside, d) c = (.inside, d) by simp [scanByte, hq, hb],
      ih ht]

/-- A string stays inside its quotes. -/
theorem Chars.inside {s t : Bytes} (h : Chars s t) (d : Int) :
    t.foldl scanByte (.inside, d) = (.inside, d) := by
  induction h with
  | nil => rfl
  | @raw c s t _ hq hb _ ih =>
    rw [List.foldl_cons, show scanByte (.inside, d) c = (.inside, d) by simp [scanByte, hq, hb], ih]
  | esc _ _ ih =>
    show List.foldl scanByte (.inside, d) _ = _
    exact ih
  | @unit ds s t _ hds _ ih =>
    show List.foldl scanByte (.inside, d) (ds ++ t) = _
    rw [List.foldl_append, foldl_scanByte_inside fun c hc => ?_, ih]
    obtain ⟨hq, hb, -⟩ := isDigit_silent (hds c hc)
    exact ⟨hq, hb⟩

theorem Chars.balanced {s t : Bytes} (h : Chars s t) : Balanced (quoted t) := by
  intro d
  show (t ++ [34]).foldl scanByte (.inside, d) = _
  rw [List.foldl_append, h.inside]
  rfl

theorem balanced_number {t : Bytes} (h : NumberText t) : Balanced t := by
  obtain ⟨sign, int, frac, exp, rfl, hsign, ⟨hint, -⟩, hfrac, hexp⟩ := h
  have hdigits : ∀ {ds : Bytes}, Digits ds → Balanced ds := by
    intro ds hds
    refine balanced_silent fun c hc => ?_
    obtain ⟨hlow, hhigh⟩ := hds.2 c hc
    refine (isDigit_silent (b := 10) ?_).2.2
    simp only [isDigit, digitVal, hlow, hhigh, and_self, if_true, Option.any_some, decide_eq_true_eq]
    have h57 := UInt8.le_iff_toNat_le.mp hhigh
    have h57' : (57 : UInt8).toNat = 57 := rfl
    omega
  have hnil : Balanced [] := fun d => rfl
  refine Balanced.append ?_ ((hdigits hint).append (Balanced.append ?_ ?_))
  · rcases hsign with rfl | rfl
    · exact hnil
    · exact hnil.cons (by decide)
  · rcases hfrac with rfl | ⟨ds, hds, rfl⟩
    · exact hnil
    · exact (hdigits hds).cons (by decide)
  · rcases hexp with rfl | ⟨e, sgn, ds, he, hsgn, hds, rfl⟩
    · exact hnil
    · refine Balanced.cons ?_ (Balanced.append ?_ (hdigits hds))
      · rcases he with rfl | rfl <;> decide
      · rcases hsgn with rfl | rfl | rfl
        · exact hnil
        · exact hnil.cons (by decide)
        · exact hnil.cons (by decide)

mutual

theorem Denotes.balanced {v : Value} {t : Bytes} : Denotes v t → Balanced t
  | .null => balanced_literal (by decide)
  | .true => balanced_literal (by decide)
  | .false => balanced_literal (by decide)
  | .num h => balanced_number h
  | .str h => h.balanced
  | .arrNil hw => hw.balanced.enclose (.inl rfl) (.inl rfl)
  | .arr h => h.balanced.enclose (.inl rfl) (.inl rfl)
  | .objNil hw => hw.balanced.enclose (.inr rfl) (.inr rfl)
  | .obj h => h.balanced.enclose (.inr rfl) (.inr rfl)

theorem Elems.balanced {vs : List Value} {t : Bytes} : Elems vs t → Balanced t
  | .one hw hv hw' => hw.balanced.append (hv.balanced.append hw'.balanced)
  | .cons hw hv hw' hvs => by
    refine hw.balanced.append (hv.balanced.append (hw'.balanced.append ?_))
    exact hvs.balanced.cons (by decide)

theorem Members.balanced {ms : List (Bytes × Value)} {t : Bytes} : Members ms t → Balanced t
  | .one hw hk hw₁ hw₂ hv hw' => by
    refine hw.balanced.append (hk.balanced.append (hw₁.balanced.append ?_))
    exact Balanced.cons (by decide) (hw₂.balanced.append (hv.balanced.append hw'.balanced))
  | .cons hw hk hw₁ hw₂ hv hw' hms => by
    refine hw.balanced.append (hk.balanced.append (hw₁.balanced.append ?_))
    refine Balanced.cons (by decide) (hw₂.balanced.append (hv.balanced.append ?_))
    exact hw'.balanced.append (hms.balanced.cons (by decide))

end

theorem WellFormed.balanced {text : Bytes} (h : WellFormed text) : Balanced text := by
  obtain ⟨v, w, t, w', hw, ht, hw', rfl⟩ := h
  exact hw.balanced.append (ht.balanced.append hw'.balanced)

/-- What lacks its closing brackets is no text. -/
theorem not_wellFormed_of_close {t close : Bytes} (h : WellFormed (t ++ close)) (hne : close ≠ [])
    (hclose : ∀ c ∈ close, c = 93 ∨ c = 125) : ¬ WellFormed t := by
  intro ht
  have hall := h.balanced 0
  rw [List.foldl_append, ht.balanced 0] at hall
  have hfall : ∀ (l : Bytes) (d : Int), (∀ c ∈ l, c = 93 ∨ c = 125) →
      l.foldl scanByte (.outside, d) = (.outside, d - l.length) := by
    intro l
    induction l with
    | nil => intro d _; simp
    | cons c l ih =>
      intro d hl
      obtain ⟨hc, hl⟩ := List.forall_mem_cons.mp hl
      have hstep : scanByte (.outside, d) c = (.outside, d - 1) := by
        rcases hc with rfl | rfl <;> rfl
      rw [List.foldl_cons, hstep, ih _ hl, List.length_cons]
      congr 1
      omega
  rw [hfall close 0 hclose] at hall
  have hlen := List.length_pos_iff.mpr hne
  have hdepth : (0 : Int) - close.length = 0 := congrArg Prod.snd hall
  omega

end Json

end ContainerSim.Lib
