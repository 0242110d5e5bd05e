import ContainerSim.Lib.Bytes
import Mathlib.Data.Nat.Digits.Lemmas
import Mathlib.Tactic.Ring
import Mathlib.Tactic.Linarith
import Mathlib.Tactic.IntervalCases

/-!
# Numbers as text

`printf` conversions (`%d`, `%u`, `%ld`, `%04d`, `%x`) and the functions that
read them back (`sscanf` with `%d`, `atoi`, `atol`, `strtoul`), for any base up
to 16. The central fact is `scanNat_fmtBase`: a number printed in front of
text that does not go on with a digit is read back, and that text is left.
-/

namespace ContainerSim.Lib

/-- The character of one digit. -/
def digitByte (d : Nat) : UInt8 := UInt8.ofNat (if d < 10 then 48 + d else 87 + d)

/-- The value of one digit character, upper or lower case. -/
def digitVal (c : UInt8) : Option Nat :=
  if 48 ≤ c ∧ c ≤ 57 then some (c.toNat - 48)
  else if 97 ≤ c ∧ c ≤ 102 then some (c.toNat - 87)
  else if 65 ≤ c ∧ c ≤ 70 then some (c.toNat - 55)
  else none

/-- Whether `c` is a digit of base `b`. -/
def isDigit (b : Nat) (c : UInt8) : Bool := (digitVal c).any (· < b)

/-- `n` printed in base `b` without padding. -/
def fmtBase (b n : Nat) : Bytes :=
  if n = 0 then [48] else (Nat.digits b n).reverse.map digitByte

/-- `%d`, `%u`, `%ld` on a non-negative number. -/
def fmtNat (n : Nat) : Bytes := fmtBase 10 n

/-- `%d`, `%ld`. -/
def fmtInt : Int → Bytes
  | .ofNat n => fmtNat n
  | .negSucc n => 45 :: fmtNat (n + 1)

/-- `%0<width>d` on a non-negative number. -/
def fmtPadded (width n : Nat) : Bytes :=
  List.replicate (width - (fmtNat n).length) 48 ++ fmtNat n

/-- The number a run of digits stands for. -/
def readDigits (b : Nat) (s : Bytes) : Nat :=
  s.foldl (fun v c => v * b + (digitVal c).getD 0) 0

/-- Reads the longest run of digits; fails when there is none. -/
def scanNat (b : Nat) (s : Bytes) : Option (Nat × Bytes) :=
  match s.takeWhile (isDigit b) with
  | [] => none
  | ds => some (readDigits b ds, s.dropWhile (isDigit b))

/-- `isspace` in the C locale. -/
def isSpace (c : UInt8) : Bool := c = 32 || (9 ≤ c && c ≤ 13)

/-- `%d` of `sscanf`, and the core of `atoi` and `strtol`: leading blanks, an
optional sign, digits. -/
def scanInt (s : Bytes) : Option (Int × Bytes) :=
  match s.dropWhile isSpace with
  | 45 :: rest => (scanNat 10 rest).map fun r => (-(r.1 : Int), r.2)
  | 43 :: rest => (scanNat 10 rest).map fun r => ((r.1 : Int), r.2)
  | rest => (scanNat 10 rest).map fun r => ((r.1 : Int), r.2)

/-- `atoi` and `atol`. -/
def atoi (s : Bytes) : Int := ((scanInt s).map (·.1)).getD 0

/-- `strtoul(s, NULL, 10)` on a 64-bit `unsigned long`: a negative number wraps,
a number out of range saturates. -/
def strtoul (s : Bytes) : Nat :=
  match scanInt s with
  | some (.ofNat n, _) => min n (2 ^ 64 - 1)
  | some (.negSucc n, _) => if n + 1 < 2 ^ 64 then 2 ^ 64 - (n + 1) else 2 ^ 64 - 1
  | none => 0

/-- `strtol(s, NULL, 10)` on a 64-bit `long`: a number out of range saturates. -/
def strtol (s : Bytes) : Int64 := Int64.ofInt (max (-2 ^ 63) (min (atoi s) (2 ^ 63 - 1)))

/-- `strtoull(s, NULL, 16)`: as `strtoul`, with an optional `0x`. -/
def strtoullHex (s : Bytes) : Nat :=
  let body (t : Bytes) : Nat :=
    match t with
    | 48 :: 120 :: rest => ((scanNat 16 rest).map (·.1)).getD 0
    | 48 :: 88 :: rest => ((scanNat 16 rest).map (·.1)).getD 0
    | rest => ((scanNat 16 rest).map (·.1)).getD 0
  match s.dropWhile isSpace with
  | 45 :: rest => (2 ^ 64 - min (body rest) (2 ^ 64 - 1)) % 2 ^ 64
  | 43 :: rest => min (body rest) (2 ^ 64 - 1)
  | rest => min (body rest) (2 ^ 64 - 1)

/-! ## Digits -/

theorem digitVal_digitByte {d : Nat} (h : d < 16) : digitVal (digitByte d) = some d := by
  interval_cases d <;> decide

theorem isDigit_digitByte {b d : Nat} (hb : b ≤ 16) (h : d < b) :
    isDigit b (digitByte d) = true := by
  rw [isDigit, digitVal_digitByte (by omega)]
  simpa using h

/-- A digit character is neither a sign nor a blank. -/
theorem isDigit_ne {b : Nat} {c : UInt8} (h : isDigit b c = true) :
    c ≠ 45 ∧ c ≠ 43 ∧ isSpace c = false := by
  refine ⟨?_, ?_, ?_⟩
  · rintro rfl; simp [isDigit, digitVal] at h
  · rintro rfl; simp [isDigit, digitVal] at h
  · by_contra hs
    have hs' : isSpace c = true := by simpa using hs
    simp only [isSpace, Bool.or_eq_true, decide_eq_true_eq, Bool.and_eq_true] at hs'
    have hd : digitVal c = none := by
      simp only [digitVal, UInt8.le_iff_toNat_le] at *
      rcases hs' with rfl | ⟨h1, h2⟩
      · decide
      · rw [if_neg, if_neg, if_neg] <;> simp <;> simp at h1 h2 <;> omega
    simp [isDigit, hd] at h

theorem readDigits_append (b : Nat) (s t : Bytes) :
    readDigits b (s ++ t) = t.foldl (fun v c => v * b + (digitVal c).getD 0) (readDigits b s) := by
  rw [readDigits, List.foldl_append]
  rfl

theorem readDigits_snoc (b : Nat) (s : Bytes) (c : UInt8) :
    readDigits b (s ++ [c]) = readDigits b s * b + (digitVal c).getD 0 := by
  rw [readDigits_append]
  rfl

/-- Leading zeros do not count. -/
theorem readDigits_zeros (b k : Nat) (s : Bytes) :
    readDigits b (List.replicate k 48 ++ s) = readDigits b s := by
  induction k with
  | zero => rfl
  | succ k ih =>
    rw [List.replicate_succ, List.cons_append]
    have h0 : (digitVal 48).getD 0 = 0 := by decide
    have : readDigits b (48 :: (List.replicate k 48 ++ s)) =
        readDigits b (List.replicate k 48 ++ s) := by
      simp [readDigits, h0]
    rw [this, ih]

/-- A digit list, least significant first, printed and read again. -/
theorem readDigits_map_reverse {b : Nat} (hb : b ≤ 16) (ds : List Nat) (hds : ∀ d ∈ ds, d < b) :
    readDigits b (ds.reverse.map digitByte) = Nat.ofDigits b ds := by
  induction ds with
  | nil => rfl
  | cons d ds ih =>
    have hd : d < b := hds d List.mem_cons_self
    rw [List.reverse_cons, List.map_append, List.map_cons, List.map_nil, readDigits_snoc,
      ih (fun x hx => hds x (List.mem_cons_of_mem _ hx)), digitVal_digitByte (by omega),
      Nat.ofDigits_cons, Option.getD_some]
    ring

theorem readDigits_fmtBase {b : Nat} (h2 : 2 ≤ b) (h16 : b ≤ 16) (n : Nat) :
    readDigits b (fmtBase b n) = n := by
  rw [fmtBase]
  split
  · rename_i h; subst h; simp [readDigits, digitVal]
  · rw [readDigits_map_reverse h16 _ fun d hd => Nat.digits_lt_base (by omega) hd,
      Nat.ofDigits_digits]

theorem fmtBase_isDigit {b : Nat} (h2 : 2 ≤ b) (h16 : b ≤ 16) (n : Nat) :
    ∀ c ∈ fmtBase b n, isDigit b c = true := by
  intro c hc
  rw [fmtBase] at hc
  split at hc
  · rw [List.mem_singleton] at hc
    subst hc
    simp [isDigit, digitVal]
    omega
  · obtain ⟨d, hd, rfl⟩ := List.mem_map.mp hc
    exact isDigit_digitByte h16 (Nat.digits_lt_base (by omega) (List.mem_reverse.mp hd))

theorem fmtBase_ne_nil (b n : Nat) : fmtBase b n ≠ [] := by
  rw [fmtBase]
  split
  · simp
  · rename_i h
    simpa [Nat.digits_eq_nil_iff_eq_zero] using h

theorem fmtBase_length_le {b k n : Nat} (hb : 1 < b) (hk : k ≠ 0) (h : n < b ^ k) :
    (fmtBase b n).length ≤ k := by
  rw [fmtBase]
  split
  · exact Nat.one_le_iff_ne_zero.mpr hk
  · rw [List.length_map, List.length_reverse]
    exact (Nat.digits_length_le_iff hb n).mpr h

theorem fmtNat_length_le {k n : Nat} (hk : k ≠ 0) (h : n < 10 ^ k) : (fmtNat n).length ≤ k :=
  fmtBase_length_le (by omega) hk h

/-! ## Printing, then reading -/

/-- The text after a number does not start with a digit. -/
def NoDigit (b : Nat) (s : Bytes) : Prop := ∀ c ∈ s.head?, isDigit b c = false

theorem takeWhile_digits {b : Nat} {ds rest : Bytes} (hds : ∀ c ∈ ds, isDigit b c = true)
    (hrest : NoDigit b rest) :
    (ds ++ rest).takeWhile (isDigit b) = ds ∧ (ds ++ rest).dropWhile (isDigit b) = rest := by
  induction ds with
  | nil =>
    cases rest with
    | nil => exact ⟨rfl, rfl⟩
    | cons c rest =>
      have hc : isDigit b c = false := hrest c (by simp)
      simp [hc]
  | cons c ds ih =>
    have hc := hds c List.mem_cons_self
    have ih' := ih fun x hx => hds x (List.mem_cons_of_mem _ hx)
    simpa [hc] using ih'

/-- A run of digits is read as a whole. -/
theorem scanNat_digits {b : Nat} {ds rest : Bytes} (hne : ds ≠ [])
    (hds : ∀ c ∈ ds, isDigit b c = true) (hrest : NoDigit b rest) :
    scanNat b (ds ++ rest) = some (readDigits b ds, rest) := by
  obtain ⟨h1, h2⟩ := takeWhile_digits hds hrest
  rw [scanNat, h1, h2]
  cases ds with
  | nil => exact absurd rfl hne
  | cons c ds => rfl

theorem scanNat_fmtBase {b : Nat} (h2 : 2 ≤ b) (h16 : b ≤ 16) (n : Nat) {rest : Bytes}
    (hrest : NoDigit b rest) : scanNat b (fmtBase b n ++ rest) = some (n, rest) := by
  rw [scanNat_digits (fmtBase_ne_nil b n) (fmtBase_isDigit h2 h16 n) hrest,
    readDigits_fmtBase h2 h16]

/-- `%d` reads a run of decimal digits without looking for blanks or a sign. -/
theorem scanInt_digits {ds rest : Bytes} (hne : ds ≠ [])
    (hds : ∀ c ∈ ds, isDigit 10 c = true) (hrest : NoDigit 10 rest) :
    scanInt (ds ++ rest) = some ((readDigits 10 ds : Int), rest) := by
  obtain ⟨c, ds', rfl⟩ := List.exists_cons_of_ne_nil hne
  obtain ⟨h1, h2, h3⟩ := isDigit_ne (hds c List.mem_cons_self)
  have hdrop : ((c :: ds') ++ rest).dropWhile isSpace = (c :: ds') ++ rest := by
    rw [List.cons_append, List.dropWhile_cons, h3]
    simp
  have hscan := scanNat_digits hne hds hrest
  rw [scanInt, hdrop]
  rw [List.cons_append] at hscan ⊢
  split
  · rename_i heq; simp only [List.cons.injEq] at heq; exact absurd heq.1 h1
  · rename_i heq; simp only [List.cons.injEq] at heq; exact absurd heq.1 h2
  · rw [hscan]; rfl

theorem scanInt_fmtNat (n : Nat) {rest : Bytes} (hrest : NoDigit 10 rest) :
    scanInt (fmtNat n ++ rest) = some ((n : Int), rest) := by
  rw [fmtNat, scanInt_digits (fmtBase_ne_nil 10 n) (fmtBase_isDigit (by omega) (by omega) n) hrest,
    readDigits_fmtBase (by omega) (by omega)]

theorem scanInt_fmtInt (i : Int) {rest : Bytes} (hrest : NoDigit 10 rest) :
    scanInt (fmtInt i ++ rest) = some (i, rest) := by
  cases i with
  | ofNat n => exact scanInt_fmtNat n hrest
  | negSucc n =>
    have hscan := scanNat_fmtBase (b := 10) (by omega) (by omega) (n + 1) hrest
    have hdrop : ((45 : UInt8) :: (fmtNat (n + 1) ++ rest)).dropWhile isSpace =
        45 :: (fmtNat (n + 1) ++ rest) := by
      rw [List.dropWhile_cons]
      have : isSpace 45 = false := by decide
      simp [this]
    rw [fmtInt, List.cons_append, scanInt, hdrop]
    simp only
    rw [fmtNat, hscan]
    simp [Int.negSucc_eq]

theorem isSpace_of_mem_fmtNat {n : Nat} {c : UInt8} (h : c ∈ fmtNat n) : isSpace c = false :=
  (isDigit_ne (fmtBase_isDigit (by omega) (by omega) n c h)).2.2

/-- There is no blank in a number. -/
theorem isSpace_of_mem_fmtInt {i : Int} {c : UInt8} (h : c ∈ fmtInt i) : isSpace c = false := by
  cases i with
  | ofNat n => exact isSpace_of_mem_fmtNat h
  | negSucc n =>
    rcases List.mem_cons.mp h with rfl | h
    · rfl
    · exact isSpace_of_mem_fmtNat h

theorem NoDigit.nil (b : Nat) : NoDigit b [] := by simp [NoDigit]

theorem NoDigit.cons {b : Nat} {c : UInt8} (h : isDigit b c = false) (s : Bytes) :
    NoDigit b (c :: s) := by
  intro x hx
  simp only [List.head?_cons, Option.mem_def, Option.some.injEq] at hx
  exact hx ▸ h

@[simp] theorem atoi_fmtInt (i : Int) : atoi (fmtInt i) = i := by
  have := scanInt_fmtInt i (NoDigit.nil 10)
  rw [List.append_nil] at this
  rw [atoi, this]
  rfl

theorem strtol_fmtInt (i : Int64) : strtol (fmtInt i.toInt) = i := by
  have hlt := i.toInt_lt
  have hle := i.le_toInt
  have hclamp : max (-2 ^ 63) (min i.toInt (2 ^ 63 - 1)) = i.toInt := by omega
  rw [strtol, atoi_fmtInt, hclamp, Int64.ofInt_toInt]

/-- The sign and the digits. -/
theorem length_fmtInt_le {i : Int} {k : Nat} (hk : k ≠ 0) (h : i.natAbs < 10 ^ k) :
    (fmtInt i).length ≤ k + 1 := by
  cases i with
  | ofNat n => exact Nat.le_succ_of_le (fmtNat_length_le hk h)
  | negSucc n => exact Nat.succ_le_succ (fmtNat_length_le hk h)

theorem fmtInt_length_le (i : Int64) : (fmtInt i.toInt).length ≤ 20 := by
  have hlt := i.toInt_lt
  have hle := i.le_toInt
  exact length_fmtInt_le (k := 19) (by omega) (by omega)

theorem strtoul_fmtNat_append {n : Nat} (h : n < 2 ^ 64) {rest : Bytes} (hrest : NoDigit 10 rest) :
    strtoul (fmtNat n ++ rest) = n := by
  rw [strtoul, scanInt_fmtNat n hrest]
  show min n (2 ^ 64 - 1) = n
  omega

theorem strtoul_fmtNat {n : Nat} (h : n < 2 ^ 64) : strtoul (fmtNat n) = n := by
  have hread := strtoul_fmtNat_append h (NoDigit.nil 10)
  rwa [List.append_nil] at hread

theorem readDigits_fmtPadded (width n : Nat) : readDigits 10 (fmtPadded width n) = n := by
  rw [fmtPadded, readDigits_zeros, fmtNat, readDigits_fmtBase (by omega) (by omega)]

theorem fmtPadded_isDigit (width n : Nat) : ∀ c ∈ fmtPadded width n, isDigit 10 c = true := by
  intro c hc
  rcases List.mem_append.mp hc with h | h
  · rw [List.eq_of_mem_replicate h]
    decide
  · exact fmtBase_isDigit (by omega) (by omega) n c h

theorem fmtPadded_ne_nil (width n : Nat) : fmtPadded width n ≠ [] := by
  simp [fmtPadded, fmtNat, fmtBase_ne_nil]

theorem fmtPadded_length_le (width : Nat) {k n : Nat} (hk : k ≠ 0) (h : n < 10 ^ k) :
    (fmtPadded width n).length ≤ max width k := by
  have hlen := fmtNat_length_le hk h
  rw [fmtPadded, List.length_append, List.length_replicate]
  omega

theorem fmtPadded_injective (width : Nat) : Function.Injective (fmtPadded width) := by
  intro m n h
  rw [← readDigits_fmtPadded width m, ← readDigits_fmtPadded width n]
  exact congrArg (readDigits 10) h

/-! ## The first digits of a number -/

theorem readDigits_append_pow (b : Nat) (s t : Bytes) :
    readDigits b (s ++ t) = readDigits b s * b ^ t.length + readDigits b t := by
  induction t using List.reverseRecOn with
  | nil => simp [readDigits]
  | append_singleton t c ih =>
    rw [← List.append_assoc, readDigits_snoc, ih, readDigits_snoc, List.length_append,
      List.length_singleton, Nat.pow_succ]
    ring

theorem readDigits_lt {b : Nat} {s : Bytes} (h : ∀ c ∈ s, isDigit b c = true) :
    readDigits b s < b ^ s.length := by
  induction s using List.reverseRecOn with
  | nil => simp [readDigits]
  | append_singleton s c ih =>
    have hs := ih fun d hd => h d (List.mem_append_left _ hd)
    have hc := h c (by simp)
    obtain ⟨d, hd, hlt⟩ := (Option.any_eq_true _ _).mp hc
    rw [decide_eq_true_eq] at hlt
    rw [readDigits_snoc, hd, Option.getD_some, List.length_append, List.length_singleton,
      Nat.pow_succ]
    calc readDigits b s * b + d < readDigits b s * b + b := by omega
      _ = (readDigits b s + 1) * b := by ring
      _ ≤ b ^ s.length * b := Nat.mul_le_mul_right b hs

/-- Without its last digits a number is the quotient by a power of the base. -/
theorem readDigits_take_fmtBase {b : Nat} (h2 : 2 ≤ b) (h16 : b ≤ 16) (n k : Nat) :
    readDigits b ((fmtBase b n).take k) = n / b ^ ((fmtBase b n).drop k).length := by
  have hdrop : readDigits b ((fmtBase b n).drop k) < b ^ ((fmtBase b n).drop k).length :=
    readDigits_lt fun c hc => fmtBase_isDigit h2 h16 n c (List.mem_of_mem_drop hc)
  have hsplit := readDigits_append_pow b ((fmtBase b n).take k) ((fmtBase b n).drop k)
  rw [List.take_append_drop, readDigits_fmtBase h2 h16] at hsplit
  have hpos : 0 < b ^ ((fmtBase b n).drop k).length := Nat.pow_pos (by omega)
  exact (Nat.div_eq_of_lt_le (by omega) (by rw [Nat.add_mul]; omega)).symm

/-- The beginning of a number, read as one. -/
theorem strtoul_take_fmtNat {n : Nat} (h : n < 2 ^ 64) (k : Nat) :
    strtoul ((fmtNat n).take k) = n / 10 ^ ((fmtNat n).drop k).length := by
  have hread : readDigits 10 ((fmtNat n).take k) = n / 10 ^ ((fmtNat n).drop k).length :=
    readDigits_take_fmtBase (by omega) (by omega) n k
  have hle : n / 10 ^ ((fmtNat n).drop k).length ≤ n := Nat.div_le_self _ _
  by_cases hnil : (fmtNat n).take k = []
  · rw [← hread, hnil]
    rfl
  · have hscan := scanInt_digits hnil (fun c hc => fmtBase_isDigit (by omega) (by omega) n c
      (List.mem_of_mem_take hc)) (NoDigit.nil 10)
    rw [List.append_nil] at hscan
    rw [strtoul, hscan]
    show min (readDigits 10 ((fmtNat n).take k)) (2 ^ 64 - 1) = _
    rw [hread]
    omega

end ContainerSim.Lib
