import ContainerSim.Lib.Bytes
import Mathlib.Algebra.Order.BigOperators.Group.List
import Mathlib.Algebra.Order.Ring.Nat

/-!
# Lines and fields of a text file

`fgets` into a buffer of `size` bytes hands a file out in pieces: up to and
with the next newline, or `size - 1` bytes. `trimNewline` cuts a piece at its
first CR or LF. A program that ignores empty lines and reads only lines of
fewer than `size` bytes sees exactly the lines (`foldl_chunks`). Fields between
separators are `List.splitOn` and `List.intercalate`.
-/

namespace ContainerSim.Lib

/-- One `fgets` of at most `n` bytes, and what it leaves. -/
def fgets : Nat → Bytes → Bytes × Bytes
  | 0, s => ([], s)
  | _ + 1, [] => ([], [])
  | n + 1, c :: s =>
    if c = 10 then ([c], s)
    else
      let (piece, rest) := fgets n s
      (c :: piece, rest)

/-- At most `fuel` calls of `fgets` in a row. -/
def readChunks (n : Nat) : Nat → Bytes → List Bytes
  | 0, _ => []
  | fuel + 1, s => if s = [] then [] else (fgets n s).1 :: readChunks n fuel (fgets n s).2

/-- The results of `fgets` with a buffer of `size` bytes until the end. -/
def chunks (size : Nat) (file : Bytes) : List Bytes := readChunks (size - 1) file.length file

/-- `line[strcspn(line, "\r\n")] = '\0'`. -/
def trimNewline (line : Bytes) : Bytes := line.takeWhile fun c => c ≠ 13 ∧ c ≠ 10

theorem fgets_length (n : Nat) (s : Bytes) (hne : s ≠ []) :
    (fgets (n + 1) s).2.length < s.length := by
  have hle : ∀ (n : Nat) (s : Bytes), (fgets n s).2.length ≤ s.length := by
    intro n
    induction n with
    | zero => intro s; exact Nat.le_refl _
    | succ n ih =>
      intro s
      cases s with
      | nil => exact Nat.le_refl _
      | cons c s =>
        rw [fgets]
        split
        · exact Nat.le_succ _
        · exact Nat.le_succ_of_le (ih s)
  cases s with
  | nil => exact absurd rfl hne
  | cons c s =>
    rw [fgets]
    split
    · exact Nat.lt_succ_self _
    · exact Nat.lt_succ_of_le (hle n s)

/-- More fuel than bytes does not change the result. -/
theorem readChunks_fuel (n : Nat) {f f' : Nat} {s : Bytes} (hf : s.length ≤ f)
    (hf' : s.length ≤ f') : readChunks (n + 1) f s = readChunks (n + 1) f' s := by
  induction f generalizing f' s with
  | zero =>
    have hnil : s = [] := List.length_eq_zero_iff.mp (Nat.le_zero.mp hf)
    subst hnil
    cases f' with
    | zero => rfl
    | succ f' => rfl
  | succ f ih =>
    cases f' with
    | zero =>
      have hnil : s = [] := List.length_eq_zero_iff.mp (Nat.le_zero.mp hf')
      subst hnil
      rfl
    | succ f' =>
      rw [readChunks, readChunks]
      split
      · rfl
      · rename_i hne
        have hlt := fgets_length n s hne
        have hrest := @ih f' (fgets (n + 1) s).2 (by omega) (by omega)
        rw [hrest]

theorem chunks_cons (n : Nat) {s : Bytes} (hne : s ≠ []) :
    chunks (n + 2) s = (fgets (n + 1) s).1 :: chunks (n + 2) (fgets (n + 1) s).2 := by
  have hlt := fgets_length n s hne
  have hpos : 0 < s.length := List.length_pos_of_ne_nil hne
  obtain ⟨k, hk⟩ : ∃ k, s.length = k + 1 := ⟨s.length - 1, by omega⟩
  show readChunks (n + 1) s.length s = _
  rw [hk, readChunks, if_neg hne]
  exact congrArg (_ :: ·) (readChunks_fuel n (by omega) (Nat.le_refl _))

theorem fgets_line {n : Nat} {line : Bytes} (hnl : (10 : UInt8) ∉ line) (hlt : line.length < n)
    (rest : Bytes) : fgets n (line ++ 10 :: rest) = (line ++ [10], rest) := by
  induction line generalizing n with
  | nil =>
    obtain ⟨k, rfl⟩ : ∃ k, n = k + 1 := ⟨n - 1, by simp at hlt; omega⟩
    rfl
  | cons c line ih =>
    obtain ⟨k, rfl⟩ : ∃ k, n = k + 1 := ⟨n - 1, by simp at hlt; omega⟩
    have hc : c ≠ 10 := fun h => hnl (h ▸ List.mem_cons_self)
    have hih := ih (n := k) (fun h => hnl (List.mem_cons_of_mem _ h)) (by simpa using hlt)
    rw [List.cons_append, fgets, if_neg hc, hih]
    rfl

theorem fgets_full {n : Nat} {line : Bytes} (hnl : (10 : UInt8) ∉ line) (hlen : line.length = n)
    (rest : Bytes) : fgets n (line ++ rest) = (line, rest) := by
  subst hlen
  induction line with
  | nil => rfl
  | cons c line ih =>
    have hc : c ≠ 10 := fun h => hnl (h ▸ List.mem_cons_self)
    have hih := ih fun h => hnl (List.mem_cons_of_mem _ h)
    rw [List.cons_append, List.length_cons, fgets, if_neg hc, hih]

theorem trimNewline_line {line : Bytes} (hcr : (13 : UInt8) ∉ line) (hnl : (10 : UInt8) ∉ line)
    (tail : Bytes) (htail : tail = [] ∨ tail = [10]) : trimNewline (line ++ tail) = line := by
  have hall : ∀ c ∈ line, decide (c ≠ 13 ∧ c ≠ 10) = true := by
    intro c hc
    rw [decide_eq_true_eq]
    exact ⟨fun h => hcr (h ▸ hc), fun h => hnl (h ▸ hc)⟩
  rw [trimNewline, List.takeWhile_append_of_pos hall]
  rcases htail with rfl | rfl
  · exact List.append_nil _
  · exact List.append_nil _

/-- A loop over the pieces of a file is a loop over its lines, when each line
fits the buffer but for the newline and the loop ignores empty lines. -/
theorem foldl_chunks {σ : Type*} {size : Nat} (hsize : 2 ≤ size) {step : σ → Bytes → σ}
    (hstep : ∀ s, step s [] = s) {rows : List Bytes}
    (hrows : ∀ r ∈ rows, r.length < size ∧ (10 : UInt8) ∉ r ∧ (13 : UInt8) ∉ r) (s : σ) :
    (chunks size (rows.flatMap fun r => r ++ [10])).foldl (fun s c => step s (trimNewline c)) s =
      rows.foldl step s := by
  obtain ⟨n, rfl⟩ : ∃ n, size = n + 2 := ⟨size - 2, by omega⟩
  induction rows generalizing s with
  | nil => rfl
  | cons r rows ih =>
    obtain ⟨hlen, hnl, hcr⟩ := hrows r List.mem_cons_self
    have ih' := fun s => ih s fun r hr => hrows r (List.mem_cons_of_mem _ hr)
    have hcat : (r :: rows).flatMap (fun r => r ++ [10]) =
        r ++ 10 :: rows.flatMap fun r => r ++ [10] := by
      rw [List.flatMap_cons, List.append_assoc]
      rfl
    rw [hcat, chunks_cons n (by simp)]
    by_cases hfull : r.length = n + 1
    · -- the newline comes with the next piece
      rw [fgets_full hnl hfull, List.foldl_cons, chunks_cons n (List.cons_ne_nil _ _),
        List.foldl_cons]
      have htrim : trimNewline r = r := by
        have := trimNewline_line hcr hnl [] (.inl rfl)
        rwa [List.append_nil] at this
      have hnext : fgets (n + 1) (10 :: rows.flatMap fun r => r ++ [10]) =
          ([10], rows.flatMap fun r => r ++ [10]) := fgets_line List.not_mem_nil (Nat.succ_pos n) _
      rw [hnext, htrim]
      show _ = List.foldl step (step s r) rows
      rw [show trimNewline [10] = [] from rfl, hstep]
      exact ih' _
    · rw [fgets_line hnl (by omega), List.foldl_cons, trimNewline_line hcr hnl _ (.inr rfl)]
      exact ih' _

/-! ## Files of complete lines -/

/-- Nothing follows the last newline. -/
def Complete (file : Bytes) : Prop := ∀ c ∈ file.getLast?, c = 10

theorem Complete.nil : Complete [] := by
  simp [Complete]

theorem Complete.append_line {file : Bytes} (line : Bytes) : Complete (file ++ (line ++ [10])) := by
  rw [← List.append_assoc]
  simp [Complete]

theorem fgets_split (n : Nat) (s : Bytes) : (fgets n s).1 ++ (fgets n s).2 = s := by
  induction n generalizing s with
  | zero => rfl
  | succ n ih =>
    cases s with
    | nil => rfl
    | cons c s =>
      rw [fgets]
      split
      · rfl
      · show c :: ((fgets n s).1 ++ (fgets n s).2) = c :: s
        rw [ih]

/-- One call does not look past a newline. -/
theorem fgets_append {s : Bytes} (h : (10 : UInt8) ∈ s) (n : Nat) (t : Bytes) :
    fgets n (s ++ t) = ((fgets n s).1, (fgets n s).2 ++ t) := by
  induction n generalizing s with
  | zero => rfl
  | succ n ih =>
    cases s with
    | nil => simp at h
    | cons c s =>
      rw [List.cons_append, fgets, fgets]
      by_cases hc : c = 10
      · rw [if_pos hc, if_pos hc]
      · rw [if_neg hc, if_neg hc]
        have hmem : (10 : UInt8) ∈ s := by
          rcases List.mem_cons.mp h with heq | hmem
          · exact absurd heq.symm hc
          · exact hmem
        rw [ih hmem]

/-- The newline of a piece is its last byte. -/
theorem fgets_newline (n : Nat) (s : Bytes) : (10 : UInt8) ∉ (fgets n s).1.dropLast := by
  induction n generalizing s with
  | zero => simp [fgets]
  | succ n ih =>
    cases s with
    | nil => simp [fgets]
    | cons c s =>
      rw [fgets]
      by_cases hc : c = 10
      · rw [if_pos hc]
        simp
      · rw [if_neg hc]
        show (10 : UInt8) ∉ (c :: (fgets n s).1).dropLast
        cases hpiece : (fgets n s).1 with
        | nil => simp
        | cons d piece =>
          have hrest := ih s
          rw [hpiece] at hrest
          intro hmem
          rw [List.dropLast_cons_of_ne_nil (List.cons_ne_nil _ _)] at hmem
          rcases List.mem_cons.mp hmem with heq | hmem
          · exact hc heq.symm
          · exact hrest hmem

theorem fgets_length_le (n : Nat) (s : Bytes) : (fgets n s).1.length ≤ n := by
  induction n generalizing s with
  | zero => exact Nat.le_refl 0
  | succ n ih =>
    cases s with
    | nil => exact Nat.zero_le _
    | cons c s =>
      rw [fgets]
      split
      · exact Nat.succ_le_succ (Nat.zero_le n)
      · exact Nat.succ_le_succ (ih s)

/-- What holds of the result of every call holds of all pieces. -/
theorem forall_chunks {n : Nat} {P : Bytes → Prop} (h : ∀ s, P (fgets (n + 1) s).1) {file : Bytes} :
    ∀ piece ∈ chunks (n + 2) file, P piece := by
  induction hlen : file.length using Nat.strong_induction_on generalizing file with
  | _ len ih =>
    intro piece hpiece
    by_cases hne : file = []
    · subst hne
      simp [chunks, readChunks] at hpiece
    · rw [chunks_cons n hne] at hpiece
      rcases List.mem_cons.mp hpiece with rfl | hpiece
      · exact h file
      · exact ih _ (hlen ▸ fgets_length n file hne) rfl piece hpiece

theorem chunks_newline {size : Nat} (hsize : 2 ≤ size) {file piece : Bytes}
    (h : piece ∈ chunks size file) : (10 : UInt8) ∉ piece.dropLast := by
  obtain ⟨n, rfl⟩ : ∃ n, size = n + 2 := ⟨size - 2, by omega⟩
  exact @forall_chunks n (fun piece => (10 : UInt8) ∉ piece.dropLast) (fgets_newline (n + 1)) file
    piece h

theorem length_chunk_lt {size : Nat} (hsize : 2 ≤ size) {file piece : Bytes}
    (h : piece ∈ chunks size file) : piece.length < size := by
  obtain ⟨n, rfl⟩ : ∃ n, size = n + 2 := ⟨size - 2, by omega⟩
  have hle := @forall_chunks n (fun piece => piece.length ≤ n + 1) (fgets_length_le (n + 1)) file
    piece h
  omega

/-- A file of complete lines is read to its end before what follows it. -/
theorem chunks_append {size : Nat} (hsize : 2 ≤ size) {f : Bytes} (hf : Complete f) (g : Bytes) :
    chunks size (f ++ g) = chunks size f ++ chunks size g := by
  obtain ⟨n, rfl⟩ : ∃ n, size = n + 2 := ⟨size - 2, by omega⟩
  induction hlen : f.length using Nat.strong_induction_on generalizing f with
  | _ len ih =>
    by_cases hne : f = []
    · subst hne
      rfl
    · have hmem : (10 : UInt8) ∈ f := by
        rw [← hf _ (List.getLast?_eq_getLast_of_ne_nil hne)]
        exact List.getLast_mem hne
      have hrest : Complete (fgets (n + 1) f).2 := by
        intro c hc
        apply hf
        have hsplit := fgets_split (n + 1) f
        by_cases hnil : (fgets (n + 1) f).2 = []
        · rw [hnil] at hc
          simp at hc
        · rw [← hsplit, List.getLast?_append_of_ne_nil _ hnil]
          exact hc
      have hih := ih _ (hlen ▸ fgets_length n f hne) hrest rfl
      rw [chunks_cons n (List.append_ne_nil_of_left_ne_nil hne g), chunks_cons n hne,
        fgets_append hmem, hih]
      rfl

/-- Lines that fit the buffer come out one by one. -/
theorem chunks_lines {size : Nat} {rows : List Bytes}
    (hrows : ∀ r ∈ rows, r.length + 2 ≤ size ∧ (10 : UInt8) ∉ r) :
    chunks size (rows.flatMap fun r => r ++ [10]) = rows.map fun r => r ++ [10] := by
  induction rows with
  | nil => rfl
  | cons r rows ih =>
    obtain ⟨hlen, hnl⟩ := hrows r List.mem_cons_self
    obtain ⟨n, rfl⟩ : ∃ n, size = n + 2 := ⟨size - 2, by omega⟩
    have hcat : (r :: rows).flatMap (fun r => r ++ [10]) =
        r ++ 10 :: rows.flatMap fun r => r ++ [10] := by
      rw [List.flatMap_cons, List.append_assoc]
      rfl
    rw [hcat, chunks_cons n (by simp), fgets_line hnl (by omega), List.map_cons,
      ih fun r hr => hrows r (List.mem_cons_of_mem _ hr)]

/-! ## A text that was cut short -/

theorem fgets_all {n : Nat} {s : Bytes} (hnl : (10 : UInt8) ∉ s) (hlen : s.length ≤ n) :
    fgets n s = (s, []) := by
  induction s generalizing n with
  | nil => cases n <;> rfl
  | cons c s ih =>
    obtain ⟨n, rfl⟩ : ∃ k, n = k + 1 := ⟨n - 1, by rw [List.length_cons] at hlen; omega⟩
    rw [List.length_cons] at hlen
    have hc : c ≠ 10 := fun h => hnl (h ▸ List.mem_cons_self)
    rw [fgets, if_neg hc, ih (fun h => hnl (List.mem_cons_of_mem _ h)) (by omega)]

/-- A line without an end. -/
theorem chunks_unfinished {size : Nat} {s : Bytes} (hne : s ≠ []) (hnl : (10 : UInt8) ∉ s)
    (hlen : s.length + 1 ≤ size) : chunks size s = [s] := by
  have hpos := List.length_pos_of_ne_nil hne
  obtain ⟨n, rfl⟩ : ∃ n, size = n + 2 := ⟨size - 2, by omega⟩
  rw [chunks_cons n hne, fgets_all hnl (by omega)]
  rfl

/-- The beginning of a text made of parts: some parts, and the beginning of the next. -/
theorem take_flatMap {α β : Type*} (f : α → List β) (l : List α) (k : Nat) :
    ∃ pre post part, l = pre ++ post ∧ (l.flatMap f).take k = pre.flatMap f ++ part ∧
      (part = [] ∨ ∃ a post' j, post = a :: post' ∧ j < (f a).length ∧ part = (f a).take j) := by
  induction l generalizing k with
  | nil => exact ⟨[], [], [], rfl, by simp, .inl rfl⟩
  | cons a l ih =>
    rw [List.flatMap_cons]
    by_cases hk : k < (f a).length
    · refine ⟨[], a :: l, (f a).take k, rfl, ?_, .inr ⟨a, l, k, rfl, hk, rfl⟩⟩
      rw [List.take_append_of_le_length (Nat.le_of_lt hk)]
      rfl
    · obtain ⟨j, rfl⟩ := Nat.exists_eq_add_of_le (Nat.le_of_not_lt hk)
      obtain ⟨pre, post, part, rfl, htake, hpart⟩ := ih j
      refine ⟨a :: pre, post, part, rfl, ?_, hpart⟩
      rw [List.take_length_add_append, htake, List.flatMap_cons, List.append_assoc]

/-- The lines of a text that was cut: whole ones, and the beginning of the next. -/
theorem chunks_take {size : Nat} {rows : List Bytes}
    (hrows : ∀ r ∈ rows, r.length + 2 ≤ size ∧ (10 : UInt8) ∉ r) (k : Nat) :
    ∃ pre post last, rows = pre ++ post ∧
      chunks size ((rows.flatMap fun r => r ++ [10]).take k) =
          (pre.map fun r => r ++ [10]) ++ last ∧
        (last = [] ∨ ∃ r post' j, post = r :: post' ∧ j ≤ r.length ∧ last = [r.take j]) := by
  obtain ⟨pre, post, part, rfl, htake, hpart⟩ := take_flatMap (fun r => r ++ [10]) rows k
  have hpre : ∀ r ∈ pre, r.length + 2 ≤ size ∧ (10 : UInt8) ∉ r :=
    fun r hr => hrows r (List.mem_append_left _ hr)
  rcases hpart with rfl | ⟨r, post', j, rfl, hj, rfl⟩
  · refine ⟨pre, post, [], rfl, ?_, .inl rfl⟩
    rw [htake, List.append_nil, chunks_lines hpre, List.append_nil]
  · obtain ⟨hlen, hnl⟩ := hrows r (by simp)
    rw [List.length_append, List.length_singleton] at hj
    have hpart : (r ++ [10]).take j = r.take j := List.take_append_of_le_length (by omega)
    by_cases hnil : r.take j = []
    · refine ⟨pre, r :: post', [], rfl, ?_, .inl rfl⟩
      rw [htake, hpart, hnil, List.append_nil, chunks_lines hpre, List.append_nil]
    · refine ⟨pre, r :: post', [r.take j], rfl, ?_, .inr ⟨r, post', j, rfl, by omega, rfl⟩⟩
      have hcomplete : Complete (pre.flatMap fun r => r ++ [10]) := by
        rcases List.eq_nil_or_concat pre with rfl | ⟨pre, r, rfl⟩
        · exact Complete.nil
        · rw [List.concat_eq_append, List.flatMap_append, List.flatMap_singleton]
          exact Complete.append_line r
      have hshort : (r.take j).length + 1 ≤ size := by
        rw [List.length_take]
        omega
      rw [htake, hpart, chunks_append (by omega) hcomplete, chunks_lines hpre,
        chunks_unfinished hnil (fun h => hnl (List.mem_of_mem_take h)) hshort]

/-! ## Fields -/

/-- The first `n` fields of a line, as `strchr` finds the separators. -/
def cutFields (x : UInt8) : Nat → Bytes → List Bytes
  | 0, _ => []
  | n + 1, p =>
    match p.dropWhile (· ≠ x) with
    | [] => [p]
    | _ :: rest => p.takeWhile (· ≠ x) :: cutFields x n rest

theorem cutFields_sep {x : UInt8} {f : Bytes} (hf : x ∉ f) (n : Nat) (rest : Bytes) :
    cutFields x (n + 1) (f ++ x :: rest) = f :: cutFields x n rest := by
  have hall : ∀ c ∈ f, decide (c ≠ x) = true := by
    intro c hc
    exact decide_eq_true fun h : c = x => hf (h ▸ hc)
  rw [cutFields, List.dropWhile_append_of_pos hall, List.takeWhile_append_of_pos hall]
  simp

theorem cutFields_last {x : UInt8} {f : Bytes} (hf : x ∉ f) (n : Nat) :
    cutFields x (n + 1) f = [f] := by
  have hnil : f.dropWhile (· ≠ x) = [] := by
    rw [List.dropWhile_eq_nil_iff]
    intro c hc
    exact decide_eq_true fun h : c = x => hf (h ▸ hc)
  rw [cutFields, hnil]

/-- One field more than there are separators, but no more than asked for. -/
theorem cutFields_length (x : UInt8) (n : Nat) (p : Bytes) :
    (cutFields x n p).length = min n (p.count x + 1) := by
  induction n generalizing p with
  | zero => simp [cutFields]
  | succ n ih =>
    cases hdrop : p.dropWhile (· ≠ x) with
    | nil =>
      have hnot : x ∉ p := by
        intro hx
        simpa using List.dropWhile_eq_nil_iff.mp hdrop x hx
      have hcut := cutFields_last hnot n
      rw [hcut, List.count_eq_zero_of_not_mem hnot, List.length_singleton]
      omega
    | cons c rest =>
      have hc : c = x := by
        have hne : p.dropWhile (· ≠ x) ≠ [] := by
          rw [hdrop]
          exact List.cons_ne_nil _ _
        have hhead := List.head_dropWhile_not (fun c => decide (c ≠ x)) hne
        have hfirst : (p.dropWhile (· ≠ x)).head hne = c := by
          simp only [hdrop, List.head_cons]
        rw [hfirst] at hhead
        simpa using hhead
      subst hc
      have hsplit : p = p.takeWhile (· ≠ c) ++ c :: rest := by
        rw [← hdrop, List.takeWhile_append_dropWhile]
      have hnot : c ∉ p.takeWhile (· ≠ c) := by
        intro hx
        simpa using List.mem_takeWhile_imp hx
      rw [hsplit, cutFields_sep hnot, List.length_cons, ih, List.count_append,
        List.count_eq_zero_of_not_mem hnot, List.count_cons_self]
      omega

/-- No field holds the separator, and all but the last end before the line does. -/
theorem cutFields_spec (x : UInt8) (n : Nat) (p : Bytes) :
    (∀ f ∈ cutFields x n p, x ∉ f) ∧
      ∀ f ∈ (cutFields x n p).dropLast, ∀ y ∈ f, y ∈ p.dropLast := by
  induction n generalizing p with
  | zero => simp [cutFields]
  | succ n ih =>
    cases hdrop : p.dropWhile (· ≠ x) with
    | nil =>
      rw [cutFields, hdrop]
      refine ⟨fun f hf => ?_, by simp⟩
      rw [List.mem_singleton.mp hf]
      intro hx
      simpa using List.dropWhile_eq_nil_iff.mp hdrop x hx
    | cons c rest =>
      -- the first field is what is in front of the first separator
      have hsplit : p = p.takeWhile (· ≠ x) ++ c :: rest := by
        rw [← hdrop, List.takeWhile_append_dropWhile]
      have hnot : x ∉ p.takeWhile (· ≠ x) := by
        intro hx
        simpa using List.mem_takeWhile_imp hx
      obtain ⟨hsep, hbefore⟩ := ih rest
      have hcut : cutFields x (n + 1) p = p.takeWhile (· ≠ x) :: cutFields x n rest := by
        rw [cutFields, hdrop]
      rw [hcut]
      refine ⟨fun f hf => ?_, fun f hf y hy => ?_⟩
      · rcases List.mem_cons.mp hf with rfl | hf
        · exact hnot
        · exact hsep f hf
      · have hlast : p.dropLast = p.takeWhile (· ≠ x) ++ (c :: rest).dropLast := by
          conv_lhs => rw [hsplit]
          exact List.dropLast_append_of_ne_nil (List.cons_ne_nil _ _)
        rw [hlast]
        by_cases hnil : cutFields x n rest = []
        · rw [hnil] at hf
          simp at hf
        rw [List.dropLast_cons_of_ne_nil hnil] at hf
        rcases List.mem_cons.mp hf with rfl | hf
        · exact List.mem_append_left _ hy
        · have hmem := hbefore f hf y hy
          have hrest : rest ≠ [] := fun h => by
            rw [h] at hmem
            simp at hmem
          rw [List.dropLast_cons_of_ne_nil hrest]
          exact List.mem_append_right _ (List.mem_cons_of_mem _ hmem)

theorem not_mem_of_mem_splitOn {x : UInt8} {s l : Bytes} (h : l ∈ s.splitOn x) : x ∉ l := by
  induction s generalizing l with
  | nil =>
    rw [List.splitOn_nil, List.mem_singleton] at h
    exact h ▸ List.not_mem_nil
  | cons c s ih =>
    rw [List.splitOn_cons_eq_if_modifyHead] at h
    split at h
    · rcases List.mem_cons.mp h with rfl | h
      · exact List.not_mem_nil
      · exact ih h
    · rename_i hc
      obtain ⟨hd, tl, hsplit⟩ := List.exists_cons_of_ne_nil (List.splitOn_ne_nil x s)
      rw [hsplit] at h ih
      rcases List.mem_cons.mp h with rfl | h
      · intro hx
        rcases List.mem_cons.mp hx with rfl | hx
        · exact hc (by simp)
        · exact ih List.mem_cons_self hx
      · exact ih (List.mem_cons_of_mem _ h)

theorem mem_intercalate {x y : UInt8} {ls : List Bytes} (h : y ∈ [x].intercalate ls) :
    y = x ∨ ∃ l ∈ ls, y ∈ l := by
  induction ls with
  | nil => exact absurd h List.not_mem_nil
  | cons l ls ih =>
    cases ls with
    | nil =>
      rw [List.intercalate_singleton] at h
      exact .inr ⟨l, List.mem_cons_self, h⟩
    | cons l' ls =>
      rw [List.intercalate_cons_cons, List.append_assoc] at h
      rcases List.mem_append.mp h with h | h
      · exact .inr ⟨l, List.mem_cons_self, h⟩
      rcases List.mem_cons.mp h with h | h
      · exact .inl h
      · obtain h | ⟨l'', hl, hy⟩ := ih h
        · exact .inl h
        · exact .inr ⟨l'', List.mem_cons_of_mem _ hl, hy⟩

/-- The length of a line, separators included. -/
theorem length_intercalate (x : UInt8) (ls : List Bytes) (hne : ls ≠ []) :
    ([x].intercalate ls).length + 1 = (ls.map fun l => l.length + 1).sum := by
  induction ls with
  | nil => exact absurd rfl hne
  | cons l ls ih =>
    cases ls with
    | nil => simp
    | cons l' ls =>
      have hrest := ih (List.cons_ne_nil _ _)
      rw [List.intercalate_cons_cons, List.map_cons, List.sum_cons, ← hrest]
      simp only [List.length_append, List.length_singleton]
      omega

theorem length_intercalate_le (x : UInt8) (ls : List Bytes) {k : Nat}
    (h : ∀ l ∈ ls, l.length ≤ k) : ([x].intercalate ls).length ≤ (k + 1) * ls.length - 1 := by
  by_cases hne : ls = []
  · subst hne
    simp
  have hsum : (ls.map fun l => l.length + 1).sum ≤ (k + 1) * ls.length := by
    have := List.sum_le_card_nsmul (ls.map fun l => l.length + 1) (k + 1) (by
      intro n hn
      obtain ⟨l, hl, rfl⟩ := List.mem_map.mp hn
      exact Nat.succ_le_succ (h l hl))
    rw [List.length_map, Nat.nsmul_eq_mul, Nat.mul_comm] at this
    exact this
  have hlen := length_intercalate x ls hne
  omega

end ContainerSim.Lib
