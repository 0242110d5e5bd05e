import ContainerSim.Filesystem.CopyPath
import ContainerSim.Lib.Lines
import ContainerSim.Lib.Run
import ContainerSim.Lib.Scan

/-!
# Preparing a root file system

`filesystem_prepare_rootfs` copies a few tools and what `ldd` says they need. The
paths are those that the lines of `ldd` name (`dependencies_copied_iff`). A marker
file says that this has been done. It is created last, so there is one only if a
call has copied everything, and then nothing is copied any more
(`marker_means_bootstrapped`).
-/

namespace ContainerSim.Filesystem

open Lib

/-! ## The output of `ldd` -/

/-- Why a line names no path: `EINVAL`, `ENOENT`, `ENAMETOOLONG`. -/
inductive LddError where
  | invalid
  | notFound
  | tooLong
  deriving DecidableEq, Repr

def arrow : Bytes := bytes "=> "

def arrowNotFound : Bytes := bytes "=> not found"

/-- `parse_ldd_dependency`. -/
def parseLddDependency (line : Bytes) (pathSize : Nat) : Except LddError Bytes :=
  if (strstr line arrowNotFound).isSome then .error .notFound
  else
    let start :=
      match strstr line arrow with
      | some p => (p.drop 3).dropWhile (· = 32)
      | none => line.dropWhile fun c => c = 32 ∨ c = 9
    if start.head? ≠ some 47 then .error .invalid
    else
      let path := start.takeWhile fun c => c ≠ 32 ∧ c ≠ 9 ∧ c ≠ 10
      if path.length = 0 ∨ path.length ≥ pathSize then .error .tooLong else .ok path

/-- Answers for one `copy_binary_dependencies`. -/
structure LddOutcome where
  /-- what `popen` gives to read -/
  output : Option Bytes
  /-- whether the `k`-th `copy_path_into_rootfs` returns 0 -/
  copy : Nat → Bytes → Bool
  pclose : Bool

/-- The loop over the lines, behind `k` copies: the paths it copies, each with
the result, and whether it goes through. -/
def copyDependencies (copy : Nat → Bytes → Bool) :
    Nat → List Bytes → List (Bytes × Bool) × Bool
  | _, [] => ([], true)
  | k, line :: lines =>
    match parseLddDependency line pathMax with
    | .error .invalid => copyDependencies copy k lines
    | .error _ => ([], false)
    | .ok dependency =>
      if copy k dependency then
        let (copies, ok) := copyDependencies copy (k + 1) lines
        ((dependency, true) :: copies, ok)
      else ([(dependency, false)], false)

/-- `copy_binary_dependencies`. -/
def copyBinaryDependencies (o : LddOutcome) (binaryPath : Bytes) : List (Bytes × Bool) × Bool :=
  if (bytes "ldd " ++ binaryPath).length ≥ pathMax + 16 then ([], false)
  else
    match o.output with
    | none => ([], false)
    | some output =>
      let (copies, ok) := copyDependencies o.copy 0 (chunks (pathMax * 2) output)
      (copies, ok && o.pclose)

/-- What a line of `ldd` says. -/
inductive LddEntry where
  /-- a library without a file: `linux-vdso.so.1 (0x...)` -/
  | virtual (name address : Bytes)
  /-- the loader: `/lib64/ld-linux-x86-64.so.2 (0x...)` -/
  | direct (path address : Bytes)
  | found (name path address : Bytes)
  | missing (name : Bytes)

namespace LddEntry

/-- The line, without its end. -/
def line : LddEntry → Bytes
  | virtual name address => 9 :: name ++ bytes " (" ++ address ++ bytes ")"
  | direct path address => 9 :: path ++ bytes " (" ++ address ++ bytes ")"
  | found name path address => 9 :: name ++ bytes " => " ++ path ++ bytes " (" ++ address ++ bytes ")"
  | missing name => 9 :: name ++ bytes " => not found"

/-- The path to be copied. -/
def dependency : LddEntry → Option Bytes
  | virtual _ _ | missing _ => none
  | direct path _ | found _ path _ => some path

end LddEntry

/-- A word of a line: no blanks, no end of line, no `=`. -/
def LddWord (word : Bytes) : Prop := ∀ c ∈ word, c ≠ 32 ∧ c ≠ 9 ∧ c ≠ 10 ∧ c ≠ 61

/-- A path that fits its buffer. -/
structure LddPath (path : Bytes) : Prop where
  word : LddWord path
  absolute : path.head? = some 47
  fits : path.length < pathMax

/-- The lines that `ldd` writes. -/
def LddEntry.Ok : LddEntry → Prop
  | virtual name address => LddWord name ∧ name.head? ≠ some 47 ∧ LddWord address
  | direct path address => LddPath path ∧ LddWord address
  | found name path address => LddWord name ∧ LddPath path ∧ LddWord address
  | missing name => LddWord name

/-- A path as it stands in its line. -/
theorem LddPath.read {path : Bytes} (h : LddPath path) (rest : Bytes) :
    (path ++ 32 :: rest).head? = some 47 ∧
      (path ++ 32 :: rest).takeWhile (fun c => c ≠ 32 ∧ c ≠ 9 ∧ c ≠ 10) = path ∧
        ¬ (path.length = 0 ∨ path.length ≥ pathMax) := by
  have hne : path ≠ [] := by
    rintro rfl
    cases h.absolute
  refine ⟨?_, ?_, ?_⟩
  · rw [List.head?_append, h.absolute]
    rfl
  · rw [List.takeWhile_append_of_pos fun c hc => ?_]
    · simp
    · obtain ⟨hblank, htab, hnl, -⟩ := h.word c hc
      simp [hblank, htab, hnl]
  · rw [not_or, List.length_eq_zero_iff]
    exact ⟨hne, Nat.not_le_of_lt h.fits⟩

section
variable {name path address : Bytes}

theorem LddWord.no_sign {word : Bytes} (h : LddWord word) : (61 : UInt8) ∉ word :=
  fun hmem => (h 61 hmem).2.2.2 rfl

/-- Blanks are skipped up to the first word. -/
theorem dropWhile_word {word rest : Bytes} (h : LddWord word) (hne : word ≠ []) :
    (9 :: (word ++ rest)).dropWhile (fun c : UInt8 => c = 32 ∨ c = 9) = word ++ rest := by
  obtain ⟨c, cs, rfl⟩ := List.exists_cons_of_ne_nil hne
  obtain ⟨hblank, htab, -⟩ := h c List.mem_cons_self
  simp [hblank, htab]

theorem parse_direct (hpath : LddPath path) (haddress : LddWord address) :
    parseLddDependency ((LddEntry.direct path address).line ++ [10]) pathMax = .ok path := by
  have hne : path ≠ [] := by
    rintro rfl
    cases hpath.absolute
  have hline : (LddEntry.direct path address).line ++ [10] =
      9 :: (path ++ 32 :: (40 :: (address ++ [41, 10]))) := by
    simp [LddEntry.line, bytes]
  have hsign : (61 : UInt8) ∉ 9 :: (path ++ 32 :: (40 :: (address ++ [41, 10]))) := by
    simp [hpath.word.no_sign, haddress.no_sign]
  obtain ⟨hhead, htake, hlength⟩ := hpath.read (40 :: (address ++ [41, 10]))
  rw [hline, parseLddDependency, strstr_absent (c := 61) (by decide) hsign,
    strstr_absent (c := 61) (by decide) hsign]
  simp only [Option.isSome_none, Bool.false_eq_true, if_false, dropWhile_word hpath.word hne,
    hhead, ne_eq, not_true_eq_false, htake, hlength]

theorem parse_virtual (hname : LddWord name) (hhead : name.head? ≠ some 47)
    (haddress : LddWord address) :
    parseLddDependency ((LddEntry.virtual name address).line ++ [10]) pathMax =
      .error .invalid := by
  have hline : (LddEntry.virtual name address).line ++ [10] =
      9 :: (name ++ 32 :: (40 :: (address ++ [41, 10]))) := by
    simp [LddEntry.line, bytes]
  have hsign : (61 : UInt8) ∉ 9 :: (name ++ 32 :: (40 :: (address ++ [41, 10]))) := by
    simp [hname.no_sign, haddress.no_sign]
  have hstart : ((9 :: (name ++ 32 :: (40 :: (address ++ [41, 10])))).dropWhile
      fun c : UInt8 => c = 32 ∨ c = 9).head? ≠ some 47 := by
    cases name with
    | nil => simp
    | cons c cs =>
      rw [dropWhile_word hname (List.cons_ne_nil c cs)]
      simpa using hhead
  rw [hline, parseLddDependency, strstr_absent (c := 61) (by decide) hsign,
    strstr_absent (c := 61) (by decide) hsign]
  simp only [Option.isSome_none, Bool.false_eq_true, if_false]
  rw [if_pos hstart]

theorem parse_found (hname : LddWord name) (hpath : LddPath path) (haddress : LddWord address) :
    parseLddDependency ((LddEntry.found name path address).line ++ [10]) pathMax = .ok path := by
  let rest := path ++ 32 :: (40 :: (address ++ [41, 10]))
  have hline : (LddEntry.found name path address).line ++ [10] =
      (9 :: (name ++ [32])) ++ 61 :: (62 :: 32 :: rest) := by
    simp [LddEntry.line, bytes, rest]
  have hpre : (61 : UInt8) ∉ 9 :: (name ++ [32]) := by simp [hname.no_sign]
  have hpost : (61 : UInt8) ∉ 62 :: 32 :: rest := by
    simp [rest, hpath.word.no_sign, haddress.no_sign]
  obtain ⟨hhead, htake, hlength⟩ := hpath.read (40 :: (address ++ [41, 10]))
  have hnot : strstr ((9 :: (name ++ [32])) ++ 61 :: (62 :: 32 :: rest)) arrowNotFound = none := by
    obtain ⟨cs, rfl⟩ : ∃ cs, path = 47 :: cs := by
      cases path with
      | nil => cases hpath.absolute
      | cons c cs =>
        cases hpath.absolute
        exact ⟨cs, rfl⟩
    exact (strstr_single hpre hpost (bytes "> not found")).trans (by simp [rest, bytes])
  have harrow : strstr ((9 :: (name ++ [32])) ++ 61 :: (62 :: 32 :: rest)) arrow =
      some (61 :: 62 :: 32 :: rest) :=
    (strstr_single hpre hpost (bytes "> ")).trans (by simp [bytes])
  have hstart : rest.dropWhile (fun c : UInt8 => c = 32) = rest := by
    cases path with
    | nil => cases hpath.absolute
    | cons c cs =>
      cases hpath.absolute
      rfl
  rw [hline, parseLddDependency, hnot, harrow]
  simp only [Option.isSome_none, Bool.false_eq_true, if_false, List.drop_succ_cons, List.drop_zero,
    hstart]
  rw [if_neg (not_not.mpr hhead), htake, if_neg hlength]

theorem parse_missing (hname : LddWord name) :
    parseLddDependency ((LddEntry.missing name).line ++ [10]) pathMax = .error .notFound := by
  have hline : (LddEntry.missing name).line ++ [10] =
      (9 :: (name ++ [32])) ++ 61 :: (bytes "> not found" ++ [10]) := by
    simp [LddEntry.line, bytes]
  have hpre : (61 : UInt8) ∉ 9 :: (name ++ [32]) := by simp [hname.no_sign]
  have hfound : strstr ((9 :: (name ++ [32])) ++ 61 :: (bytes "> not found" ++ [10]))
      arrowNotFound = some (61 :: (bytes "> not found" ++ [10])) :=
    (strstr_single hpre (by decide) (bytes "> not found")).trans (by decide)
  rw [hline, parseLddDependency, hfound]
  rfl

end

theorem LddWord.no_newline {word : Bytes} (h : LddWord word) : (10 : UInt8) ∉ word :=
  fun hmem => (h 10 hmem).2.2.1 rfl

theorem LddEntry.Ok.no_newline {e : LddEntry} (h : e.Ok) : (10 : UInt8) ∉ e.line := by
  cases e with
  | virtual name address => simp [line, bytes, h.1.no_newline, h.2.2.no_newline]
  | direct path address => simp [line, bytes, h.1.word.no_newline, h.2.no_newline]
  | found name path address =>
    simp [line, bytes, h.1.no_newline, h.2.1.word.no_newline, h.2.2.no_newline]
  | missing name =>
    have hname : LddWord name := h
    simp [line, bytes, hname.no_newline]

/-- What a line is parsed to. -/
def LddEntry.result : LddEntry → Except LddError Bytes
  | virtual _ _ => .error .invalid
  | direct path _ | found _ path _ => .ok path
  | missing _ => .error .notFound

theorem parse_line {e : LddEntry} (h : e.Ok) :
    parseLddDependency (e.line ++ [10]) pathMax = e.result := by
  cases e with
  | virtual name address => exact parse_virtual h.1 h.2.1 h.2.2
  | direct path address => exact parse_direct h.1 h.2
  | found name path address => exact parse_found h.1 h.2.1 h.2.2
  | missing name => exact parse_missing h

/-! ## The dependencies -/

/-- No library is missing. -/
def LddEntry.Resolved (es : List LddEntry) : Prop := ∀ e ∈ es, ∀ name, e ≠ .missing name

theorem resolved_cons {e : LddEntry} {es : List LddEntry} (h : ∀ name, e ≠ .missing name) :
    LddEntry.Resolved (e :: es) ↔ LddEntry.Resolved es := by
  simp [LddEntry.Resolved, h]

/-- The loop over lines that name a path each, or none. -/
theorem copyDependencies_spec {es : List LddEntry} (hok : ∀ e ∈ es, e.Ok)
    (copy : Nat → Bytes → Bool) (k : Nat) :
    let r := copyDependencies copy k (es.map fun e => e.line ++ [10])
    let paths := es.filterMap LddEntry.dependency
    (r.2 = true ↔ LddEntry.Resolved es ∧
      ∀ j p, paths[j]? = some p → copy (k + j) p = true) ∧
    (r.2 = true → r.1 = paths.map fun p => (p, true)) ∧ r.1.map Prod.fst <+: paths := by
  induction es generalizing k with
  | nil => simp [copyDependencies, LddEntry.Resolved]
  | cons e es ih =>
    have hparse := parse_line (hok e List.mem_cons_self)
    have hrest := fun k => ih (fun e he => hok e (List.mem_cons_of_mem _ he)) k
    -- a line with a path: one copy, and the rest of the lines if it works
    have hcopied : ∀ path, e.dependency = some path → (∀ name, e ≠ .missing name) →
        e.result = .ok path →
        let r := copyDependencies copy k ((e :: es).map fun e => e.line ++ [10])
        let paths := (e :: es).filterMap LddEntry.dependency
        (r.2 = true ↔ LddEntry.Resolved (e :: es) ∧
          ∀ j p, paths[j]? = some p → copy (k + j) p = true) ∧
        (r.2 = true → r.1 = paths.map fun p => (p, true)) ∧ r.1.map Prod.fst <+: paths := by
      intro path hdep hthere hresult
      obtain ⟨hiff, hall, hprefix⟩ := hrest (k + 1)
      simp only [List.map_cons, copyDependencies, hparse, hresult, resolved_cons hthere,
        List.filterMap_cons, hdep]
      cases hcopy : copy k path with
      | true =>
        simp only [if_true]
        refine ⟨hiff.trans (and_congr_right fun _ => ?_), fun h => ?_, ?_⟩
        · constructor
          · intro h j p hp
            cases j with
            | zero =>
              cases hp
              exact hcopy
            | succ j => exact Nat.add_right_comm k j 1 ▸ h j p hp
          · intro h j p hp
            rw [Nat.add_right_comm]
            exact h (j + 1) p hp
        · rw [hall h]
        · rw [List.map_cons, List.cons_prefix_cons]
          exact ⟨rfl, hprefix⟩
      | false =>
        simp only [Bool.false_eq_true, if_false, false_iff, not_and]
        refine ⟨fun _ h => ?_, fun h => h.elim, ?_⟩
        · have hfirst := h 0 path rfl
          rw [Nat.add_zero, hcopy] at hfirst
          exact absurd hfirst Bool.false_ne_true
        · rw [List.map_cons, List.map_nil, List.cons_prefix_cons]
          exact ⟨rfl, List.nil_prefix⟩
    cases e with
    | virtual name address =>
      have hthere : ∀ n, LddEntry.virtual name address ≠ .missing n := fun _ h => by cases h
      simp only [List.map_cons, copyDependencies, hparse, LddEntry.result, resolved_cons hthere,
        List.filterMap_cons, LddEntry.dependency]
      exact hrest k
    | direct path address => exact hcopied path rfl (fun _ h => by cases h) rfl
    | found name path address => exact hcopied path rfl (fun _ h => by cases h) rfl
    | missing name =>
      simp only [List.map_cons, copyDependencies, hparse, LddEntry.result]
      refine ⟨iff_of_false Bool.false_ne_true fun h => ?_, fun h => absurd h Bool.false_ne_true, ?_⟩
      · exact h.1 _ List.mem_cons_self name rfl
      · exact List.nil_prefix

/-- Reading lines of `ldd`. -/
theorem copyBinaryDependencies_lines {o : LddOutcome} {binary : Bytes} {es : List LddEntry}
    (hok : ∀ e ∈ es, e.Ok) (hlines : ∀ e ∈ es, e.line.length + 2 ≤ pathMax * 2)
    (hcommand : (bytes "ldd " ++ binary).length < pathMax + 16)
    (houtput : o.output = some (es.flatMap fun e => e.line ++ [10])) :
    copyBinaryDependencies o binary =
      ((copyDependencies o.copy 0 (es.map fun e => e.line ++ [10])).1,
        (copyDependencies o.copy 0 (es.map fun e => e.line ++ [10])).2 && o.pclose) := by
  have hrows : ∀ r ∈ es.map LddEntry.line, r.length + 2 ≤ pathMax * 2 ∧ (10 : UInt8) ∉ r := by
    intro r hr
    obtain ⟨e, he, rfl⟩ := List.mem_map.mp hr
    exact ⟨hlines e he, (hok e he).no_newline⟩
  have hchunks : chunks (pathMax * 2) (es.flatMap fun e => e.line ++ [10]) =
      es.map fun e => e.line ++ [10] := by
    have h := chunks_lines hrows
    rwa [List.flatMap_map, List.map_map] at h
  rw [copyBinaryDependencies, if_neg (Nat.not_le_of_lt hcommand), houtput]
  simp only [hchunks]

/-- **The dependencies are what `ldd` says.** A call that reads the lines of `ldd`
goes through exactly when no library is missing and every copy works. Then it has
copied the path of each line, in order, and otherwise the first of them. -/
theorem dependencies_copied_iff {o : LddOutcome} {binary : Bytes} {es : List LddEntry}
    (hok : ∀ e ∈ es, e.Ok) (hlines : ∀ e ∈ es, e.line.length + 2 ≤ pathMax * 2)
    (hcommand : (bytes "ldd " ++ binary).length < pathMax + 16)
    (houtput : o.output = some (es.flatMap fun e => e.line ++ [10])) :
    ((copyBinaryDependencies o binary).2 = true ↔ LddEntry.Resolved es ∧
      (∀ k p, (es.filterMap LddEntry.dependency)[k]? = some p → o.copy k p = true) ∧
        o.pclose = true) ∧
    ((copyBinaryDependencies o binary).2 = true → (copyBinaryDependencies o binary).1 =
      (es.filterMap LddEntry.dependency).map fun p => (p, true)) ∧
    (copyBinaryDependencies o binary).1.map Prod.fst <+: es.filterMap LddEntry.dependency := by
  obtain ⟨hiff, hall, hprefix⟩ := copyDependencies_spec hok o.copy 0
  rw [copyBinaryDependencies_lines hok hlines hcommand houtput]
  simp only [Bool.and_eq_true]
  refine ⟨?_, fun h => hall h.1, hprefix⟩
  simp only [hiff, Nat.zero_add, and_assoc]

/-- What `ldd` says of a shell, with one library missing. -/
def shellLdd : List LddEntry :=
  [.virtual (bytes "linux-vdso.so.1") (bytes "0x00007ffd"),
    .found (bytes "libc.so.6") (bytes "/lib/x86_64-linux-gnu/libc.so.6") (bytes "0x00007f10"),
    .missing (bytes "libtinfo.so.6"),
    .direct (bytes "/lib64/ld-linux-x86-64.so.2") (bytes "0x00007f20")]

theorem dependencies_copied_missing :
    let o : LddOutcome :=
      { output := some (shellLdd.flatMap fun e => e.line ++ [10]), copy := fun _ _ => true
        pclose := true }
    (copyBinaryDependencies o (bytes "/bin/sh")).2 ≠ true ∧
      (copyBinaryDependencies o (bytes "/bin/sh")).1.map Prod.fst <+:
        [bytes "/lib/x86_64-linux-gnu/libc.so.6", bytes "/lib64/ld-linux-x86-64.so.2"] := by
  have hword : ∀ word ∈ [bytes "linux-vdso.so.1", bytes "0x00007ffd", bytes "libc.so.6",
      bytes "/lib/x86_64-linux-gnu/libc.so.6", bytes "0x00007f10", bytes "libtinfo.so.6",
      bytes "/lib64/ld-linux-x86-64.so.2", bytes "0x00007f20"],
      ∀ c ∈ word, c ≠ 32 ∧ c ≠ 9 ∧ c ≠ 10 ∧ c ≠ 61 := by
    decide +kernel
  have hok : ∀ e ∈ shellLdd, e.Ok := by
    simp only [shellLdd, List.forall_mem_cons]
    refine ⟨⟨hword _ (by simp), by decide +kernel, hword _ (by simp)⟩,
      ⟨hword _ (by simp), ⟨hword _ (by simp), by decide +kernel, by decide +kernel⟩,
        hword _ (by simp)⟩,
      hword _ (by simp),
      ⟨⟨hword _ (by simp), by decide +kernel, by decide +kernel⟩, hword _ (by simp)⟩, nofun⟩
  have hcommand : (bytes "ldd " ++ bytes "/bin/sh").length < pathMax + 16 := by decide +kernel
  have h := dependencies_copied_iff
    (o := { output := some (shellLdd.flatMap fun e => e.line ++ [10]), copy := fun _ _ => true
            pclose := true }) hok (by decide +kernel) hcommand rfl
  refine ⟨fun hthrough => ?_, h.2.2⟩
  exact (h.1.mp hthrough).1 (.missing (bytes "libtinfo.so.6")) (by simp [shellLdd]) _ rfl

/-! ## The bootstrap -/

/-- `bootstrap_binaries`. -/
def bootstrapBinaries : List Bytes :=
  [bytes "/bin/sh", bytes "/bin/echo", bytes "/bin/hostname", bytes "/bin/ps", bytes "/bin/sleep"]

/-- The container paths of `bootstrap_workloads`; on the host they are relative. -/
def bootstrapWorkloads : List Bytes :=
  [bytes "/bin/workload-cpu", bytes "/bin/workload-mem", bytes "/bin/workload-fork",
    bytes "/bin/workload-netcheck"]

/-- The directories of `create_layout`. -/
def layoutDirs : List Bytes :=
  [bytes "bin", bytes "lib", bytes "lib64", bytes "usr", bytes "usr/bin", bytes "usr/lib",
    bytes "usr/lib64", bytes "proc", bytes "tmp", bytes "dev", bytes ".old_root"]

/-- `create_layout`; the `i`-th directory is made on the `i`-th host. -/
def createLayout (hosts : Nat → Host) (rootfs : Bytes) : Bool :=
  layoutDirs.zipIdx.all fun d =>
    let path := rootfs ++ [47] ++ d.1
    path.length < pathMax && mkdirP (hosts d.2) path

/-- `copy_host_binary_to_container_path`. -/
def copyHostBinaryToContainerPath (host : Host) (rootfs hostBinary containerPath : Bytes) :
    List Write × Bool :=
  if containerPath.head? ≠ some 47 then ([], false)
  else if host.node hostBinary ≠ .regular then ([], false)
  else
    let destination := rootfs ++ containerPath
    if destination.length ≥ pathMax then ([], false)
    else
      match pathDirname destination pathMax with
      | none => ([], false)
      | some destinationDir =>
        if !mkdirP host destinationDir then ([], false)
        else copyRegularFile host hostBinary destination

/-- Answers for a binary and its dependencies. -/
structure BinaryOutcome where
  /-- the hosts that the calls of the `k`-th copy find; 0 is the binary itself -/
  hosts : Nat → Nat → Host
  /-- how many links a copy follows at most -/
  calls : Nat
  output : Option Bytes
  pclose : Bool

/-- Whether a copy returns 0. -/
def BinaryOutcome.copies (o : BinaryOutcome) (rootfs : Bytes) (k : Nat) (path : Bytes) : Bool :=
  (copyPathIntoRootfs rootfs o.calls (o.hosts k) path).2 = some true

/-- The answers to its `copy_binary_dependencies`. -/
def BinaryOutcome.ldd (o : BinaryOutcome) (rootfs : Bytes) : LddOutcome :=
  { output := o.output, copy := fun k path => o.copies rootfs (k + 1) path, pclose := o.pclose }

/-- A binary that has been copied, or not, and what `ldd` says it needs. -/
def copyBinary (o : BinaryOutcome) (rootfs path : Bytes) (copied : Bool) :
    List (Bytes × Bool) × Bool :=
  if !copied then ([(path, false)], false)
  else
    let (copies, ok) := copyBinaryDependencies (o.ldd rootfs) path
    ((path, true) :: copies, ok)

/-- One after the other, up to the first that returns -1. -/
def sequenced : List (List (Bytes × Bool) × Bool) → List (Bytes × Bool) × Bool
  | [] => ([], true)
  | (copies, ok) :: jobs =>
    if !ok then (copies, false)
    else
      let (rest, ok) := sequenced jobs
      (copies ++ rest, ok)

/-- `realpath` of a workload. -/
inductive RealpathRes where
  | found (path : Bytes)
  | missing
  | fails

/-- Answers for the bootstrap. -/
structure BootstrapOutcome where
  tools : Nat → BinaryOutcome
  realpath : Nat → RealpathRes
  workloads : Nat → BinaryOutcome

/-- `bootstrap_rootfs_tools`. -/
def bootstrapRootfsTools (o : BootstrapOutcome) (rootfs : Bytes) : List (Bytes × Bool) × Bool :=
  sequenced <| bootstrapBinaries.zipIdx.map fun b =>
    copyBinary (o.tools b.2) rootfs b.1 ((o.tools b.2).copies rootfs 0 b.1)

/-- `bootstrap_rootfs_workloads`. -/
def bootstrapRootfsWorkloads (o : BootstrapOutcome) (rootfs : Bytes) :
    List (Bytes × Bool) × Bool :=
  sequenced <| bootstrapWorkloads.zipIdx.map fun w =>
    match o.realpath w.2 with
    | .missing => ([], true)
    | .fails => ([], false)
    | .found path =>
      copyBinary (o.workloads w.2) rootfs path
        (copyHostBinaryToContainerPath ((o.workloads w.2).hosts 0 0) rootfs path w.1).2

/-- Both. -/
def bootstrap (o : BootstrapOutcome) (rootfs : Bytes) : List (Bytes × Bool) × Bool :=
  sequenced [bootstrapRootfsTools o rootfs, bootstrapRootfsWorkloads o rootfs]

/-- Answers for one `filesystem_prepare_rootfs`. -/
structure PrepareOutcome where
  mkdir : Host
  realpath : Option Bytes
  layout : Nat → Host
  bootstrap : BootstrapOutcome
  /-- `open` of the marker with `O_CREAT` -/
  marker : Bool

/-- What a call copies, whether there is a marker then, and what it returns. -/
structure Preparation where
  copies : List (Bytes × Bool)
  marker : Bool
  result : Option Bytes

/-- `filesystem_prepare_rootfs`, of a rootfs with a marker or without one. -/
def filesystemPrepareRootfs (o : PrepareOutcome) (requested : Bytes) (size : Nat)
    (marker : Bool) : Preparation :=
  if !mkdirP o.mkdir requested then { copies := [], marker, result := none }
  else
    match o.realpath with
    | none => { copies := [], marker, result := none }
    | some absolute =>
      if !createLayout o.layout absolute then { copies := [], marker, result := none }
      else
        let resolved := if absolute.length ≥ size then none else some absolute
        if marker then { copies := [], marker, result := resolved }
        else
          let (copies, ok) := bootstrap o.bootstrap absolute
          if !ok then { copies, marker, result := none }
          else { copies, marker := o.marker, result := resolved }

/-! ## The marker -/

/-- A rootfs: its marker, and what each call has copied. -/
structure RootfsLog where
  marker : Bool
  calls : List (List (Bytes × Bool))

inductive PrepareAct where
  | call (o : PrepareOutcome) (requested : Bytes) (size : Nat)
  /-- a call that is killed behind so many copies -/
  | killed (o : PrepareOutcome) (requested : Bytes) (size : Nat) (copies : Nat)

def prepareStep (s : RootfsLog) : PrepareAct → Option RootfsLog
  | .call o requested size =>
    let p := filesystemPrepareRootfs o requested size s.marker
    some { marker := p.marker, calls := s.calls ++ [p.copies] }
  | .killed o requested size n =>
    let p := filesystemPrepareRootfs o requested size s.marker
    some { s with calls := s.calls ++ [p.copies.take n] }

theorem sequenced_ok {jobs : List (List (Bytes × Bool) × Bool)} (h : (sequenced jobs).2 = true) :
    (∀ job ∈ jobs, job.2 = true) ∧ (sequenced jobs).1 = jobs.flatMap Prod.fst := by
  induction jobs with
  | nil => exact ⟨fun _ hmem => absurd hmem List.not_mem_nil, rfl⟩
  | cons job jobs ih =>
    obtain ⟨copies, ok⟩ := job
    cases ok with
    | false => exact absurd h Bool.false_ne_true
    | true =>
      obtain ⟨hall, hcopies⟩ := ih h
      refine ⟨?_, ?_⟩
      · intro job hmem
        rcases List.mem_cons.mp hmem with rfl | hmem
        · rfl
        · exact hall job hmem
      · show copies ++ (sequenced jobs).1 = _
        rw [hcopies, List.flatMap_cons]

theorem copyDependencies_ok {copy : Nat → Bytes → Bool} {k : Nat} {lines : List Bytes}
    (h : (copyDependencies copy k lines).2 = true) :
    ∀ c ∈ (copyDependencies copy k lines).1, c.2 = true := by
  induction lines generalizing k with
  | nil => exact fun _ hmem => absurd hmem List.not_mem_nil
  | cons line lines ih =>
    rw [copyDependencies] at h ⊢
    cases hparse : parseLddDependency line pathMax with
    | error e =>
      rw [hparse] at h
      cases e with
      | invalid => exact ih h
      | notFound => exact absurd h Bool.false_ne_true
      | tooLong => exact absurd h Bool.false_ne_true
    | ok dependency =>
      rw [hparse] at h
      simp only at h ⊢
      split at h
      · rename_i hcopy
        rw [if_pos hcopy]
        intro c hc
        rcases List.mem_cons.mp hc with rfl | hc
        · rfl
        · exact ih h c hc
      · exact absurd h Bool.false_ne_true

theorem copyBinaryDependencies_ok {o : LddOutcome} {path : Bytes}
    (h : (copyBinaryDependencies o path).2 = true) :
    ∀ c ∈ (copyBinaryDependencies o path).1, c.2 = true := by
  unfold copyBinaryDependencies at h ⊢
  split at h
  · exact absurd h Bool.false_ne_true
  · rename_i hcommand
    rw [if_neg hcommand]
    cases houtput : o.output with
    | none =>
      rw [houtput] at h
      exact absurd h Bool.false_ne_true
    | some output =>
      rw [houtput] at h
      rw [Bool.and_eq_true] at h
      exact copyDependencies_ok h.1

theorem copyBinary_ok {o : BinaryOutcome} {rootfs path : Bytes} {copied : Bool}
    (h : (copyBinary o rootfs path copied).2 = true) :
    (copyBinaryDependencies (o.ldd rootfs) path).2 = true ∧
      (copyBinary o rootfs path copied).1 =
        (path, true) :: (copyBinaryDependencies (o.ldd rootfs) path).1 := by
  cases copied with
  | false => exact absurd h Bool.false_ne_true
  | true => exact ⟨h, rfl⟩

theorem copyBinary_all {o : BinaryOutcome} {rootfs path : Bytes} {copied : Bool}
    (h : (copyBinary o rootfs path copied).2 = true) :
    ∀ c ∈ (copyBinary o rootfs path copied).1, c.2 = true := by
  obtain ⟨hok, heq⟩ := copyBinary_ok h
  intro c hc
  rw [heq] at hc
  rcases List.mem_cons.mp hc with rfl | hc
  · rfl
  · exact copyBinaryDependencies_ok hok c hc

/-- A bootstrap that goes through, over all its copies. -/
theorem bootstrap_ok {o : BootstrapOutcome} {rootfs : Bytes} (h : (bootstrap o rootfs).2 = true) :
    (bootstrapRootfsTools o rootfs).2 = true ∧ (bootstrapRootfsWorkloads o rootfs).2 = true ∧
      (bootstrap o rootfs).1 =
        (bootstrapRootfsTools o rootfs).1 ++ (bootstrapRootfsWorkloads o rootfs).1 := by
  obtain ⟨hall, heq⟩ := sequenced_ok h
  refine ⟨hall _ List.mem_cons_self, hall _ (List.mem_cons_of_mem _ List.mem_cons_self), ?_⟩
  rw [bootstrap, heq]
  simp

theorem bootstrap_all {o : BootstrapOutcome} {rootfs : Bytes} (h : (bootstrap o rootfs).2 = true) :
    ∀ c ∈ (bootstrap o rootfs).1, c.2 = true := by
  obtain ⟨htools, hworkloads, heq⟩ := bootstrap_ok h
  obtain ⟨htool, htoolsEq⟩ := sequenced_ok htools
  obtain ⟨hworkload, hworkloadsEq⟩ := sequenced_ok hworkloads
  intro c hc
  rw [heq, List.mem_append] at hc
  rcases hc with hc | hc
  · rw [bootstrapRootfsTools, htoolsEq, List.mem_flatMap] at hc
    obtain ⟨job, hjob, hc⟩ := hc
    have hok := htool job hjob
    obtain ⟨b, -, rfl⟩ := List.mem_map.mp hjob
    exact copyBinary_all hok c hc
  · rw [bootstrapRootfsWorkloads, hworkloadsEq, List.mem_flatMap] at hc
    obtain ⟨job, hjob, hc⟩ := hc
    have hok := hworkload job hjob
    obtain ⟨w, -, rfl⟩ := List.mem_map.mp hjob
    cases hreal : o.realpath w.2 with
    | found path =>
      rw [hreal] at hok hc
      exact copyBinary_all hok c hc
    | missing =>
      rw [hreal] at hc
      exact absurd hc List.not_mem_nil
    | fails =>
      rw [hreal] at hok
      exact absurd hok Bool.false_ne_true

/-- What a complete bootstrap has copied of a tool. -/
theorem bootstrap_tool {o : BootstrapOutcome} {rootfs tool : Bytes} {i : Nat}
    (h : (bootstrap o rootfs).2 = true) (htool : bootstrapBinaries[i]? = some tool) :
    (tool, true) ∈ (bootstrap o rootfs).1 ∧
      (copyBinaryDependencies ((o.tools i).ldd rootfs) tool).2 = true ∧
      ∀ c ∈ (copyBinaryDependencies ((o.tools i).ldd rootfs) tool).1, c ∈ (bootstrap o rootfs).1 := by
  obtain ⟨htools, -, heq⟩ := bootstrap_ok h
  obtain ⟨hall, htoolsEq⟩ := sequenced_ok htools
  let job := copyBinary (o.tools i) rootfs tool ((o.tools i).copies rootfs 0 tool)
  have hjob : job ∈ bootstrapBinaries.zipIdx.map fun b =>
      copyBinary (o.tools b.2) rootfs b.1 ((o.tools b.2).copies rootfs 0 b.1) := by
    refine List.mem_map.mpr ⟨(tool, i), ?_, rfl⟩
    rw [List.mem_zipIdx_iff_getElem?]
    exact htool
  obtain ⟨hdeps, hjobEq⟩ := copyBinary_ok (hall job hjob)
  have hin : ∀ c ∈ job.1, c ∈ (bootstrap o rootfs).1 := by
    intro c hc
    rw [heq, List.mem_append, bootstrapRootfsTools, htoolsEq, List.mem_flatMap]
    exact .inl ⟨job, hjob, hc⟩
  refine ⟨hin _ ?_, hdeps, fun c hc => hin c ?_⟩
  · rw [hjobEq]
    exact List.mem_cons_self
  · rw [hjobEq]
    exact List.mem_cons_of_mem _ hc

/-- The `i`-th call has copied everything into the rootfs that `realpath` gave it,
and none behind it has copied anything. -/
structure CopiedAt (as : List PrepareAct) (s : RootfsLog) (i : Nat) (o : PrepareOutcome)
    (rootfs : Bytes) : Prop where
  call : ∃ requested size, as[i]? = some (.call o requested size)
  realpath : o.realpath = some rootfs
  copies : s.calls[i]? = some (bootstrap o.bootstrap rootfs).1
  idle : ∀ j copies, i < j → s.calls[j]? = some copies → copies = []

/-- Some call has done so, and went through. -/
def Bootstrapped (as : List PrepareAct) (s : RootfsLog) : Prop :=
  ∃ i o rootfs, CopiedAt as s i o rootfs ∧ (bootstrap o.bootstrap rootfs).2 = true

theorem filesystemPrepareRootfs_cases (o : PrepareOutcome) (requested : Bytes) (size : Nat)
    (marker : Bool) :
    let p := filesystemPrepareRootfs o requested size marker
    (p.copies = [] ∧ p.marker = marker ∧ (marker = true ∨ p.result = none)) ∨
      marker = false ∧ ∃ rootfs, o.realpath = some rootfs ∧
        p.copies = (bootstrap o.bootstrap rootfs).1 ∧
        (((bootstrap o.bootstrap rootfs).2 = true ∧ p.marker = o.marker) ∨
          (p.marker = false ∧ p.result = none)) := by
  unfold filesystemPrepareRootfs
  split
  · exact .inl ⟨rfl, rfl, .inr rfl⟩
  · cases o.realpath with
    | none => exact .inl ⟨rfl, rfl, .inr rfl⟩
    | some absolute =>
      simp only
      split
      · exact .inl ⟨rfl, rfl, .inr rfl⟩
      · cases marker with
        | true => exact .inl ⟨rfl, rfl, .inl rfl⟩
        | false =>
          refine .inr ⟨rfl, absolute, rfl, ?_⟩
          simp only [Bool.false_eq_true, if_false]
          cases hok : (bootstrap o.bootstrap absolute).2 with
          | true => exact ⟨rfl, .inl ⟨rfl, rfl⟩⟩
          | false => exact ⟨rfl, .inr ⟨rfl, rfl⟩⟩

/-- A call that copies nothing changes nothing. -/
theorem Bootstrapped.snoc_idle {as : List PrepareAct} {s : RootfsLog} (h : Bootstrapped as s)
    (hlen : s.calls.length = as.length) (a : PrepareAct) (marker : Bool) :
    Bootstrapped (as ++ [a]) { marker, calls := s.calls ++ [[]] } := by
  obtain ⟨i, o, rootfs, ⟨⟨requested, size, hcall⟩, hreal, hcopies, hidle⟩, hok⟩ := h
  have hi : i < s.calls.length := (List.getElem?_eq_some_iff.mp hcopies).1
  refine ⟨i, o, rootfs, ⟨⟨requested, size, ?_⟩, hreal, ?_, fun j copies hij hj => ?_⟩, hok⟩
  · rw [List.getElem?_append_left (by omega)]
    exact hcall
  · show (s.calls ++ [[]])[i]? = _
    rw [List.getElem?_append_left hi]
    exact hcopies
  · change (s.calls ++ [[]])[j]? = _ at hj
    rcases Nat.lt_or_ge j s.calls.length with hlt | hge
    · rw [List.getElem?_append_left hlt] at hj
      exact hidle j copies hij hj
    · rw [List.getElem?_append_right hge] at hj
      exact List.mem_singleton.mp (List.mem_of_getElem? hj)

/-- What is known along a run: one entry for each call, and with a marker a
complete bootstrap. -/
theorem bootstrapped_run {as : List PrepareAct} {s : RootfsLog}
    (hrun : Runs prepareStep ⟨false, []⟩ as s) :
    s.calls.length = as.length ∧ (s.marker = true → Bootstrapped as s) := by
  generalize hstart : (⟨false, []⟩ : RootfsLog) = s₀ at hrun
  induction hrun with
  | nil =>
    subst hstart
    exact ⟨rfl, fun h => absurd h Bool.false_ne_true⟩
  | @snoc s s' as a _ _ hs ih =>
    obtain ⟨hlen, hmarked⟩ := ih
    cases a with
    | call o requested size =>
      cases hs
      refine ⟨by rw [List.length_append, List.length_append, hlen]; rfl, fun hmarker => ?_⟩
      rcases filesystemPrepareRootfs_cases o requested size s.marker with
        ⟨hcopies, hkeep, -⟩ | ⟨hnone, rootfs, hreal, hcopies, ⟨hok, -⟩ | ⟨hfailed, -⟩⟩
      · simp only at hmarker ⊢
        rw [hcopies]
        exact (hmarked (hkeep ▸ hmarker)).snoc_idle hlen _ _
      · -- this is the call
        refine ⟨as.length, o, rootfs, ⟨⟨requested, size, ?_⟩, hreal, ?_, fun j copies hij hj => ?_⟩,
          hok⟩
        · rw [List.getElem?_append_right (Nat.le_refl _), Nat.sub_self]
          rfl
        · simp only [hcopies]
          rw [List.getElem?_append_right (by omega), hlen, Nat.sub_self]
          rfl
        · have hj := (List.getElem?_eq_some_iff.mp hj).1
          rw [List.length_append, List.length_singleton] at hj
          omega
      · exact absurd (hfailed.symm.trans hmarker) Bool.false_ne_true
    | killed o requested size n =>
      cases hs
      refine ⟨by rw [List.length_append, List.length_append, hlen]; rfl, fun hmarker => ?_⟩
      -- a killed call writes no marker, so there was one before and nothing was copied
      have hthere : s.marker = true := hmarker
      rcases filesystemPrepareRootfs_cases o requested size s.marker with
        ⟨hcopies, -⟩ | ⟨hnone, -⟩
      · have hnothing : (filesystemPrepareRootfs o requested size s.marker).copies.take n = [] := by
          rw [hcopies, List.take_nil]
        rw [hnothing]
        exact (hmarked hthere).snoc_idle hlen _ _
      · rw [hthere] at hnone
        cases hnone

/-- **The marker means that the rootfs is complete.** After any calls, of which some
fail and some are killed, a rootfs with a marker is one in which a single call has
copied each tool and every path that `ldd` named for it, and nothing has been
copied since. -/
theorem marker_means_bootstrapped {as : List PrepareAct} {s : RootfsLog}
    (hrun : Runs prepareStep ⟨false, []⟩ as s) (hmarker : s.marker = true) :
    ∃ i o rootfs, CopiedAt as s i o rootfs ∧
      (∀ c ∈ (bootstrap o.bootstrap rootfs).1, c.2 = true) ∧
      ∀ k tool, bootstrapBinaries[k]? = some tool →
        (tool, true) ∈ (bootstrap o.bootstrap rootfs).1 ∧
        ∀ es : List LddEntry, (∀ e ∈ es, e.Ok ∧ e.line.length + 2 ≤ pathMax * 2) →
          (o.bootstrap.tools k).output = some (es.flatMap fun e => e.line ++ [10]) →
          LddEntry.Resolved es ∧ ∀ path ∈ es.filterMap LddEntry.dependency,
            (path, true) ∈ (bootstrap o.bootstrap rootfs).1 := by
  obtain ⟨i, o, rootfs, hcopied, hok⟩ := (bootstrapped_run hrun).2 hmarker
  refine ⟨i, o, rootfs, hcopied, bootstrap_all hok, fun k tool htool => ?_⟩
  obtain ⟨hin, hdeps, hall⟩ := bootstrap_tool hok htool
  refine ⟨hin, fun es hes houtput => ?_⟩
  have hshort : ∀ b ∈ bootstrapBinaries, (bytes "ldd " ++ b).length < pathMax + 16 := by
    decide +kernel
  obtain ⟨hiff, hcopied, -⟩ := copyDependencies_spec (fun e he => (hes e he).1)
    ((o.bootstrap.tools k).ldd rootfs).copy 0
  have hlines := copyBinaryDependencies_lines (o := (o.bootstrap.tools k).ldd rootfs)
    (fun e he => (hes e he).1) (fun e he => (hes e he).2)
    (hshort tool (List.mem_of_getElem? htool)) houtput
  rw [hlines, Bool.and_eq_true] at hdeps
  rw [hlines] at hall
  refine ⟨(hiff.mp hdeps.1).1, fun path hpath => hall _ ?_⟩
  rw [hcopied hdeps.1]
  exact List.mem_map.mpr ⟨path, hpath, rfl⟩

/-- Tools without dependencies, and no workloads. -/
def plainPrepare : PrepareOutcome :=
  let host := Host.willing fun _ => .regular
  let binary : BinaryOutcome :=
    { hosts := fun _ _ => host, calls := 1, output := some [], pclose := true }
  { mkdir := host, realpath := some (bytes "/srv/root"), layout := fun _ => host
    bootstrap := { tools := fun _ => binary, realpath := fun _ => .missing
                   workloads := fun _ => binary }
    marker := true }

/-- The first call is killed behind two copies. -/
def killedPrepare : List PrepareAct :=
  [.killed plainPrepare (bytes "root") 512 2, .call plainPrepare (bytes "root") 512,
    .call plainPrepare (bytes "root") 512]

theorem marker_means_bootstrapped_killed :
    ∃ s : RootfsLog, s.calls.map List.length = [2, 5, 0] ∧ ∃ i o rootfs,
      CopiedAt killedPrepare s i o rootfs ∧
      (∀ c ∈ (bootstrap o.bootstrap rootfs).1, c.2 = true) ∧
      ∀ k tool, bootstrapBinaries[k]? = some tool →
        (tool, true) ∈ (bootstrap o.bootstrap rootfs).1 ∧
        ∀ es : List LddEntry, (∀ e ∈ es, e.Ok ∧ e.line.length + 2 ≤ pathMax * 2) →
          (o.bootstrap.tools k).output = some (es.flatMap fun e => e.line ++ [10]) →
          LddEntry.Resolved es ∧ ∀ path ∈ es.filterMap LddEntry.dependency,
            (path, true) ∈ (bootstrap o.bootstrap rootfs).1 := by
  obtain ⟨s, hrun, hmarker, hlengths⟩ := exists_runOk_of_exec prepareStep (fun _ _ => True)
    ⟨false, []⟩ killedPrepare
    (fun s => s.marker = true ∧ s.calls.map List.length = [2, 5, 0]) (by decide +kernel)
  exact ⟨s, hlengths, marker_means_bootstrapped hrun hmarker⟩

end ContainerSim.Filesystem
