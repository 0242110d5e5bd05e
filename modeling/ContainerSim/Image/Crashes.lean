import ContainerSim.Image.FiniteMap
import ContainerSim.Lib.AtomicFile

/-!
# Image commands through crashes

Every image command reads the registry, computes the records to keep and hands
them to `save_registry`, which looks at every `fprintf` and renames once. So a
command that is cut off after any of its calls has been done or not, and a run
of commands with crashes is a run of commands without, in which some saves
failed.
-/

namespace ContainerSim.Image

open Lib

/-! ## What a command saves -/

/-- The records `image_register_internal` hands to `save_registry`. -/
def registerRecords (now : Int64) (key : Key) (absPath : Bytes) (file : Option Bytes) :
    Option (List ImageRecord) :=
  let records := loadRegistry file maxRecords
  match findRecord records key with
  | some idx =>
    some (records.modify idx fun r =>
      { r with rootfs := snprintfStr imagePathLen absPath, createdAt := now })
  | none =>
    if records.length ≥ maxRecords then none
    else
      some (records ++
        [{ name := snprintfStr imageNameLen key.1
           tag := snprintfStr imageTagLen key.2
           rootfs := snprintfStr imagePathLen absPath
           createdAt := now }])

/-- The records `image_remove` hands to `save_registry`. -/
def removeRecords (name tag : Bytes) (file : Option Bytes) : Option (List ImageRecord) :=
  if name = [] then none
  else
    let records := loadRegistry file maxRecords
    let key := (name, effectiveTag tag)
    if records.any fun r => r.key = key then some (records.filter fun r => r.key ≠ key) else none

/-- The file and the result after saving, if there is something to save. -/
def savedOr (save : Bool) (records : Option (List ImageRecord)) (file : Option Bytes) :
    Option Bytes × Bool :=
  match records with
  | some records => saveRegistry save records file
  | none => (file, false)

theorem imageRegisterInternal_eq (save : Bool) (now : Int64) (key : Key) (absPath : Bytes)
    (file : Option Bytes) : imageRegisterInternal save now key absPath file =
      savedOr save (registerRecords now key absPath file) file := by
  unfold imageRegisterInternal registerRecords
  simp only
  cases findRecord (loadRegistry file maxRecords) key with
  | some idx => rfl
  | none =>
    simp only
    split
    · rfl
    · rfl

theorem imageRemove_eq (save : Bool) (name tag : Bytes) (file : Option Bytes) :
    imageRemove save name tag file = savedOr save (removeRecords name tag file) file := by
  unfold imageRemove removeRecords
  split
  · rfl
  · simp only
    cases (loadRegistry file maxRecords).any fun r => decide (r.key = (name, effectiveTag tag)) with
    | true => rfl
    | false => rfl

/-- An image command as it is typed, with the answers to it other than the save. -/
inductive ImageCommand where
  | build (ref path : Bytes) (realpath : Option Bytes) (now : Int64)
  | tag (src dst : Bytes) (now : Int64)
  | rm (ref : Bytes)

def ImageCommand.withSave (save : Bool) : ImageCommand → ImageOp
  | .build ref path realpath now => .build ref path realpath save now
  | .tag src dst now => .tag src dst save now
  | .rm ref => .rm ref save

/-- The records a command hands to `save_registry`. -/
def ImageCommand.records (file : Option Bytes) : ImageCommand → Option (List ImageRecord)
  | .build ref path realpath now =>
    let key := parseImageRef ref
    if key.1 = [] ∨ path = [] then none
    else realpath.bind fun absPath => registerRecords now (key.1, effectiveTag key.2) absPath file
  | .tag src dst now =>
    if src = [] ∨ dst = [] then none
    else
      (imageResolve imagePathLen file src).bind fun srcPath =>
        registerRecords now (parseRef dst) srcPath file
  | .rm ref =>
    let key := parseImageRef ref
    removeRecords key.1 key.2 file

/-- A command only touches the file through its one save. -/
theorem imageStep_file (s : Registry) (c : ImageCommand) (save : Bool) :
    ∃ s', imageStep s (c.withSave save) = some s' ∧
      s'.file = (savedOr save (c.records s.file) s.file).1 := by
  cases c with
  | build ref path realpath now =>
    refine ⟨_, rfl, ?_⟩
    simp only [imageBuild, ImageCommand.records]
    split
    · rfl
    · cases realpath with
      | none => rfl
      | some absPath => exact congrArg Prod.fst (imageRegisterInternal_eq ..)
  | tag src dst now =>
    refine ⟨_, rfl, ?_⟩
    simp only [imageTag, ImageCommand.records]
    split
    · rfl
    · cases imageResolve imagePathLen s.file src with
      | none => rfl
      | some srcPath => exact congrArg Prod.fst (imageRegisterInternal_eq ..)
  | rm ref => exact ⟨_, rfl, congrArg Prod.fst (imageRemove_eq ..)⟩

/-! ## Commands call by call -/

/-- `save_registry` checks every print and renames once. -/
def registryPolicy : SavePolicy := { checked := true, retry := false }

/-- `save_registry`, call by call. -/
def saveRegistryCalls (records : List ImageRecord) (o : ReplaceOutcome) (d : Disk) :
    List Disk × Bool :=
  replaceFile registryPolicy (records.map fun r => recordLine r ++ [10]) o d

/-- A command, call by call. -/
def ImageCommand.calls (c : ImageCommand) (o : ReplaceOutcome) (d : Disk) : List Disk × Bool :=
  match c.records d.target with
  | some records => saveRegistryCalls records o d
  | none => ([], false)

/-- A command that runs to its end, or is cut off after `k` calls with anything
in the temporary. -/
inductive CutCommand where
  | complete (c : ImageCommand) (o : ReplaceOutcome)
  | cut (c : ImageCommand) (o : ReplaceOutcome) (k : Nat) (temp : Option Bytes)

def CutCommand.command : CutCommand → ImageCommand
  | .complete c _ => c
  | .cut c _ _ _ => c

def cutStep (d : Disk) : CutCommand → Option Disk
  | .complete c o => some ((c.calls o d).1.getLastD d)
  | .cut c o k temp => (d :: (c.calls o d).1)[k]?.map fun e => { e with temp }

/-- Whether the command got to its end and returned 0. -/
def CutCommand.returned (d : Disk) : CutCommand → Bool
  | .complete c o => (c.calls o d).2
  | .cut _ _ _ _ => false

/-- A run with crashes beside a run without: the same commands, in which the
saves of those that returned 0 have worked. -/
inductive UncutRun : List CutCommand → Disk → List ImageOp → Registry → Prop
  | nil : UncutRun [] ⟨none, none⟩ [] .init
  | snoc {cs : List CutCommand} {d d' : Disk} {ops : List ImageOp} {s s' : Registry}
      {c : CutCommand} (save : Bool) : UncutRun cs d ops s → cutStep d c = some d' →
      imageStep s (c.command.withSave save) = some s' → (c.returned d = true → save = true) →
      UncutRun (cs ++ [c]) d' (ops ++ [c.command.withSave save]) s'

theorem recordLines_flatten (records : List ImageRecord) :
    (records.map fun r => recordLine r ++ [10]).flatten = registryText records :=
  List.flatMap_def.symm

/-- After any of the calls of a command the file is as if the command had been
done, with its save working or not. -/
theorem calls_target {c : ImageCommand} {o : ReplaceOutcome} {d e : Disk}
    (he : e ∈ d :: (c.calls o d).1) :
    ∃ save, e.target = (savedOr save (c.records d.target) d.target).1 := by
  have hkeep : d.target = (savedOr false (c.records d.target) d.target).1 := by
    cases c.records d.target with
    | none => rfl
    | some records => rfl
  rcases List.mem_cons.mp he with rfl | he
  · exact ⟨false, hkeep⟩
  · unfold ImageCommand.calls at he
    cases hrecords : c.records d.target with
    | none =>
      rw [hrecords] at he
      exact absurd he List.not_mem_nil
    | some records =>
      rw [hrecords] at he hkeep
      rcases mem_replaceFile (.inl rfl) he with hsame | ⟨hset, -⟩ | ⟨-, hretry, -⟩
      · exact ⟨false, hsame.trans hkeep⟩
      · exact ⟨true, hset.trans (congrArg some (recordLines_flatten records))⟩
      · exact absurd hretry Bool.false_ne_true

/-- A command that returned 0 has saved. -/
theorem calls_returned {c : ImageCommand} {o : ReplaceOutcome} {d : Disk}
    (hok : (c.calls o d).2 = true) :
    ((c.calls o d).1.getLastD d).target = (savedOr true (c.records d.target) d.target).1 := by
  unfold ImageCommand.calls at hok ⊢
  cases hrecords : c.records d.target with
  | none =>
    rw [hrecords] at hok
    exact absurd hok Bool.false_ne_true
  | some records =>
    rw [hrecords] at hok
    exact (replaceFile_ok (.inl rfl) hok).trans (congrArg some (recordLines_flatten records))

/-- One command with or without a crash is one command without. -/
theorem cutStep_uncut {d d' : Disk} {c : CutCommand} {s : Registry} (hfile : s.file = d.target)
    (hs : cutStep d c = some d') :
    ∃ save s', imageStep s (c.command.withSave save) = some s' ∧ s'.file = d'.target ∧
      (c.returned d = true → save = true) := by
  -- the file decides which save to say
  have hstep : ∀ save, d'.target =
      (savedOr save (c.command.records d.target) d.target).1 →
      ∃ s', imageStep s (c.command.withSave save) = some s' ∧ s'.file = d'.target := by
    intro save htarget
    obtain ⟨s', hstep, hfile'⟩ := imageStep_file s c.command save
    refine ⟨s', hstep, ?_⟩
    rw [hfile', hfile, htarget]
  cases c with
  | complete c o =>
    cases hs
    cases hok : (c.calls o d).2 with
    | true =>
      obtain ⟨s', hstep', hfile'⟩ := hstep true (calls_returned hok)
      exact ⟨true, s', hstep', hfile', fun _ => rfl⟩
    | false =>
      obtain ⟨save, htarget⟩ := calls_target (c := c) (o := o) List.getLastD_mem_cons
      obtain ⟨s', hstep', hfile'⟩ := hstep save htarget
      refine ⟨save, s', hstep', hfile', fun hret => ?_⟩
      exact absurd (hok.symm.trans hret) Bool.false_ne_true
  | cut c o k temp =>
    obtain ⟨e, he, rfl⟩ := Option.map_eq_some_iff.mp hs
    obtain ⟨save, htarget⟩ := calls_target (List.mem_of_getElem? he)
    obtain ⟨s', hstep', hfile'⟩ := hstep save htarget
    exact ⟨save, s', hstep', hfile', fun hret => absurd hret Bool.false_ne_true⟩

/-- What a command registers is sound, whether or not its save will work. -/
def CutOk (d : Disk) (c : CutCommand) : Prop := ImageOk ⟨d.target, []⟩ (c.command.withSave true)

instance (d : Disk) (c : CutCommand) : Decidable (CutOk d c) := by
  unfold CutOk
  infer_instance

theorem CutOk.imageOk {d : Disk} {c : CutCommand} {s : Registry} (h : CutOk d c)
    (hfile : s.file = d.target) (save : Bool) : ImageOk s (c.command.withSave save) := by
  unfold CutOk at h
  cases hc : c.command with
  | build ref path realpath now =>
    rw [hc] at h
    exact h
  | tag src dst now =>
    rw [hc] at h
    show imageResolve imagePathLen s.file src ≠ none → _
    rw [hfile]
    exact h
  | rm ref => exact trivial

/-- **Image commands are atomic.** However often commands are cut off, the
registry is what the same commands lead to without a crash, each of them done or
not and done when it returned 0; it resolves a reference to the path that the
last one done on its key has put there. -/
theorem registry_survives_crashes {cs : List CutCommand} {d : Disk}
    (hrun : RunOk cutStep CutOk ⟨none, none⟩ cs d) :
    ∃ ops s, UncutRun cs d ops s ∧ RunOk imageStep ImageOk .init ops s ∧ s.file = d.target ∧
      ∀ ref, imageResolve imagePathLen d.target ref = Change.replay s.done (keyOf ref) := by
  have hsim : ∃ ops s, UncutRun cs d ops s ∧ RunOk imageStep ImageOk .init ops s ∧
      s.file = d.target := by
    generalize hstart : (⟨none, none⟩ : Disk) = d₀ at hrun
    induction hrun with
    | nil =>
      subst hstart
      exact ⟨[], .init, .nil, .nil _, rfl⟩
    | snoc _ hok hs ih =>
      obtain ⟨ops, s, huncut, hrun', hfile⟩ := ih
      obtain ⟨save, s', hstep, hfile', hret⟩ := cutStep_uncut hfile hs
      exact ⟨_, s', .snoc save huncut hs hstep hret,
        .snoc hrun' (hok.imageOk hfile save) hstep, hfile'⟩
  obtain ⟨ops, s, huncut, hrun', hfile⟩ := hsim
  obtain ⟨records, hholds⟩ : ∃ records, Holds s records :=
    hrun'.invariant (fun _ _ _ hi hok hs => holds_step hi hok hs) ⟨[], holds_init⟩
  refine ⟨ops, s, huncut, hrun', hfile, fun ref => ?_⟩
  rw [← hfile]
  exact hholds.resolve ref

/-- An image is built; the build that moves it is cut off while it prints. -/
def cutDay : List CutCommand :=
  [.complete (.build (bytes "myapp:v1") (bytes "r") (some (bytes "/r")) 7) .clean,
    .cut (.build (bytes "myapp:v1") (bytes "s") (some (bytes "/s")) 8) .clean 2 (some [109])]

theorem registry_survives_cutDay :
    ∃ d : Disk, imageResolve imagePathLen d.target (bytes "myapp:v1") = some (bytes "/r") ∧
      ∃ ops s, UncutRun cutDay d ops s ∧ RunOk imageStep ImageOk .init ops s ∧
        s.file = d.target ∧
        ∀ ref, imageResolve imagePathLen d.target ref = Change.replay s.done (keyOf ref) := by
  obtain ⟨d, hrun, hresolve⟩ := exists_runOk_of_exec cutStep CutOk ⟨none, none⟩ cutDay
    (fun d => imageResolve imagePathLen d.target (bytes "myapp:v1") = some (bytes "/r"))
    (by decide +kernel)
  exact ⟨d, hresolve, registry_survives_crashes hrun⟩

end ContainerSim.Image
