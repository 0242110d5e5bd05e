import ContainerSim.Cli.Command
import ContainerSim.Runtime.Ops

/-!
# The words of `exec`

`main` joins the words behind the id with spaces only, and `container_exec` cuts
the result up (`split_command_argv`) as `parse_command` cuts up a line. `run`
puts quotes around words with a space before it does the same.
-/

namespace ContainerSim.Cli

open Lib ContainerSim.Runtime

/-- The size of `exec_cmd` and of `cmd_buf`. -/
def execCmdLen : Nat := 256

/-- The loop over the words in the branch of `main` for `exec`. The word that
does not fit is cut, and the rest left out. -/
def execJoinLoop : Bool → Bytes → List Bytes → Bytes
  | _, execCmd, [] => execCmd
  | first, execCmd, arg :: args =>
    let piece := (if first then [] else [32]) ++ arg
    if piece.length ≥ execCmdLen - execCmd.length then
      execCmd ++ snprintfStr (execCmdLen - execCmd.length) piece
    else execJoinLoop false (execCmd ++ piece) args

/-- What `main` makes of an `exec` line: the id and `exec_cmd`. -/
def execCommand (line : Bytes) : Option (Bytes × Bytes) :=
  match parseCommand 32 line with
  | verb :: id :: arg :: args =>
    if verb = bytes "exec" then some (id, execJoinLoop true [] (arg :: args)) else none
  | _ => none

/-- The loop of `split_command_argv`; the words are those of `parse_command`. -/
def splitCommandArgvLoop (maxArgs : Nat) : Nat → Bytes → List Bytes → Option (List Bytes)
  | 0, _, argv => some argv
  | fuel + 1, p, argv =>
    match lineSyntax.nextWord p with
    | none => some argv
    | some (word, rest) =>
      if argv.length ≥ maxArgs - 1 then none
      else splitCommandArgvLoop maxArgs fuel rest (argv ++ [word.2])

/-- `split_command_argv`; `none` when it returns -1. -/
def splitCommandArgv (maxArgs : Nat) (buffer : Bytes) : Option (List Bytes) :=
  if maxArgs < 2 then none
  else
    match splitCommandArgvLoop maxArgs buffer.length buffer [] with
    | some [] => none
    | r => r

/-- What `container_exec` executes in the namespaces of a process. -/
structure ExecCall where
  pid : Int
  argv : List Bytes
  deriving DecidableEq, Repr

/-- `container_exec` up to `execvp`. -/
def containerExec (poll : PollOutcome) (id commandLine : Bytes) (m : Manager) :
    Manager × Option ExecCall :=
  if commandLine = [] then (m, none)
  else
    let m := pollStates poll m
    match findContainer m.list id with
    | none => (m, none)
    | some c =>
      if c.state ≠ .running ∨ c.pid ≤ 0 then (m, none)
      else if commandLine.length ≥ execCmdLen then (m, none)
      else (m, (splitCommandArgv 32 commandLine).map fun argv => ⟨c.pid, argv⟩)

/-- The branch of `main` for `exec`. -/
def execLine (poll : PollOutcome) (line : Bytes) (m : Manager) : Manager × Option ExecCall :=
  match execCommand line with
  | none => (m, none)
  | some (id, execCmd) => containerExec poll id execCmd m

/-! ## The command line -/

/-- With room for all words the loop joins them. -/
theorem execJoinLoop_eq {args : List Bytes} {first : Bool} {execCmd : Bytes}
    (h : (execCmd ++ ((if first then [] else [32]) ++ [32].intercalate args)).length < execCmdLen)
    (hne : args ≠ []) :
    execJoinLoop first execCmd args =
      execCmd ++ ((if first then [] else [32]) ++ [32].intercalate args) := by
  induction args generalizing first execCmd with
  | nil => exact absurd rfl hne
  | cons arg args ih =>
    have hroom : ∀ rest : Bytes, (execCmd ++ ((if first then [] else [32]) ++ (arg ++ rest))).length <
        execCmdLen →
        ¬ ((if first then [] else [32]) ++ arg).length ≥ execCmdLen - execCmd.length := by
      intro rest hlen
      simp only [List.length_append] at hlen ⊢
      omega
    rw [execJoinLoop]
    cases args with
    | nil =>
      rw [List.intercalate_singleton] at h ⊢
      rw [if_neg (hroom [] (by rw [List.append_nil]; exact h))]
      rfl
    | cons arg' args =>
      rw [List.intercalate_cons_cons, List.append_assoc] at h ⊢
      rw [if_neg (hroom _ h), ih _ (List.cons_ne_nil _ _)]
      · simp
      · simpa using h

theorem splitCommandArgvLoop_collect (maxArgs fuel : Nat) (p : Bytes) (argv : List Bytes) :
    splitCommandArgvLoop maxArgs fuel p argv = lineSyntax.collect (maxArgs - 1) fuel p argv := by
  induction fuel generalizing p argv with
  | zero => rfl
  | succ fuel ih =>
    rw [splitCommandArgvLoop, WordSyntax.collect]
    cases lineSyntax.nextWord p with
    | none => rfl
    | some w =>
      simp only
      rw [ih]

/-- A word that is read as it stands: it is not empty, has no space and no tab
in it and does not start with a quote. -/
def PlainWord (arg : Bytes) : Prop := lineSyntax.Fits (none, arg)

instance (arg : Bytes) : Decidable (PlainWord arg) :=
  inferInstanceAs (Decidable (arg ≠ [] ∧ (∀ c ∈ arg, lineSyntax.sep c = false) ∧
    ∀ c ∈ arg.head?, lineSyntax.quote c = false))

theorem split_of_splitCommandArgv {line : Bytes} {args : List Bytes}
    (h : splitCommandArgv 32 line = some args) :
    ∃ ws, lineSyntax.Split line ws ∧ args = ws.map Prod.snd := by
  unfold splitCommandArgv at h
  rw [if_neg (by decide)] at h
  split at h
  · cases h
  · rw [splitCommandArgvLoop_collect] at h
    exact WordSyntax.split_of_collect (Nat.le_refl _) h

theorem splitCommandArgv_joined {args : List Bytes} (hne : args ≠ []) (hlen : args.length ≤ 31) :
    splitCommandArgv 32 ([32].intercalate args) = some args ↔ ∀ arg ∈ args, PlainWord arg := by
  have hiff := @split_intercalate_iff _ _ lineSyntax 32 rfl args
  refine Iff.trans ⟨fun h => ?_, fun h => ?_⟩ hiff
  · obtain ⟨ws, hsplit, heq⟩ := split_of_splitCommandArgv h
    exact ⟨ws, hsplit, heq.symm⟩
  · obtain ⟨ws, hsplit, rfl⟩ := h
    rw [List.length_map] at hlen
    have hcollect : lineSyntax.collect (32 - 1) _ _ [] = _ :=
      hsplit.collect (Nat.le_refl _) (by simpa using hlen)
    rw [splitCommandArgv, if_neg (by decide), splitCommandArgvLoop_collect, hcollect]
    split
    · rename_i hnil
      exact absurd (Option.some.inj hnil) hne
    · rfl

/-! ## The words delivered -/

/-- **`exec` delivers the arguments typed** exactly if all of them are plain
words. -/
theorem exec_delivers_arguments {line id : Bytes} {args : List Bytes}
    (hline : parseCommand 32 line = bytes "exec" :: id :: args) (hne : args ≠ [])
    (hfit : ([32].intercalate args).length < 256) {poll : PollOutcome} {m : Manager}
    {c : Container} (hfind : findContainer (pollStates poll m).list id = some c)
    (hrunning : c.state = .running) (hpid : 0 < c.pid) :
    (execLine poll line m).2 = some ⟨c.pid, args⟩ ↔ ∀ arg ∈ args, PlainWord arg := by
  have hlen : args.length ≤ 31 := by
    have hmax := parseCommand_length 32 line
    rw [hline] at hmax
    simp only [List.length_cons] at hmax
    omega
  have hcommand : execCommand line = some (id, [32].intercalate args) := by
    obtain ⟨arg, args, rfl⟩ := List.exists_cons_of_ne_nil hne
    rw [execCommand, hline]
    simp only [if_true]
    rw [execJoinLoop_eq hfit hne]
    rfl
  rw [← splitCommandArgv_joined hne hlen, execLine, hcommand]
  simp only
  unfold containerExec
  by_cases hempty : [32].intercalate args = []
  · -- a single empty word
    rw [if_pos hempty, hempty]
    exact ⟨fun h => (by cases h), fun h => (by cases h)⟩
  · have hgo : ¬ (c.state ≠ .running ∨ c.pid ≤ 0) := by
      rintro (h | h)
      · exact h hrunning
      · omega
    rw [if_neg hempty]
    simp only [hfind]
    have hroom : ¬ ([32].intercalate args).length ≥ execCmdLen := Nat.not_le_of_lt hfit
    rw [if_neg hgo, if_neg hroom]
    simp only [Option.map_eq_some_iff, ExecCall.mk.injEq, true_and, exists_eq_right]

/-- One container runs. -/
def execManager : Manager :=
  (containerRunBackground (.clean (.ofNat 100)) .zero .init).1

def execPlainLine : Bytes := bytes "exec container-0001 /bin/sh -c ls"

theorem exec_delivers_plain :
    (execLine .quiet execPlainLine execManager).2 =
      some ⟨100, [bytes "/bin/sh", bytes "-c", bytes "ls"]⟩ := by
  have hfind : (findContainer (pollStates .quiet execManager).list (containerId 1)).isSome = true :=
    by decide +kernel
  obtain ⟨c, hc⟩ := Option.isSome_iff_exists.mp hfind
  have hfields : (findContainer (pollStates .quiet execManager).list (containerId 1)).map
      (fun c => (c.state, c.pid)) = some (.running, 100) := by decide +kernel
  rw [hc, Option.map_some, Option.some.injEq, Prod.mk.injEq] at hfields
  have hdelivered := (@exec_delivers_arguments execPlainLine (containerId 1)
    [bytes "/bin/sh", bytes "-c", bytes "ls"] (by decide +kernel) (by decide)
    (by decide +kernel) .quiet execManager c hc hfields.1 (by omega)).mpr (by decide +kernel)
  rw [hdelivered, hfields.2]

/-- The line of the test for quoted arguments, with `exec`. -/
def execQuotedLine : Bytes := bytes "exec container-0001 /bin/sh -c \"echo hello\""

/-- The words delivered are `/bin/sh`, `-c`, `echo` and `hello`. -/
theorem exec_splits_quoted :
    parseCommand 32 execQuotedLine =
      [bytes "exec", containerId 1, bytes "/bin/sh", bytes "-c", bytes "echo hello"] ∧
    ([32].intercalate [bytes "/bin/sh", bytes "-c", bytes "echo hello"]).length < 256 ∧
    (findContainer (pollStates .quiet execManager).list (containerId 1)).map
      (fun c => (c.state, c.pid)) = some (.running, 100) ∧
    (execLine .quiet execQuotedLine execManager).2 =
      some ⟨100, [bytes "/bin/sh", bytes "-c", bytes "echo", bytes "hello"]⟩ ∧
    (execLine .quiet execQuotedLine execManager).2 ≠
      some ⟨100, [bytes "/bin/sh", bytes "-c", bytes "echo hello"]⟩ := by
  decide +kernel

end ContainerSim.Cli
