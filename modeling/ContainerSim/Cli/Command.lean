import ContainerSim.Cli.Flags
import ContainerSim.Lib.Words

/-!
# From the line typed to the words executed

`main` cuts the line up (`parse_command`), puts the words of the command of
`run` together again, with quotes around those that hold a space, and the child
cuts the result up (`build_exec_argv`).
-/

namespace ContainerSim.Cli

open Lib ContainerSim.Runtime

def isQuote (c : UInt8) : Bool := c = 34 || c = 39

theorem isQuote_iff {c : UInt8} : isQuote c = true ↔ c = 34 ∨ c = 39 := by
  simp [isQuote]

/-- How `parse_command` reads a line. -/
def lineSyntax : WordSyntax UInt8 where
  sep c := c = 32 || c = 9
  quote := isQuote
  sep_quote c h := by rcases isQuote_iff.mp h with rfl | rfl <;> rfl

/-- How `build_exec_argv` reads a command. -/
def execSyntax : WordSyntax UInt8 where
  sep c := c = 32
  quote := isQuote
  sep_quote c h := by rcases isQuote_iff.mp h with rfl | rfl <;> rfl

/-- The outer loop of `parse_command`. -/
def parseCommandLoop (maxArgs : Nat) : Nat → Bytes → List Bytes → List Bytes
  | 0, _, args => args
  | fuel + 1, p, args =>
    if args.length ≥ maxArgs then args
    else
      match lineSyntax.nextWord p with
      | none => args
      | some (word, rest) => parseCommandLoop maxArgs fuel rest (args ++ [word.2])

/-- `parse_command`; a turn of the loop takes at least one byte. -/
def parseCommand (maxArgs : Nat) (line : Bytes) : List Bytes :=
  parseCommandLoop maxArgs line.length line []

/-- What one turn of the loop of `run` prints. -/
def commandPiece (first : Bool) (arg : Bytes) : Bytes :=
  (if first then [] else [32]) ++ (if 32 ∈ arg then [34] else []) ++ arg ++
    (if 32 ∈ arg then [34] else [])

/-- The loop of `run` that writes `command_line`; `none` when the buffer is too
short. -/
def joinCommandLoop : Bool → Bytes → List Bytes → Option Bytes
  | _, commandLine, [] => some commandLine
  | first, commandLine, arg :: args =>
    if (commandPiece first arg).length ≥ commandLen - commandLine.length then none
    else joinCommandLoop false (commandLine ++ commandPiece first arg) args

def joinCommand (args : List Bytes) : Option Bytes := joinCommandLoop true [] args

/-- What `run` and `runbg` make of a line. -/
structure RunCommand where
  background : Bool
  flags : LimitFlags
  name : Bytes
  hostname : Bytes
  rootfs : Bytes
  /-- the words of the command, as `parse_command` found them -/
  command : List Bytes
  commandLine : Bytes
  deriving DecidableEq, Repr

/-- The branch of `main` for `run` and `runbg` up to the request. -/
def runCommand (line : Bytes) : Option RunCommand :=
  match parseCommand 32 line with
  | [] => none
  | verb :: args =>
    if verb = bytes "run" ∨ verb = bytes "runbg" then
      match parseLimitFlags args .run with
      | some (flags, name :: hostname :: rootfs :: arg :: command) =>
        (joinCommand (arg :: command)).map fun commandLine =>
          { background := verb = bytes "runbg", flags, name, hostname, rootfs
            command := arg :: command, commandLine }
      | _ => none
    else none

inductive ArgvError where
  | einval | enametoolong | e2big
  deriving DecidableEq, Repr

/-- The loop of `build_exec_argv`. -/
def buildExecArgvLoop (maxArgs : Nat) : Nat → Bytes → List Bytes → Except ArgvError (List Bytes)
  | 0, _, argv => .ok argv
  | fuel + 1, p, argv =>
    match execSyntax.nextWord p with
    | none => .ok argv
    | some (word, rest) =>
      if argv.length ≥ maxArgs - 1 then .error .e2big
      else buildExecArgvLoop maxArgs fuel rest (argv ++ [word.2])

/-- `build_exec_argv`. -/
def buildExecArgv (bufferSize maxArgs : Nat) (commandLine : Bytes) :
    Except ArgvError (List Bytes) :=
  if commandLine = [] ∨ bufferSize = 0 ∨ maxArgs < 2 then .error .einval
  else if commandLine.length ≥ bufferSize then .error .enametoolong
  else
    match buildExecArgvLoop maxArgs commandLine.length commandLine [] with
    | .ok [] => .error .einval
    | r => r

/-- `build_exec_argv` as `namespace_child` calls it. -/
def childArgv (commandLine : Bytes) : Except ArgvError (List Bytes) :=
  buildExecArgv 256 32 commandLine

/-! ## The words of a line -/

theorem parseCommandLoop_length {maxArgs fuel : Nat} {p : Bytes} {args : List Bytes}
    (h : args.length ≤ maxArgs) : (parseCommandLoop maxArgs fuel p args).length ≤ maxArgs := by
  fun_induction parseCommandLoop maxArgs fuel p args with
  | case1 | case2 | case3 => exact h
  | case4 fuel p args hroom word rest _ ih =>
    refine ih ?_
    rw [List.length_append, List.length_singleton]
    omega

theorem parseCommand_length (maxArgs : Nat) (line : Bytes) :
    (parseCommand maxArgs line).length ≤ maxArgs :=
  parseCommandLoop_length (Nat.zero_le _)

theorem parseCommandLoop_split {maxArgs fuel : Nat} {p : Bytes} {args : List Bytes}
    {ws : List (Option UInt8 × Bytes)} (h : lineSyntax.Split p ws) (hfuel : p.length ≤ fuel)
    (hroom : args.length ≤ maxArgs) :
    parseCommandLoop maxArgs fuel p args =
      args ++ (ws.map Prod.snd).take (maxArgs - args.length) := by
  -- the fuel is the length of what is left, and every word takes some of it
  induction h generalizing fuel args with
  | @nil p hnone =>
    cases fuel with
    | zero => simp [parseCommandLoop]
    | succ fuel =>
      rw [parseCommandLoop]
      split
      · simp
      · rw [hnone]
        simp
  | @cons p word rest ws hword hrest ih =>
    have hlt := WordSyntax.length_of_nextWord hword
    cases fuel with
    | zero => omega
    | succ fuel =>
      rw [parseCommandLoop]
      by_cases hfull : args.length ≥ maxArgs
      · have hnone : maxArgs - args.length = 0 := by omega
        rw [if_pos hfull, hnone]
        simp
      · obtain ⟨k, hk⟩ : ∃ k, maxArgs - args.length = k + 1 := ⟨maxArgs - args.length - 1, by omega⟩
        rw [if_neg hfull, hword]
        simp only
        rw [ih (by omega) (by simp; omega), hk, List.map_cons, List.take_succ_cons,
          List.append_assoc, List.singleton_append, List.length_append, List.length_singleton,
          show maxArgs - (args.length + 1) = k by omega]

/-- `parse_command` returns the words, up to the number it has room for. -/
theorem parseCommand_split {maxArgs : Nat} {line : Bytes} {ws : List (Option UInt8 × Bytes)}
    (h : lineSyntax.Split line ws) :
    parseCommand maxArgs line = (ws.map Prod.snd).take maxArgs := by
  rw [parseCommand, parseCommandLoop_split h (Nat.le_refl _) (Nat.zero_le _)]
  rfl

/-! ## The command line -/

theorem commandPiece_eq (first : Bool) (arg : Bytes) :
    commandPiece first arg = (if first then [] else [32]) ++ quotedWord 32 34 arg := by
  unfold commandPiece quotedWord
  split <;> split <;> simp

/-- All that the loop prints. -/
def commandText : Bool → List Bytes → Bytes
  | _, [] => []
  | first, arg :: args => commandPiece first arg ++ commandText false args

theorem joinCommandLoop_eq {args : List Bytes} {first : Bool} {acc line : Bytes}
    (h : joinCommandLoop first acc args = some line) :
    line = acc ++ commandText first args ∧
      (acc.length < commandLen → line.length < commandLen) := by
  induction args generalizing acc first with
  | nil =>
    cases h
    exact ⟨(List.append_nil _).symm, id⟩
  | cons arg args ih =>
    rw [joinCommandLoop] at h
    split at h
    · cases h
    · rename_i hroom
      obtain ⟨rfl, hlt⟩ := ih h
      refine ⟨?_, fun _ => hlt ?_⟩
      · rw [commandText, List.append_assoc]
      · rw [List.length_append]
        omega

theorem commandText_cons (arg : Bytes) (args : List Bytes) :
    commandText false (arg :: args) = 32 :: commandText true (arg :: args) := by
  rw [commandText, commandText, commandPiece_eq, commandPiece_eq]
  rfl

theorem commandText_eq (args : List Bytes) : commandText true args = joined 32 34 args := by
  induction args with
  | nil => rfl
  | cons arg args ih =>
    rw [commandText, commandPiece_eq]
    cases args with
    | nil => exact List.append_nil _
    | cons arg' args =>
      rw [commandText_cons, ih]
      rfl

theorem joinCommand_eq {args : List Bytes} {line : Bytes} (h : joinCommand args = some line) :
    line = joined 32 34 args ∧ line.length < commandLen := by
  obtain ⟨rfl, hlt⟩ := joinCommandLoop_eq h
  exact ⟨commandText_eq args, hlt (by decide)⟩

/-! ## The words executed -/

theorem buildExecArgvLoop_eq_ok {maxArgs fuel : Nat} {p : Bytes} {argv argv' : List Bytes} :
    buildExecArgvLoop maxArgs fuel p argv = .ok argv' ↔
      execSyntax.collect (maxArgs - 1) fuel p argv = some argv' := by
  induction fuel generalizing p argv with
  | zero => rw [buildExecArgvLoop, WordSyntax.collect, Except.ok.injEq, Option.some.injEq]
  | succ fuel ih =>
    rw [buildExecArgvLoop, WordSyntax.collect]
    cases execSyntax.nextWord p with
    | none => rw [Except.ok.injEq, Option.some.injEq]
    | some w =>
      simp only
      split
      · exact ⟨fun h => (by cases h), fun h => (by cases h)⟩
      · exact ih

theorem execSyntax_sep (c : UInt8) : execSyntax.sep c = true ↔ c = 32 := decide_eq_true_iff

theorem joined_ne_nil {args : List Bytes} (hne : args ≠ [])
    (h : ∀ arg ∈ args, SafeWord execSyntax 32 34 arg) : joined 32 34 args ≠ [] := by
  obtain ⟨arg, args, rfl⟩ := List.exists_cons_of_ne_nil hne
  rw [← commandText_eq, commandText, commandPiece_eq]
  intro hnil
  have hword : quotedWord 32 34 arg = [] := (List.append_eq_nil_iff.mp hnil).1
  rcases h arg List.mem_cons_self with ⟨hs, -⟩ | ⟨hs, hnonempty, -⟩
  · rw [quotedWord, if_pos hs] at hword
    cases hword
  · rw [quotedWord, if_neg hs] at hword
    exact hnonempty hword

theorem childArgv_joined {args : List Bytes} (hne : args ≠ []) (hlen : args.length ≤ 31)
    (hfit : (joined 32 34 args).length < 256) :
    childArgv (joined 32 34 args) = .ok args ↔ ∀ arg ∈ args, SafeWord execSyntax 32 34 arg := by
  rw [← split_joined_iff execSyntax_sep rfl]
  have hsafe := @split_joined_iff _ _ execSyntax 32 34 execSyntax_sep rfl args
  constructor
  · intro h
    unfold childArgv buildExecArgv at h
    split at h
    · cases h
    · split at h
      · cases h
      · split at h
        · cases h
        · -- neither limit was reached
          obtain ⟨ws, hsplit, heq⟩ :=
            WordSyntax.split_of_collect (Nat.le_refl _) (buildExecArgvLoop_eq_ok.mp h)
          exact ⟨ws, hsplit, heq.symm⟩
  · intro h
    obtain ⟨ws, hsplit, rfl⟩ := h
    have hnonempty := joined_ne_nil hne (hsafe.mp ⟨ws, hsplit, rfl⟩)
    rw [List.length_map] at hlen
    have hloop : buildExecArgvLoop 32 _ _ [] = _ :=
      buildExecArgvLoop_eq_ok.mpr (hsplit.collect (Nat.le_refl _) (by simpa using hlen))
    rw [childArgv, buildExecArgv, if_neg (by simp [hnonempty]), if_neg (by omega), hloop]
    split
    · rename_i hnil
      exact absurd (Except.ok.inj hnil) hne
    · rfl

/-! ## The round trip -/

theorem runCommand_spec {line : Bytes} {r : RunCommand} (h : runCommand line = some r) :
    r.command ≠ [] ∧ r.command.length ≤ 28 ∧ joinCommand r.command = some r.commandLine := by
  unfold runCommand at h
  split at h
  · cases h
  · rename_i verb args hargs
    split at h
    · split at h
      · rename_i flags name hostname rootfs arg command hflags
        obtain ⟨commandLine, hjoin, rfl⟩ := Option.map_eq_some_iff.mp h
        refine ⟨List.cons_ne_nil _ _, ?_, hjoin⟩
        -- of the 32 words four are the verb, the name, the host name and the rootfs
        have hmax := parseCommand_length 32 line
        have hsuffix := (parseLimitFlags_suffix hflags).length_le
        rw [hargs] at hmax
        simp only [List.length_cons] at hmax hsuffix ⊢
        omega
      · cases h
    · cases h

/-- **The command typed is the command executed** by `run` and `runbg` exactly
if every word of it is safe: it holds a space and no double quote, or it holds
no space, is not empty and does not start with a quote. -/
theorem run_executes_command {line : Bytes} {r : RunCommand} (h : runCommand line = some r) :
    childArgv r.commandLine = .ok r.command ↔
      ∀ arg ∈ r.command, SafeWord execSyntax 32 34 arg := by
  obtain ⟨hne, hlen, hjoin⟩ := runCommand_spec h
  obtain ⟨hline, hfit⟩ := joinCommand_eq hjoin
  rw [hline] at hfit ⊢
  exact childArgv_joined hne (by omega) hfit

/-- The line of the test for quoted arguments. -/
def quotedLine : Bytes := bytes "run q h /r /bin/sh -c \"echo hello\""

theorem run_executes_quoted :
    ∃ r, runCommand quotedLine = some r ∧
      r.command = [bytes "/bin/sh", bytes "-c", bytes "echo hello"] ∧
      childArgv r.commandLine = .ok r.command := by
  have hrun : (runCommand quotedLine).isSome = true := by decide +kernel
  obtain ⟨r, hr⟩ := Option.isSome_iff_exists.mp hrun
  have hcommand : (runCommand quotedLine).map RunCommand.command =
      some [bytes "/bin/sh", bytes "-c", bytes "echo hello"] := by decide +kernel
  rw [hr, Option.map_some, Option.some.injEq] at hcommand
  refine ⟨r, hr, hcommand, (run_executes_command hr).mpr ?_⟩
  rw [hcommand]
  decide +kernel

/-- A script with double quotes in it, in single quotes. -/
def scriptLine : Bytes := bytes "run q h /r sh -c 'echo \"hi there\"'"

/-- It is executed with the words `sh`, `-c`, `echo `, `hi` and `there""`. -/
theorem run_executes_script :
    ∃ r, runCommand scriptLine = some r ∧
      r.command = [bytes "sh", bytes "-c", bytes "echo \"hi there\""] ∧
      childArgv r.commandLine =
        .ok [bytes "sh", bytes "-c", bytes "echo ", bytes "hi", bytes "there\"\""] ∧
      childArgv r.commandLine ≠ .ok r.command := by
  have hrun : (runCommand scriptLine).isSome = true := by decide +kernel
  obtain ⟨r, hr⟩ := Option.isSome_iff_exists.mp hrun
  have hparts : (runCommand scriptLine).map (fun r => (r.command, childArgv r.commandLine)) =
      some ([bytes "sh", bytes "-c", bytes "echo \"hi there\""],
        .ok [bytes "sh", bytes "-c", bytes "echo ", bytes "hi", bytes "there\"\""]) := by
    decide +kernel
  rw [hr, Option.map_some, Option.some.injEq, Prod.mk.injEq] at hparts
  obtain ⟨hcommand, hargv⟩ := hparts
  refine ⟨r, hr, hcommand, hargv, ?_⟩
  rw [hcommand, hargv]
  intro heq
  exact absurd (congrArg List.length (Except.ok.inj heq)) (by decide)

end ContainerSim.Cli
