import ContainerSim.Cli.Dispatch
import ContainerSim.Lib.Lines
import ContainerSim.Lib.Run
import ContainerSim.Lib.Typing

/-!
# The loop of `main`

A turn of the loop reads a line, cuts it up and performs the command. A script
is read with `fgets` into `line[256]`, so a longer line is more than one turn:
what does not fit is performed as a command of its own (`script_performed_iff`).
An interrupted `fgets` drops what it has of a line, and the processes of a command
share the input; no command comes up that way that is not a part of the script
(`interrupted_script`). When `fgets` returns NULL, `errno` tells an interrupt from the
end of the input. Nobody resets it, and a stale `EINTR` keeps the loop from ever ending.
-/

namespace ContainerSim.Cli

open Lib

/-- What `main` does when it ends. -/
inductive ShutdownCall where
  | webserverStop | orchDown | cleanupAllContainers | metricsSave | eventbusClose | logStopped
  deriving DecidableEq, Repr

inductive ShellEffect where
  /-- the words of a line, on their way to `dispatch` -/
  | command (words : List Bytes)
  | call (c : ShutdownCall)
  deriving DecidableEq, Repr

/-- The calls at the end of the input and those of `exit`. -/
def shutdown : List ShellEffect :=
  [.call .webserverStop, .call .orchDown, .call .cleanupAllContainers, .call .metricsSave,
    .call .eventbusClose, .call .logStopped]

structure Shell where
  /-- `isatty(STDIN_FILENO)` -/
  interactive : Bool
  /-- what is left of the input -/
  input : Bytes
  /-- `errno` is `EINTR` -/
  eintr : Bool
  /-- `g_interrupt_requested` -/
  interrupt : Bool
  trace : List ShellEffect
  ended : Bool
  deriving DecidableEq, Repr

def Shell.init (interactive : Bool) (input : Bytes) : Shell :=
  { interactive, input, eintr := false, interrupt := false, trace := [], ended := false }

def Shell.shutDown (s : Shell) : Shell := { s with trace := s.trace ++ shutdown, ended := true }

/-- What a command leaves in `errno` and `g_interrupt_requested`. -/
structure Leaves where
  eintr : Bool
  interrupt : Bool
  deriving DecidableEq, Repr

/-- A turn of the loop from the call of `parse_command` on. -/
def Shell.perform (leaves : Leaves) (line : Bytes) (s : Shell) : Shell :=
  match parseCommand 32 line with
  | [] => s
  | verb :: args =>
    if verb = bytes "exit" then s.shutDown
    else
      { s with
        trace := s.trace ++ [.command (verb :: args)]
        eintr := leaves.eintr
        interrupt := leaves.interrupt }

/-- `line[strcspn(line, "\n")] = '\0'`. -/
def cutLine (line : Bytes) : Bytes := line.takeWhile fun c => c ≠ 10 ∧ c ≠ 0

/-- A turn of the loop. -/
def Shell.turn (leaves : Leaves) (s : Shell) : Shell :=
  if s.interactive then
    if s.input = [] then s.shutDown
    else
      let line := s.input.takeWhile (· ≠ 10)
      let s := { s with input := (s.input.dropWhile (· ≠ 10)).drop 1 }
      if s.interrupt then { s with interrupt := false } else s.perform leaves (snprintfStr 256 line)
  else if s.input = [] then
    -- `fgets` returned NULL, and the end of the input does not touch `errno`
    if s.eintr then s
    else if s.interrupt then { s with interrupt := false }
    else s.shutDown
  else
    let s' := { s with input := (fgets 255 s.input).2 }
    s'.perform leaves (cutLine (fgets 255 s.input).1)

inductive ShellAct where
  | turn (leaves : Leaves)
  /-- SIGINT while the loop is not waiting for input -/
  | sigint
  /-- SIGINT in the `read` of `fgets`, which has `n` bytes of a line and drops them -/
  | sigintReading (n : Nat)
  /-- a process of a command reads `n` bytes of the input, behind what `fgets` has
  fetched ahead -/
  | childReads (ahead n : Nat)
  deriving DecidableEq, Repr

def shellStep (s : Shell) : ShellAct → Option Shell
  | .turn leaves => if s.ended then none else some (s.turn leaves)
  | .sigint => if s.ended then none else some { s with interrupt := true }
  | .sigintReading n =>
    -- a line that is there as a whole, or fills the buffer, is returned
    if s.ended ∨ s.interactive ∨ s.input.length < n ∨ 255 ≤ n ∨ 10 ∈ s.input.take n then none
    else some { s with input := s.input.drop n, interrupt := true, eintr := true }
  | .childReads ahead n =>
    if s.ended then none
    else some { s with input := s.input.take ahead ++ s.input.drop (ahead + n) }

/-- Nothing is taken from the input that the loop does not perform. -/
def ShellAct.Keeps : ShellAct → Prop
  | .sigintReading n | .childReads _ n => n = 0
  | .turn _ | .sigint => True

/-! ## The commands of a script -/

/-- The words of the pieces that `fgets` hands out, blank ones left out. -/
def scriptWords (input : Bytes) : List (List Bytes) :=
  ((chunks 256 input).map fun piece => parseCommand 32 (cutLine piece)).filter (· ≠ [])

/-- The commands in front of the first `exit`. -/
def upToExit (commands : List (List Bytes)) : List (List Bytes) :=
  commands.takeWhile fun words => words.head? ≠ some (bytes "exit")

theorem upToExit_cons {words : List Bytes} (h : words.head? ≠ some (bytes "exit"))
    (later : List (List Bytes)) : upToExit (words :: later) = words :: upToExit later :=
  List.takeWhile_cons_of_pos (decide_eq_true h)

theorem scriptWords_nil : scriptWords [] = [] := rfl

theorem scriptWords_fgets {input : Bytes} (hne : input ≠ []) :
    scriptWords input =
      (match parseCommand 32 (cutLine (fgets 255 input).1) with
        | [] => []
        | verb :: args => [verb :: args]) ++ scriptWords (fgets 255 input).2 := by
  have hchunks : chunks 256 input = (fgets 255 input).1 :: chunks 256 (fgets 255 input).2 :=
    chunks_cons 254 hne
  unfold scriptWords
  rw [hchunks, List.map_cons]
  cases parseCommand 32 (cutLine (fgets 255 input).1) with
  | nil => simp
  | cons verb args => simp

/-! ## Every run of a script -/

/-- What a script has done: some of its commands, or all of them and the end. -/
inductive ScriptOk (text : Bytes) (s : Shell) : Prop where
  | running {done} : s.ended = false →
      done ++ upToExit (scriptWords s.input) = upToExit (scriptWords text) →
      s.trace = done.map .command → ScriptOk text s
  | ended : s.ended = true →
      s.trace = (upToExit (scriptWords text)).map .command ++ shutdown → ScriptOk text s

theorem ScriptOk.turn {text : Bytes} {s : Shell} (h : ScriptOk text s)
    (hscript : s.interactive = false) (hlive : s.ended = false) (leaves : Leaves) :
    ScriptOk text (s.turn leaves) := by
  cases h with
  | ended hended => rw [hlive] at hended; cases hended
  | @running done _ hrest htrace =>
    unfold Shell.turn
    rw [hscript, if_neg Bool.false_ne_true]
    -- at the end of the input the loop ends, unless errno or the flag says EINTR
    by_cases hempty : s.input = []
    · rw [if_pos hempty]
      by_cases heintr : s.eintr = true
      · rw [if_pos heintr]
        exact .running hlive hrest htrace
      · rw [if_neg heintr]
        by_cases hflag : s.interrupt = true
        · rw [if_pos hflag]
          exact .running hlive hrest htrace
        · rw [if_neg hflag]
          rw [hempty, scriptWords_nil] at hrest
          have hall : done = upToExit (scriptWords text) := by simpa [upToExit] using hrest
          refine .ended rfl ?_
          show s.trace ++ shutdown = _
          rw [htrace, hall]
    · rw [if_neg hempty]
      rw [scriptWords_fgets hempty] at hrest
      unfold Shell.perform
      cases hwords : parseCommand 32 (cutLine (fgets 255 s.input).1) with
      | nil =>
        rw [hwords] at hrest
        exact .running hlive hrest htrace
      | cons verb args =>
        rw [hwords] at hrest
        -- a line of words is performed, and `exit` is the last
        by_cases hexit : verb = bytes "exit"
        · simp only [hexit, if_true]
          have hall : done = upToExit (scriptWords text) := by
            simpa [upToExit, hexit] using hrest
          refine .ended rfl ?_
          show s.trace ++ shutdown = _
          rw [htrace, hall]
        · simp only [hexit, if_false]
          have hmore : (done ++ [verb :: args]) ++ upToExit (scriptWords (fgets 255 s.input).2) =
              upToExit (scriptWords text) := by
            simpa [upToExit, hexit] using hrest
          refine .running hlive hmore ?_
          show s.trace ++ [.command (verb :: args)] = _
          rw [htrace, List.map_append]
          rfl

theorem Shell.turn_interactive (leaves : Leaves) (s : Shell) :
    (s.turn leaves).interactive = s.interactive := by
  have hperform : ∀ (line : Bytes) (s : Shell), (s.perform leaves line).interactive =
      s.interactive := by
    intro line s
    unfold Shell.perform
    split
    · rfl
    · split
      · rfl
      · rfl
  unfold Shell.turn
  by_cases hi : s.interactive = true
  · rw [if_pos hi]
    by_cases hempty : s.input = []
    · rw [if_pos hempty]
      rfl
    · rw [if_neg hempty]
      dsimp only
      split
      · rfl
      · exact hperform _ _
  · rw [if_neg hi]
    by_cases hempty : s.input = []
    · rw [if_pos hempty]
      split
      · rfl
      · split
        · rfl
        · rfl
    · rw [if_neg hempty]
      exact hperform _ _

/-- A signal writes to two flags only. -/
theorem ScriptOk.signal {text : Bytes} {s : Shell} (h : ScriptOk text s) (eintr interrupt : Bool) :
    ScriptOk text { s with eintr, interrupt } := by
  cases h with
  | running hlive hrest htrace => exact .running hlive hrest htrace
  | ended hended htrace => exact .ended hended htrace

theorem ScriptOk.step {text : Bytes} {s s' : Shell} {a : ShellAct}
    (h : s.interactive = false ∧ ScriptOk text s) (hkeeps : a.Keeps)
    (hs : shellStep s a = some s') : s'.interactive = false ∧ ScriptOk text s' := by
  obtain ⟨hscript, hok⟩ := h
  cases a with
  | turn leaves =>
    simp only [shellStep] at hs
    split at hs
    · cases hs
    · rename_i hlive
      obtain rfl := Option.some.inj hs
      rw [Shell.turn_interactive]
      exact ⟨hscript, hok.turn hscript (by simpa using hlive) leaves⟩
  | sigint =>
    simp only [shellStep] at hs
    split at hs
    · cases hs
    · obtain rfl := Option.some.inj hs
      exact ⟨hscript, hok.signal s.eintr true⟩
  | sigintReading n =>
    -- nothing of the line is lost
    obtain rfl : n = 0 := hkeeps
    simp only [shellStep] at hs
    split at hs
    · cases hs
    · obtain rfl := Option.some.inj hs
      exact ⟨hscript, hok.signal true true⟩
  | childReads ahead n =>
    obtain rfl : n = 0 := hkeeps
    simp only [shellStep, Nat.add_zero, List.take_append_drop] at hs
    split at hs
    · cases hs
    · obtain rfl := Option.some.inj hs
      exact ⟨hscript, hok⟩

theorem scriptOk_run {text : Bytes} {as : List ShellAct} {s : Shell}
    (hrun : Runs shellStep (Shell.init false text) as s) (hkeeps : ∀ a ∈ as, a.Keeps) :
    s.interactive = false ∧ ScriptOk text s := by
  refine (hrun.of_forall hkeeps).invariant (fun s a s' h hk hs => ScriptOk.step h hk hs)
    ⟨rfl, ?_⟩
  exact @ScriptOk.running _ _ [] rfl rfl rfl

/-! ## Parts of a script -/

/-- The words of one line, blank ones left out. -/
def lineWords (line : Bytes) : List (List Bytes) :=
  match parseCommand 32 line with
  | [] => []
  | verb :: args => [verb :: args]

/-- The commands of pieces that `fgets` has handed out. -/
def pieceCommands (pieces : List Bytes) : List (List Bytes) :=
  pieces.flatMap fun piece => lineWords (cutLine piece)

/-- What has been performed are pieces of the script, in their order. -/
structure PiecesOk (text : Bytes) (s : Shell) (pieces : List Bytes) : Prop where
  parts : (pieces.flatten ++ s.input).Sublist text
  running : s.ended = false → s.trace = (pieceCommands pieces).map .command ∧
    upToExit (pieceCommands pieces) = pieceCommands pieces
  ended : s.ended = true →
    s.trace = (upToExit (pieceCommands pieces)).map .command ++ shutdown

theorem pieceCommands_snoc (pieces : List Bytes) (piece : Bytes) :
    pieceCommands (pieces ++ [piece]) = pieceCommands pieces ++ lineWords (cutLine piece) := by
  simp [pieceCommands]

theorem upToExit_append {commands : List (List Bytes)} (h : upToExit commands = commands)
    (later : List (List Bytes)) : upToExit (commands ++ later) = commands ++ upToExit later := by
  unfold upToExit at h ⊢
  exact List.takeWhile_append_of_pos (List.takeWhile_eq_self_iff.mp h)

theorem PiecesOk.turn {text : Bytes} {s : Shell} {pieces : List Bytes} (h : PiecesOk text s pieces)
    (hscript : s.interactive = false) (hlive : s.ended = false) (leaves : Leaves) :
    ∃ pieces', PiecesOk text (s.turn leaves) pieces' := by
  obtain ⟨htrace, hall⟩ := h.running hlive
  have hdead : ∀ {p : Prop}, s.ended = true → p := fun h => by rw [hlive] at h; cases h
  unfold Shell.turn
  rw [hscript, if_neg Bool.false_ne_true]
  by_cases hempty : s.input = []
  · refine ⟨pieces, ?_⟩
    rw [if_pos hempty]
    split
    · exact h
    split
    · exact ⟨h.parts, h.running, h.ended⟩
    · refine ⟨h.parts, fun hend => (by cases hend), fun _ => ?_⟩
      show s.trace ++ shutdown = _
      rw [htrace, hall]
  · rw [if_neg hempty]
    refine ⟨pieces ++ [(fgets 255 s.input).1], ?_⟩
    -- what `fgets` takes now is the next piece
    have hparts : ((pieces ++ [(fgets 255 s.input).1]).flatten ++ (fgets 255 s.input).2).Sublist
        text := by
      rw [List.flatten_append, List.flatten_singleton, List.append_assoc, fgets_split]
      exact h.parts
    have hone := pieceCommands_snoc pieces (fgets 255 s.input).1
    unfold lineWords at hone
    unfold Shell.perform
    cases hwords : parseCommand 32 (cutLine (fgets 255 s.input).1) with
    | nil =>
      rw [hwords, List.append_nil] at hone
      refine ⟨hparts, fun _ => ?_, hdead⟩
      rw [hone]
      exact ⟨htrace, hall⟩
    | cons verb args =>
      rw [hwords] at hone
      by_cases hexit : verb = bytes "exit"
      · simp only [hexit, if_true]
        refine ⟨hparts, fun hend => (by cases hend), fun _ => ?_⟩
        show s.trace ++ shutdown = _
        rw [htrace, hone, hexit, upToExit_append hall]
        simp [upToExit]
      · simp only [hexit, if_false]
        refine ⟨hparts, fun _ => ?_, hdead⟩
        show s.trace ++ [.command (verb :: args)] = _ ∧ _
        rw [hone, upToExit_append hall, htrace, List.map_append]
        refine ⟨rfl, ?_⟩
        rw [upToExit_cons (by simpa using hexit)]
        rfl

theorem pieces_run {text : Bytes} {as : List ShellAct} {s : Shell}
    (hrun : Runs shellStep (Shell.init false text) as s) :
    s.interactive = false ∧ ∃ pieces, PiecesOk text s pieces := by
  refine hrun.invariant (I := fun s => s.interactive = false ∧ ∃ pieces, PiecesOk text s pieces) ?_
    ⟨rfl, [], by simp [Shell.init], fun _ => ⟨rfl, rfl⟩, fun hend => (by cases hend)⟩
  rintro s a s' ⟨hscript, pieces, h⟩ - hs
  cases a with
  | turn leaves =>
    obtain ⟨hlive, hs⟩ := Option.ite_none_left_eq_some.mp hs
    obtain rfl := Option.some.inj hs
    rw [Shell.turn_interactive]
    exact ⟨hscript, h.turn hscript (by simpa using hlive) leaves⟩
  | sigint =>
    obtain ⟨-, hs⟩ := Option.ite_none_left_eq_some.mp hs
    obtain rfl := Option.some.inj hs
    exact ⟨hscript, pieces, h.parts, h.running, h.ended⟩
  | sigintReading n =>
    obtain ⟨-, hs⟩ := Option.ite_none_left_eq_some.mp hs
    obtain rfl := Option.some.inj hs
    refine ⟨hscript, pieces, ?_, h.running, h.ended⟩
    exact (List.Sublist.append_left (List.drop_sublist n s.input) _).trans h.parts
  | childReads ahead n =>
    obtain ⟨-, hs⟩ := Option.ite_none_left_eq_some.mp hs
    obtain rfl := Option.some.inj hs
    refine ⟨hscript, pieces, ?_, h.running, h.ended⟩
    have hless : (s.input.drop (ahead + n)).Sublist (s.input.drop ahead) := by
      rw [← List.drop_drop]
      exact List.drop_sublist n _
    have hleft : (s.input.take ahead ++ s.input.drop (ahead + n)).Sublist s.input := by
      have hboth := List.Sublist.append_left hless (s.input.take ahead)
      rwa [List.take_append_drop] at hboth
    exact (List.Sublist.append_left hleft _).trans h.parts

/-! ## Lines and pieces -/

theorem parseCommand_blank {line : Bytes} (h : ∀ c ∈ line, lineSyntax.sep c = true) :
    parseCommand 32 line = [] := by
  rw [parseCommand_split (WordSyntax.split_nil_iff.mpr h)]
  rfl

/-- A byte that ends a line or a string. -/
def Inline (line : Bytes) : Prop := 10 ∉ line ∧ 0 ∉ line

theorem cutLine_piece {piece : Bytes} (h : Inline piece) (rest : Bytes)
    (hrest : rest = [] ∨ rest = [10]) : cutLine (piece ++ rest) = piece := by
  have hstay : ∀ c ∈ piece, decide (c ≠ 10 ∧ c ≠ 0) = true := by
    intro c hc
    exact decide_eq_true ⟨fun heq => h.1 (heq ▸ hc), fun heq => h.2 (heq ▸ hc)⟩
  rw [cutLine, List.takeWhile_append_of_pos hstay]
  rcases hrest with rfl | rfl
  · simp
  · simp

theorem lineWords_blank {line : Bytes} (h : ∀ c ∈ line, lineSyntax.sep c = true) :
    lineWords line = [] := by
  rw [lineWords, parseCommand_blank h]

/-- A line that fits the buffer is one turn. -/
theorem scriptWords_short {line : Bytes} (hin : Inline line) (hlen : line.length < 255)
    (rest : Bytes) : scriptWords (line ++ 10 :: rest) = lineWords line ++ scriptWords rest := by
  have hget : fgets 255 (line ++ 10 :: rest) = (line ++ [10], rest) :=
    fgets_line hin.1 hlen rest
  rw [scriptWords_fgets (by simp), hget]
  dsimp only
  rw [cutLine_piece hin [10] (.inr rfl)]
  rfl

/-- A line that does not is more than one. -/
theorem scriptWords_long {line : Bytes} (hin : Inline line) (hlen : 255 ≤ line.length)
    (rest : Bytes) :
    scriptWords (line ++ 10 :: rest) =
      lineWords (line.take 255) ++ scriptWords (line.drop 255 ++ 10 :: rest) := by
  have hcut : line ++ 10 :: rest = line.take 255 ++ (line.drop 255 ++ 10 :: rest) := by
    rw [← List.append_assoc, List.take_append_drop]
  have htake : Inline (line.take 255) :=
    ⟨fun hc => hin.1 (List.mem_of_mem_take hc), fun hc => hin.2 (List.mem_of_mem_take hc)⟩
  have hget : fgets 255 (line.take 255 ++ (line.drop 255 ++ 10 :: rest)) =
      (line.take 255, line.drop 255 ++ 10 :: rest) :=
    fgets_full htake.1 (by rw [List.length_take]; omega) _
  rw [hcut, scriptWords_fgets (by simp), hget]
  dsimp only
  have hpiece := cutLine_piece htake [] (.inl rfl)
  rw [List.append_nil] at hpiece
  rw [hpiece]
  rfl

/-- Blanks up to the end of a line are no command, however many there are. -/
theorem scriptWords_blank {line : Bytes} (h : ∀ c ∈ line, lineSyntax.sep c = true) (rest : Bytes) :
    scriptWords (line ++ 10 :: rest) = scriptWords rest := by
  have hinline : ∀ {l : Bytes}, (∀ c ∈ l, lineSyntax.sep c = true) → Inline l := by
    intro l hl
    refine ⟨fun hc => ?_, fun hc => ?_⟩
    · exact absurd (hl 10 hc) (by decide)
    · exact absurd (hl 0 hc) (by decide)
  induction hn : line.length using Nat.strong_induction_on generalizing line with
  | _ n ih =>
    by_cases hlen : line.length < 255
    · rw [scriptWords_short (hinline h) hlen, lineWords_blank h, List.nil_append]
    · have htake : ∀ c ∈ line.take 255, lineSyntax.sep c = true :=
        fun c hc => h c (List.mem_of_mem_take hc)
      have hdrop : ∀ c ∈ line.drop 255, lineSyntax.sep c = true :=
        fun c hc => h c (List.mem_of_mem_drop hc)
      rw [scriptWords_long (hinline h) (Nat.le_of_not_lt hlen), lineWords_blank htake,
        List.nil_append]
      exact ih _ (by rw [List.length_drop]; omega) hdrop rfl

/-- The first turn reads the first 255 bytes of a line. -/
theorem scriptWords_line {line : Bytes} (hin : Inline line) (rest : Bytes) :
    ∃ later, scriptWords (line ++ 10 :: rest) = lineWords (line.take 255) ++ later ∧
      ((∀ c ∈ line.drop 255, lineSyntax.sep c = true) → later = scriptWords rest) ∧
      ∀ q post, lineSyntax.quote q = true → (∀ c ∈ post, lineSyntax.sep c = true) →
        line.drop 255 = q :: post →
        ∃ blank more, later = [blank] :: more ∧ ∀ c ∈ blank, lineSyntax.sep c = true := by
  by_cases hlen : line.length < 255
  · have hshort : line.take 255 = line ∧ line.drop 255 = [] :=
      ⟨List.take_of_length_le (by omega), List.drop_eq_nil_of_le (by omega)⟩
    refine ⟨scriptWords rest, ?_, fun _ => rfl, ?_⟩
    · rw [scriptWords_short hin hlen, hshort.1]
    · intro q post _ _ hdrop
      rw [hshort.2] at hdrop
      cases hdrop
  · refine ⟨_, scriptWords_long hin (Nat.le_of_not_lt hlen) rest, ?_, ?_⟩
    · intro hblank
      exact scriptWords_blank hblank rest
    · intro q post hq hpost hdrop
      rw [hdrop]
      have hdropIn : Inline (q :: post) := by
        rw [← hdrop]
        exact ⟨fun hc => hin.1 (List.mem_of_mem_drop hc), fun hc => hin.2 (List.mem_of_mem_drop hc)⟩
      -- the quote opens a word that has only blanks in it
      have hword : ∀ blanks : Bytes, (∀ c ∈ blanks, lineSyntax.sep c = true) →
          lineWords (q :: blanks) = [[blanks]] := by
        intro blanks hblanks
        have hqsep : lineSyntax.sep q = false := lineSyntax.sep_quote q hq
        have hstay : ∀ c ∈ blanks, decide (c ≠ q) = true := by
          intro c hc
          refine decide_eq_true ?_
          rintro rfl
          have htrue := hblanks c hc
          rw [hqsep] at htrue
          cases htrue
        have hnext : lineSyntax.nextWord (q :: blanks) = some ((some q, blanks), []) := by
          simp only [WordSyntax.nextWord, List.dropWhile_cons, hqsep, hq, Bool.false_eq_true,
            if_false, if_true]
          rw [List.takeWhile_eq_self_iff.mpr hstay, List.dropWhile_eq_nil_iff.mpr hstay]
          rfl
        rw [lineWords, parseCommand_split (.cons hnext (.nil rfl))]
        rfl
      by_cases hlen' : (q :: post).length < 255
      · refine ⟨post, scriptWords rest, ?_, hpost⟩
        rw [scriptWords_short hdropIn hlen', hword post hpost]
        rfl
      · refine ⟨post.take 254, scriptWords ((q :: post).drop 255 ++ 10 :: rest), ?_,
          fun c hc => hpost c (List.mem_of_mem_take hc)⟩
        rw [scriptWords_long hdropIn (Nat.le_of_not_lt hlen')]
        have htake : (q :: post).take 255 = q :: post.take 254 := rfl
        rw [htake, hword _ fun c hc => hpost c (List.mem_of_mem_take hc)]
        rfl

/-! ## A script as it is typed -/

/-- A line of a script: the words of a command other than `exit`, typed in some way. -/
structure ScriptLine where
  words : List Bytes
  text : Bytes
  typed : lineSyntax.TypedLine words text
  inline : Inline text
  /-- no blanks in front -/
  front : ∀ c ∈ text.head?, lineSyntax.sep c = false
  /-- the command has a name, and it is not `exit` -/
  verb : ∃ name ∈ words.head?, (∃ c ∈ name, lineSyntax.sep c = false) ∧ name ≠ bytes "exit"

/-- The words come within the first 255 bytes, and there are not too many. -/
def ScriptLine.Fits (l : ScriptLine) : Prop :=
  l.words.length ≤ 32 ∧ ∀ c ∈ l.text.drop 255, lineSyntax.sep c = true

/-- Lines one below the other. -/
def scriptText (lines : List ScriptLine) : Bytes := lines.flatMap fun l => l.text ++ [10]

/-- What may come behind them: nothing, or `exit` and whatever there is. -/
def Ending (rest : Bytes) : Prop := rest = [] ∨ ∃ more, rest = bytes "exit\n" ++ more

theorem upToExit_ending {rest : Bytes} (h : Ending rest) : upToExit (scriptWords rest) = [] := by
  rcases h with rfl | ⟨more, rfl⟩
  · rfl
  · have hin : Inline (bytes "exit") := by
      unfold Inline
      decide
    have hfirst := scriptWords_short hin (by decide) more
    have hwords : lineWords (bytes "exit") = [[bytes "exit"]] := by decide
    rw [hwords] at hfirst
    have hshape : bytes "exit\n" ++ more = bytes "exit" ++ 10 :: more := rfl
    rw [hshape, hfirst]
    simp [upToExit]

theorem ScriptLine.upToExit_words (l : ScriptLine) (later : List (List Bytes)) :
    upToExit (l.words :: later) = l.words :: upToExit later := by
  obtain ⟨name, hname, -, hexit⟩ := l.verb
  refine upToExit_cons ?_ later
  rw [Option.mem_def.mp hname]
  exact fun h => hexit (Option.some.inj h)

/-- The first piece of a line is not blank. -/
theorem ScriptLine.split_take (l : ScriptLine) :
    ∃ ws, lineSyntax.Split (l.text.take 255) ws ∧ ws ≠ [] ∧ ws.length ≤ l.words.length ∧
      lineWords (l.text.take 255) = [(ws.map Prod.snd).take 32] := by
  obtain ⟨ws, hsplit⟩ := exists_split lineSyntax (l.text.take 255)
  have hne : ws ≠ [] := by
    rintro rfl
    have hblank := WordSyntax.split_nil_iff.mp hsplit
    obtain ⟨name, hname, -, -⟩ := l.verb
    cases htext : l.text with
    | nil =>
      -- a line without a byte has no words
      obtain ⟨ws', hws', hsame⟩ := l.typed.split
      rw [htext] at hws'
      have hnil := hws'.unique (WordSyntax.split_nil_iff.mpr (List.forall_mem_nil _))
      rw [← hsame, hnil] at hname
      cases hname
    | cons c text =>
      have hc := l.front c (by rw [htext]; rfl)
      rw [hblank c (by rw [htext]; exact List.mem_cons_self)] at hc
      cases hc
  refine ⟨ws, hsplit, hne, l.typed.length_take_le hsplit, ?_⟩
  rw [lineWords, parseCommand_split hsplit]
  obtain ⟨w, ws, rfl⟩ := List.exists_cons_of_ne_nil hne
  rfl

/-- The first turn of a line reads its words exactly if they fit, or if only the
quote that closes the last one does not. -/
theorem ScriptLine.lineWords_take (l : ScriptLine) :
    (l.Fits → lineWords (l.text.take 255) = [l.words]) ∧
      (lineWords (l.text.take 255) = [l.words] → l.words.length ≤ 32 ∧
        ((∀ c ∈ l.text.drop 255, lineSyntax.sep c = true) ∨
          ∃ q post, lineSyntax.quote q = true ∧ (∀ c ∈ post, lineSyntax.sep c = true) ∧
            l.text.drop 255 = q :: post)) := by
  obtain ⟨ws, hsplit, -, hfewer, hwords⟩ := l.split_take
  rw [hwords]
  constructor
  · rintro ⟨hmany, hblank⟩
    obtain ⟨ws', hws', hsame⟩ := (l.typed.take hblank).split
    rw [hsplit.unique hws', hsame, List.take_of_length_le hmany]
  · intro heq
    have hread : (ws.map Prod.snd).take 32 = l.words := by simpa using heq
    have hlen := congrArg List.length hread
    rw [List.length_take, List.length_map] at hlen
    -- were some left out, the piece would have more words than the line
    have hall : (ws.map Prod.snd).take 32 = ws.map Prod.snd :=
      List.take_of_length_le (by rw [List.length_map]; omega)
    exact ⟨by omega, l.typed.missing hsplit (hall.symm.trans hread)⟩

/-- A script is read as the lines of it exactly if they all fit. -/
theorem scriptWords_lines_iff {lines : List ScriptLine} {rest : Bytes} (hrest : Ending rest) :
    upToExit (scriptWords (scriptText lines ++ rest)) = lines.map ScriptLine.words ↔
      ∀ l ∈ lines, l.Fits := by
  induction lines with
  | nil => exact iff_of_true (upToExit_ending hrest) (List.forall_mem_nil _)
  | cons l lines ih =>
    have hshape : scriptText (l :: lines) ++ rest =
        l.text ++ 10 :: (scriptText lines ++ rest) := by
      simp [scriptText]
    obtain ⟨later, hfirst, hlater, hstray⟩ :=
      scriptWords_line l.inline (scriptText lines ++ rest)
    rw [hshape, hfirst, List.map_cons, List.forall_mem_cons]
    constructor
    · intro heq
      obtain ⟨ws, -, -, -, hwords⟩ := l.split_take
      -- the first turn is a command, and the one that was typed
      have hread : lineWords (l.text.take 255) = [l.words] := by
        rw [hwords] at heq ⊢
        rw [List.singleton_append] at heq
        have hhead := congrArg List.head? heq
        unfold upToExit at hhead
        rw [List.takeWhile_cons] at hhead
        split at hhead
        · simpa using hhead
        · cases hhead
      rw [hread, List.singleton_append, l.upToExit_words, List.cons.injEq] at heq
      obtain ⟨hmany, hblank | ⟨q, post, hq, hpost, hdrop⟩⟩ := l.lineWords_take.2 hread
      · rw [hlater hblank] at heq
        exact ⟨⟨hmany, hblank⟩, ih.mp heq.2⟩
      · -- the closing quote would be performed as a command without a name
        exfalso
        obtain ⟨blank, more, hmore, hnoname⟩ := hstray q post hq hpost hdrop
        have hnotexit : ([blank] : List Bytes).head? ≠ some (bytes "exit") := by
          intro h
          obtain rfl := Option.some.inj h
          exact absurd (hnoname 101 (by decide)) (by decide)
        rw [hmore, upToExit_cons hnotexit] at heq
        cases lines with
        | nil => cases heq.2
        | cons l' lines =>
          rw [List.map_cons, List.cons.injEq] at heq
          obtain ⟨name, hname, ⟨c, hc, hsep⟩, -⟩ := l'.verb
          rw [← heq.2.1] at hname
          obtain rfl := Option.some.inj hname
          rw [hnoname c hc] at hsep
          cases hsep
    · rintro ⟨hfits, hothers⟩
      rw [l.lineWords_take.1 hfits, hlater hfits.2, List.singleton_append, l.upToExit_words,
        ih.mpr hothers]

/-- **A script performs the lines typed, and nothing else,** exactly if the words
of every line come within its first 255 bytes and are no more than 32. No interrupt
falls between two parts of a line, and no process of a command reads the script. -/
theorem script_performed_iff {lines : List ScriptLine} {rest : Bytes} (hrest : Ending rest)
    {as : List ShellAct} {s : Shell}
    (hrun : Runs shellStep (Shell.init false (scriptText lines ++ rest)) as s)
    (hkeeps : ∀ a ∈ as, a.Keeps) (hended : s.ended = true) :
    s.trace = (lines.map ScriptLine.words).map .command ++ shutdown ↔ ∀ l ∈ lines, l.Fits := by
  have hinj : Function.Injective ShellEffect.command := fun _ _ h => ShellEffect.command.inj h
  obtain ⟨-, hok⟩ := scriptOk_run hrun hkeeps
  cases hok with
  | running hlive => rw [hended] at hlive; cases hlive
  | ended _ htrace =>
    rw [htrace, List.append_left_inj, (List.map_injective_iff.mpr hinj).eq_iff]
    exact scriptWords_lines_iff hrest

/-- `stop "web 1"`. -/
def stopLine : ScriptLine where
  words := [bytes "stop", bytes "web 1"]
  text := bytes "stop \"web 1\""
  typed :=
    have hname : lineSyntax.Fits (none, bytes "stop") :=
      ⟨by decide, by decide +kernel, by decide +kernel⟩
    have hid : lineSyntax.Fits (some 34, bytes "web 1") := ⟨by decide +kernel, by decide +kernel⟩
    have hlast : lineSyntax.TypedLine [bytes "web 1"] (bytes " \"web 1\"") :=
      @WordSyntax.TypedLine.cons _ lineSyntax [32] _ _ [] _ (by decide +kernel) (.quoted hid)
        (by decide +kernel) (.nil (by decide +kernel))
    @WordSyntax.TypedLine.cons _ lineSyntax [] _ _ _ _ (by decide +kernel) (.bare hname)
      (by decide +kernel) hlast
  inline := by unfold Inline; decide +kernel
  front := by decide +kernel
  verb := ⟨bytes "stop", rfl, ⟨115, by decide, by decide⟩, by decide +kernel⟩

/-- The line, and the `exit` behind it, in two turns. -/
theorem script_performed_stop :
    ∃ s, Runs shellStep (Shell.init false (scriptText [stopLine] ++ bytes "exit\n"))
        [.turn ⟨false, false⟩, .turn ⟨false, false⟩] s ∧ s.ended = true ∧
      s.trace = [.command [bytes "stop", bytes "web 1"]] ++ shutdown := by
  obtain ⟨s, hs⟩ : ∃ s, shellStep ((Shell.init false (scriptText [stopLine] ++
      bytes "exit\n")).turn ⟨false, false⟩) (.turn ⟨false, false⟩) = some s := ⟨_, rfl⟩
  have hended : s.ended = true := by
    obtain rfl := Option.some.inj hs
    rfl
  have hrun : Runs shellStep (Shell.init false (scriptText [stopLine] ++ bytes "exit\n"))
      [.turn ⟨false, false⟩, .turn ⟨false, false⟩] s :=
    .snoc (.snoc (.nil _) trivial rfl) trivial hs
  have hending : Ending (bytes "exit\n") := .inr ⟨[], rfl⟩
  have hkeeps : ∀ a ∈ [ShellAct.turn ⟨false, false⟩, .turn ⟨false, false⟩], a.Keeps := by
    simp [ShellAct.Keeps]
  have hiff := script_performed_iff hending hrun hkeeps hended
  refine ⟨s, hrun, hended, hiff.mpr ?_⟩
  intro l hl
  rw [List.mem_singleton.mp hl]
  unfold ScriptLine.Fits
  decide +kernel

/-! ## Interrupts -/

/-- At the end of the input a stale `EINTR` is taken for an interrupt, again and again. -/
theorem stuck_run {s s' : Shell} {as : List ShellAct} (hrun : Runs shellStep s as s')
    (hscript : s.interactive = false) (hlive : s.ended = false) (heof : s.input = [])
    (heintr : s.eintr = true) : s'.ended = false := by
  have hstuck : s'.interactive = false ∧ s'.ended = false ∧ s'.input = [] ∧ s'.eintr = true := by
    refine hrun.invariant (I := fun s => s.interactive = false ∧ s.ended = false ∧ s.input = [] ∧
      s.eintr = true) ?_ ⟨hscript, hlive, heof, heintr⟩
    rintro s a s' ⟨hscript, hlive, heof, heintr⟩ - hs
    cases a with
    | turn leaves =>
      simp only [shellStep, hlive, Bool.false_eq_true, if_false, Option.some.injEq] at hs
      have hsame : s.turn leaves = s := by
        simp [Shell.turn, hscript, heof, heintr]
      rw [← hs, hsame]
      exact ⟨hscript, hlive, heof, heintr⟩
    | sigint =>
      simp only [shellStep, hlive, Bool.false_eq_true, if_false, Option.some.injEq] at hs
      rw [← hs]
      exact ⟨hscript, rfl, heof, heintr⟩
    | sigintReading n =>
      obtain ⟨-, hs⟩ := Option.ite_none_left_eq_some.mp hs
      obtain rfl := Option.some.inj hs
      exact ⟨hscript, hlive, by simp [heof], rfl⟩
    | childReads ahead n =>
      obtain ⟨-, hs⟩ := Option.ite_none_left_eq_some.mp hs
      obtain rfl := Option.some.inj hs
      exact ⟨hscript, hlive, by simp [heof], heintr⟩
  exact hstuck.2.1

/-- Otherwise the loop ends, in the next turn or in the one after a pending interrupt. -/
theorem ends_at_eof {s : Shell} (hscript : s.interactive = false) (heof : s.input = [])
    (heintr : s.eintr = false) (leaves leaves' : Leaves) :
    (s.turn leaves).ended = true ∨ ((s.turn leaves).turn leaves').ended = true := by
  by_cases hflag : s.interrupt = true
  · right
    have hfirst : s.turn leaves = { s with interrupt := false } := by
      simp [Shell.turn, hscript, heof, heintr, hflag]
    rw [hfirst]
    simp [Shell.turn, hscript, heof, heintr, Shell.shutDown]
  · left
    simp [Shell.turn, hscript, heof, heintr, hflag, Shell.shutDown]

/-- **Interrupts and processes that read the input** make a script perform pieces of
itself, in their order and each once. If none of them takes a part of the input, it
performs the first of its commands, and before it shuts down all of them. But when
the input has come to its end, the loop ends soon if `errno` is not `EINTR`, and
never if it is. -/
theorem interrupted_script {text : Bytes} {as : List ShellAct} {s : Shell}
    (hrun : Runs shellStep (Shell.init false text) as s) :
    (∃ pieces : List Bytes, (pieces.flatten ++ s.input).Sublist text ∧
      s.trace = (upToExit (pieceCommands pieces)).map .command ++
        (if s.ended then shutdown else [])) ∧
    ((∀ a ∈ as, a.Keeps) → ∃ done, done <+: upToExit (scriptWords text) ∧
      s.trace = done.map .command ++ (if s.ended then shutdown else []) ∧
      (s.ended = true → done = upToExit (scriptWords text))) ∧
    (s.ended = false → s.input = [] →
      (s.eintr = false → ∀ leaves leaves', (s.turn leaves).ended = true ∨
        ((s.turn leaves).turn leaves').ended = true) ∧
      (s.eintr = true → ∀ as' s', Runs shellStep s as' s' → s'.ended = false)) := by
  obtain ⟨hscript, pieces, hpieces⟩ := pieces_run hrun
  refine ⟨⟨pieces, hpieces.parts, ?_⟩, fun hkeeps => ?_, ?_⟩
  · cases hend : s.ended with
    | false =>
      obtain ⟨htrace, hall⟩ := hpieces.running hend
      rw [htrace, hall]
      simp
    | true => exact hpieces.ended hend
  · -- with nothing taken from the input, what is performed is a prefix of the script
    cases (scriptOk_run hrun hkeeps).2 with
    | @running done hlive hrest htrace =>
      refine ⟨done, ⟨_, hrest⟩, ?_, fun hended => ?_⟩
      · rw [hlive, htrace]
        simp
      · rw [hlive] at hended
        cases hended
    | ended hended htrace =>
      refine ⟨_, List.prefix_rfl, ?_, fun _ => rfl⟩
      rw [hended, htrace]
      simp
  · intro hlive heof
    refine ⟨fun heintr leaves leaves' => ends_at_eof hscript heof heintr leaves leaves', ?_⟩
    intro heintr as' s' hrun'
    exact stuck_run hrun' hscript hlive heof heintr

/-- Ctrl-C in front of the end of the input, after the only command. -/
theorem interrupted_script_list :
    ∃ s, Runs shellStep (Shell.init false (bytes "list\n"))
        [.turn ⟨false, false⟩, .sigintReading 0] s ∧
      ∀ as' s', Runs shellStep s as' s' → s'.ended = false := by
  obtain ⟨s, hs⟩ : ∃ s, shellStep ((Shell.init false (bytes "list\n")).turn ⟨false, false⟩)
      (.sigintReading 0) = some s := ⟨_, rfl⟩
  have hstate : s.ended = false ∧ s.input = [] ∧ s.eintr = true := by
    obtain rfl := Option.some.inj hs
    exact ⟨rfl, rfl, rfl⟩
  have hrun : Runs shellStep (Shell.init false (bytes "list\n"))
      [.turn ⟨false, false⟩, .sigintReading 0] s :=
    .snoc (.snoc (.nil _) trivial rfl) trivial hs
  exact ⟨s, hrun, ((interrupted_script hrun).2.2 hstate.1 hstate.2.1).2 hstate.2.2⟩

end ContainerSim.Cli
