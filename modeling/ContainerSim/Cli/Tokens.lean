import ContainerSim.Cli.Exec
import ContainerSim.Lib.Separators

/-!
# The words of a command, started and executed

`build_exec_argv` cuts up the command of a container at spaces,
`split_command_argv` that of `exec` and of a health check at spaces and tabs.
They agree as long as no tab stands outside of quotes.
-/

namespace ContainerSim.Cli

open Lib

/-- Outside of quotes there is a tab: a quote opens where a word begins and
closes at the next of its kind. -/
def straysTab (line : Bytes) : Bool := strays execSyntax lineSyntax .between line

/-- There are words, and not too many for `argv[32]`. -/
def argvOf (words : List Bytes) : Option (List Bytes) :=
  if words = [] ∨ 31 < words.length then none else some words

/-- Without words both fail, as with too many. -/
theorem argvOf_eq (ws : List (Option UInt8 × Bytes)) :
    argvOf (ws.map Prod.snd) =
      match (if ws.length ≤ 31 then some (ws.map Prod.snd) else none : Option (List Bytes)) with
      | some [] => none
      | r => r := by
  unfold argvOf
  cases ws with
  | nil => rfl
  | cons w ws =>
    by_cases hroom : (w :: ws).length ≤ 31
    · rw [if_neg (by simpa using hroom), if_pos hroom]
      rfl
    · rw [if_pos (.inr (by simpa using hroom)), if_neg hroom]

theorem argvOf_eq_none {words : List Bytes} :
    argvOf words = none ↔ words = [] ∨ 31 < words.length := by
  unfold argvOf
  split
  · rename_i hfail
    exact iff_of_true rfl hfail
  · rename_i hok
    exact iff_of_false (fun h => by cases h) hok

theorem buildExecArgvLoop_toOption (maxArgs fuel : Nat) (p : Bytes) (argv : List Bytes) :
    (buildExecArgvLoop maxArgs fuel p argv).toOption =
      execSyntax.collect (maxArgs - 1) fuel p argv := by
  ext argv'
  rw [← buildExecArgvLoop_eq_ok]
  cases buildExecArgvLoop maxArgs fuel p argv with
  | ok argv'' => simp [Except.toOption]
  | error e => simp [Except.toOption]

theorem buildExecArgv_split {line : Bytes} (hlen : line.length ≤ 255)
    {ws : List (Option UInt8 × Bytes)} (h : execSyntax.Split line ws) :
    (buildExecArgv 256 32 line).toOption = argvOf (ws.map Prod.snd) := by
  have hloop := buildExecArgvLoop_toOption 32 line.length line []
  rw [h.collect_eq] at hloop
  rw [argvOf_eq, ← hloop]
  unfold buildExecArgv
  by_cases hnil : line = []
  · rw [hnil]
    rfl
  · rw [if_neg (by simp [hnil]), if_neg (by omega)]
    cases buildExecArgvLoop 32 line.length line [] with
    | error e => rfl
    | ok argv => cases argv <;> rfl

theorem splitCommandArgv_split {line : Bytes} {ws : List (Option UInt8 × Bytes)}
    (h : lineSyntax.Split line ws) : splitCommandArgv 32 line = argvOf (ws.map Prod.snd) := by
  have hloop := splitCommandArgvLoop_collect 32 line.length line []
  rw [h.collect_eq] at hloop
  rw [argvOf_eq, ← hloop]
  exact if_neg (by decide)

/-- A line cut up into more words than `argv[32]` takes. -/
def TooManyWords (x : WordSyntax UInt8) (line : Bytes) : Prop :=
  ∃ ws, x.Split line ws ∧ 31 < ws.length

theorem tooManyWords_iff {x : WordSyntax UInt8} {line : Bytes} {ws : List (Option UInt8 × Bytes)}
    (h : x.Split line ws) : TooManyWords x line ↔ 31 < ws.length :=
  ⟨fun ⟨_, hv, hlong⟩ => hv.unique h ▸ hlong, fun hlong => ⟨ws, h, hlong⟩⟩

/-- A line without words is one of separators only. -/
theorem split_eq_nil {x : WordSyntax UInt8} {line : Bytes} {ws : List (Option UInt8 × Bytes)}
    (h : x.Split line ws) : ws = [] ↔ ∀ c ∈ line, x.sep c = true := by
  rw [← WordSyntax.nextWord_eq_none]
  constructor
  · rintro rfl
    cases h with
    | nil hnone => exact hnone
  · exact fun hnone => h.unique (.nil hnone)

/-- A line is started and executed with the same words, or with none, exactly
if no tab stands outside of quotes, or if there are too many words between
spaces and, between spaces and tabs, too many or none. -/
theorem argv_agree_iff {line : Bytes} (hlen : line.length ≤ 255) :
    (buildExecArgv 256 32 line).toOption = splitCommandArgv 32 line ↔
      straysTab line = false ∨
        TooManyWords execSyntax line ∧
          (TooManyWords lineSyntax line ∨ ∀ c ∈ line, lineSyntax.sep c = true) := by
  obtain ⟨ws, hws⟩ := exists_split execSyntax line
  obtain ⟨ws', hws'⟩ := exists_split lineSyntax line
  have hsep : ∀ c, execSyntax.sep c = true → lineSyntax.sep c = true := by
    intro c hc
    rw [(execSyntax_sep c).mp hc]
    rfl
  have hsame : ws.map Prod.snd = ws'.map Prod.snd ↔ straysTab line = false :=
    @words_eq_iff _ _ execSyntax lineSyntax (fun _ => rfl) hsep _ _ _ hws hws'
  rw [buildExecArgv_split hlen hws, splitCommandArgv_split hws', tooManyWords_iff hws,
    tooManyWords_iff hws']
  constructor
  · -- the same words, as nothing strays, or both refused
    intro heq
    rw [← hsame]
    by_cases hwords : ws.map Prod.snd = ws'.map Prod.snd
    · exact .inl hwords
    · right
      have hnone : argvOf (ws.map Prod.snd) = none ∧ argvOf (ws'.map Prod.snd) = none := by
        unfold argvOf at heq ⊢
        split at heq
        · rename_i hfail
          rw [if_pos hfail]
          exact ⟨rfl, heq.symm⟩
        · split at heq
          · cases heq
          · exact absurd (Option.some.inj heq) hwords
      rw [argvOf_eq_none, argvOf_eq_none, List.map_eq_nil_iff, List.map_eq_nil_iff,
        List.length_map, List.length_map] at hnone
      obtain ⟨hfail, hfail'⟩ := hnone
      -- no words between spaces means none between spaces and tabs
      refine ⟨hfail.resolve_left fun hnil => hwords ?_, hfail'.symm.imp id (split_eq_nil hws').mp⟩
      have hnil' : ws' = [] :=
        (split_eq_nil hws').mpr fun c hc => hsep c ((split_eq_nil hws).mp hnil c hc)
      rw [hnil, hnil']
  · rintro (hnone | ⟨hmany, hmany' | hblank⟩)
    · rw [hsame.mpr hnone]
    · rw [argvOf_eq_none.mpr (.inr (by simpa using hmany)),
        argvOf_eq_none.mpr (.inr (by simpa using hmany'))]
    · rw [argvOf_eq_none.mpr (.inr (by simpa using hmany)), (split_eq_nil hws').mpr hblank]
      rfl

/-- `sh -c "a<tab>b"`. -/
def quotedTabLine : Bytes := bytes "sh -c \"a\tb\""

theorem argv_agree_quoted_tab :
    (buildExecArgv 256 32 quotedTabLine).toOption = splitCommandArgv 32 quotedTabLine ∧
      splitCommandArgv 32 quotedTabLine = some [bytes "sh", bytes "-c", bytes "a\tb"] :=
  ⟨(argv_agree_iff (by decide)).mpr (.inl (by decide)), by decide⟩

/-- `echo a<tab>b` is started with one argument and executed with two. -/
theorem not_argv_agree :
    ¬ ∀ line : Bytes, line.length ≤ 255 →
      (buildExecArgv 256 32 line).toOption = splitCommandArgv 32 line := by
  intro hclaim
  have heq := hclaim (bytes "echo a\tb") (by decide)
  revert heq
  decide

end ContainerSim.Cli
