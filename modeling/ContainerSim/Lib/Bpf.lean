import Mathlib.Tactic.Common

/-!
# Classic BPF

The part of the machine that packet and system call filters use: an accumulator
of 32 bits, loads from the data that is filtered, tests that jump forward, and
`RET`. `step` is the machine with its program counter. Since every jump goes
forward, what is still to be executed is an end of the program, and `run`
computes the result on such ends; `returns_iff_run` says that it is the
machine's.
-/

namespace ContainerSim.Lib.Bpf

/-- Jump offsets count from the next instruction. -/
inductive Insn where
  /-- `BPF_LD | BPF_W | BPF_ABS` -/
  | ldAbs (k : UInt32)
  /-- `BPF_JMP | BPF_JEQ | BPF_K` -/
  | jeq (k : UInt32) (jt jf : UInt8)
  /-- `BPF_JMP | BPF_JSET | BPF_K` -/
  | jset (k : UInt32) (jt jf : UInt8)
  /-- `BPF_RET | BPF_K` -/
  | ret (k : UInt32)
  deriving DecidableEq, Repr

inductive Outcome where
  | returned (k : UInt32)
  | goto (pc : Nat) (acc : UInt32)

/-- One instruction; `none` behind the end of the program and for a load from
outside the data. -/
def step (prog : List Insn) (load : UInt32 → Option UInt32) (pc : Nat) (acc : UInt32) :
    Option Outcome :=
  match prog[pc]? with
  | none => none
  | some (.ldAbs k) => (load k).map fun w => .goto (pc + 1) w
  | some (.jeq k jt jf) =>
    some (.goto (pc + 1 + (if acc = k then jt else jf).toNat) acc)
  | some (.jset k jt jf) =>
    some (.goto (pc + 1 + (if acc &&& k ≠ 0 then jt else jf).toNat) acc)
  | some (.ret k) => some (.returned k)

/-- The machine gets to a `RET`. -/
inductive Returns (prog : List Insn) (load : UInt32 → Option UInt32) : Nat → UInt32 → UInt32 → Prop
  | ret {pc : Nat} {acc k : UInt32} : step prog load pc acc = some (.returned k) →
      Returns prog load pc acc k
  | goto {pc pc' : Nat} {acc acc' k : UInt32} : step prog load pc acc = some (.goto pc' acc') →
      Returns prog load pc' acc' k → Returns prog load pc acc k

theorem Returns.unique {prog : List Insn} {load : UInt32 → Option UInt32} {pc : Nat}
    {acc k k' : UInt32} (h : Returns prog load pc acc k) (h' : Returns prog load pc acc k') :
    k = k' := by
  induction h with
  | ret hs =>
    cases h' with
    | ret hs' =>
      rw [hs] at hs'
      cases hs'
      rfl
    | goto hs' _ =>
      rw [hs] at hs'
      cases hs'
  | goto hs _ ih =>
    cases h' with
    | ret hs' =>
      rw [hs] at hs'
      cases hs'
    | goto hs' hrest' =>
      rw [hs] at hs'
      cases hs'
      exact ih hrest'

/-! ## Ends of programs -/

/-- The result of what is left to execute, in at most so many steps. -/
def exec (load : UInt32 → Option UInt32) : Nat → List Insn → UInt32 → Option UInt32
  | _, [], _ => none
  | 0, _ :: _, _ => none
  | n + 1, .ldAbs k :: rest, _ => (load k).bind fun w => exec load n rest w
  | n + 1, .jeq k jt jf :: rest, acc =>
    exec load n (rest.drop (if acc = k then jt else jf).toNat) acc
  | n + 1, .jset k jt jf :: rest, acc =>
    exec load n (rest.drop (if acc &&& k ≠ 0 then jt else jf).toNat) acc
  | _ + 1, .ret k :: _, _ => some k

/-- Each step leaves less to execute, so the length is fuel enough. -/
theorem exec_fuel {load : UInt32 → Option UInt32} {n n' : Nat} {prog : List Insn}
    (h : prog.length ≤ n) (h' : prog.length ≤ n') (acc : UInt32) :
    exec load n prog acc = exec load n' prog acc := by
  induction n generalizing n' prog acc with
  | zero =>
    rw [List.length_eq_zero_iff.mp (Nat.le_zero.mp h)]
    cases n' <;> rfl
  | succ n ih =>
    cases prog with
    | nil => cases n' <;> rfl
    | cons i rest =>
      obtain ⟨n', rfl⟩ : ∃ k, n' = k + 1 := ⟨n' - 1, by simp at h'; omega⟩
      rw [List.length_cons, Nat.succ_le_succ_iff] at h h'
      have hdrop : ∀ d acc, exec load n (rest.drop d) acc = exec load n' (rest.drop d) acc := by
        intro d acc
        have hlen := (List.drop_sublist d rest).length_le
        exact ih (Nat.le_trans hlen h) (Nat.le_trans hlen h') acc
      cases i with
      | ldAbs k =>
        show (load k).bind _ = (load k).bind _
        exact congrArg _ (funext fun w => ih h h' w)
      | jeq k jt jf => exact hdrop _ acc
      | jset k jt jf => exact hdrop _ acc
      | ret k => rfl

/-- The result of what is left to execute. -/
def run (load : UInt32 → Option UInt32) (prog : List Insn) (acc : UInt32) : Option UInt32 :=
  exec load prog.length prog acc

section
variable (load : UInt32 → Option UInt32) (rest : List Insn) (acc k : UInt32) (jt jf : UInt8)

theorem run_drop (d : Nat) : exec load rest.length (rest.drop d) acc = run load (rest.drop d) acc :=
  exec_fuel (List.drop_sublist d rest).length_le (Nat.le_refl _) acc

@[simp] theorem run_nil : run load [] acc = none := rfl

@[simp] theorem run_ret : run load (.ret k :: rest) acc = some k := rfl

@[simp] theorem run_ldAbs :
    run load (.ldAbs k :: rest) acc = (load k).bind fun w => run load rest w := rfl

@[simp] theorem run_jeq :
    run load (.jeq k jt jf :: rest) acc =
      run load (rest.drop (if acc = k then jt else jf).toNat) acc :=
  run_drop load rest acc _

@[simp] theorem run_jset :
    run load (.jset k jt jf :: rest) acc =
      run load (rest.drop (if acc &&& k ≠ 0 then jt else jf).toNat) acc :=
  run_drop load rest acc _

end

variable {load : UInt32 → Option UInt32}

/-- What `run` does at a program counter. -/
theorem run_step (prog : List Insn) (pc : Nat) (acc : UInt32) :
    run load (prog.drop pc) acc =
      match step prog load pc acc with
      | none => none
      | some (.returned k) => some k
      | some (.goto pc' acc') => run load (prog.drop pc') acc' := by
  unfold step
  rcases Nat.lt_or_ge pc prog.length with hlt | hge
  · rw [List.getElem?_eq_getElem hlt, List.drop_eq_getElem_cons hlt]
    cases prog[pc] with
    | ldAbs k =>
      rw [run_ldAbs]
      simp only
      cases load k with
      | none => rfl
      | some w => rfl
    | jeq k jt jf => rw [run_jeq, List.drop_drop]
    | jset k jt jf => rw [run_jset, List.drop_drop]
    | ret k => rfl
  · rw [List.getElem?_eq_none hge, List.drop_eq_nil_of_le hge]
    rfl

/-- Every jump goes forward. -/
theorem step_forward {prog : List Insn} {pc pc' : Nat} {acc acc' : UInt32}
    (h : step prog load pc acc = some (.goto pc' acc')) : pc < pc' ∧ pc < prog.length := by
  unfold step at h
  split at h
  · cases h
  · rename_i hfetch
    obtain ⟨w, -, heq⟩ := Option.map_eq_some_iff.mp h
    cases heq
    exact ⟨Nat.lt_succ_self pc, (List.getElem?_eq_some_iff.mp hfetch).1⟩
  · rename_i hfetch
    cases h
    exact ⟨by omega, (List.getElem?_eq_some_iff.mp hfetch).1⟩
  · rename_i hfetch
    cases h
    exact ⟨by omega, (List.getElem?_eq_some_iff.mp hfetch).1⟩
  · cases h

/-- The machine returns what `run` computes. -/
theorem returns_iff_run {prog : List Insn} {pc : Nat} {acc k : UInt32} :
    Returns prog load pc acc k ↔ run load (prog.drop pc) acc = some k := by
  constructor
  · intro h
    induction h with
    | ret hs => rw [run_step, hs]
    | goto hs _ ih =>
      rw [run_step, hs]
      exact ih
  · intro h
    -- on what is left of the program
    induction hleft : prog.length - pc using Nat.strongRecOn generalizing pc acc with
    | ind left ih =>
      rw [run_step] at h
      cases hs : step prog load pc acc with
      | none =>
        rw [hs] at h
        cases h
      | some o =>
        rw [hs] at h
        cases o with
        | returned k' =>
          cases h
          exact .ret hs
        | goto pc' acc' =>
          obtain ⟨hforward, hlt⟩ := step_forward hs
          exact .goto hs (ih (prog.length - pc') (by omega) h rfl)

end ContainerSim.Lib.Bpf
