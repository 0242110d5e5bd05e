import ContainerSim.Lib.Bpf
import ContainerSim.Runtime.Types

/-!
# The system call filter

`security_apply_seccomp` installs a program of classic BPF. It returns what a
policy says that mentions neither instructions nor jumps
(`seccomp_filter_policy`): each `BLK` decides about one number and passes the
accumulator on, so the list of them decides whether the number is in the list.
-/

namespace ContainerSim.Security

open Lib Lib.Bpf ContainerSim.Runtime

/-! ## The filter -/

def AUDIT_ARCH_X86_64 : UInt32 := 0xC000003E
def SECCOMP_RET_KILL_PROCESS : UInt32 := 0x80000000
def SECCOMP_RET_ERRNO : UInt32 := 0x00050000
def SECCOMP_RET_DATA : UInt32 := 0x0000FFFF
def SECCOMP_RET_ALLOW : UInt32 := 0x7FFF0000
def EPERM : UInt32 := 1
def CLONE_NEWUSER : UInt32 := 0x10000000
def NR_clone : UInt32 := 56

/-- `SECCOMP_RET_ERRNO|(EPERM & SECCOMP_RET_DATA)`. -/
def retEperm : UInt32 := SECCOMP_RET_ERRNO ||| (EPERM &&& SECCOMP_RET_DATA)

/-- `struct seccomp_data`. -/
structure SeccompData where
  nr : UInt32
  arch : UInt32
  instructionPointer : UInt64
  args : Fin 6 → UInt64

def lowWord (x : UInt64) : UInt32 := x.toUInt32

def highWord (x : UInt64) : UInt32 := (x >>> 32).toUInt32

/-- The data as the words of a little-endian machine. -/
def SeccompData.words (d : SeccompData) : List UInt32 :=
  [d.nr, d.arch, lowWord d.instructionPointer, highWord d.instructionPointer] ++
    (List.finRange 6).flatMap fun i => [lowWord (d.args i), highWord (d.args i)]

/-- What `BPF_LD | BPF_W | BPF_ABS` loads: whole words of the data. -/
def SeccompData.load (d : SeccompData) (k : UInt32) : Option UInt32 :=
  if k.toNat % 4 = 0 then d.words[k.toNat / 4]? else none

/-- `offsetof(struct seccomp_data, ...)`. -/
def offsetNr : UInt32 := 0
def offsetArch : UInt32 := 4
def offsetArg0 : UInt32 := 16

/-- `BLK(nr)`. -/
def blk (nr : UInt32) : List Insn := [.jeq nr 0 1, .ret retEperm]

/-- The numbers of the blocked system calls on x86-64: ptrace, mount, umount2,
kexec_load, reboot, swapon, swapoff, acct, settimeofday, adjtimex,
clock_settime, quotactl, add_key, request_key, keyctl, unshare, setns,
perf_event_open, init_module, delete_module, finit_module, open_by_handle_at,
lookup_dcookie, pivot_root, iopl, ioperm, kexec_file_load. -/
def blockedSyscalls : List UInt32 :=
  [101, 165, 166, 246, 169, 167, 168, 163, 164, 159, 227, 179, 248, 249, 250, 272, 308, 298, 175,
    176, 313, 304, 212, 155, 172, 173, 320]

/-- The `filter` array. -/
def filter : List Insn :=
  [.ldAbs offsetArch, .jeq AUDIT_ARCH_X86_64 1 0, .ret SECCOMP_RET_KILL_PROCESS, .ldAbs offsetNr] ++
    (blockedSyscalls.flatMap blk ++
      [.jeq NR_clone 0 3, .ldAbs offsetArg0, .jset CLONE_NEWUSER 0 1, .ret retEperm,
        .ret SECCOMP_RET_ALLOW])

/-- `security_apply_seccomp`: the program it installs, if any. -/
def securityApplySeccomp (cfg : Option SecurityConfig) : Option (List Insn) :=
  match cfg with
  | none => none
  | some cfg => if cfg.privileged ≠ 0 ∨ cfg.seccompEnabled = 0 then none else some filter

/-! ## The policy -/

inductive Verdict where
  | killProcess
  | eperm
  | allow
  deriving DecidableEq, Repr

/-- The value a filter returns for it. -/
def Verdict.code : Verdict → UInt32
  | .killProcess => SECCOMP_RET_KILL_PROCESS
  | .eperm => retEperm
  | .allow => SECCOMP_RET_ALLOW

/-- A foreign architecture, a blocked call, and `clone` into a new user
namespace. -/
def policy (d : SeccompData) : Verdict :=
  if d.arch ≠ AUDIT_ARCH_X86_64 then .killProcess
  else if d.nr ∈ blockedSyscalls ∨
      (d.nr = NR_clone ∧ lowWord (d.args 0) &&& CLONE_NEWUSER ≠ 0) then .eperm
  else .allow

section
variable (d : SeccompData) (rest : List Insn)

@[simp] theorem load_arch : d.load offsetArch = some d.arch := rfl

@[simp] theorem load_nr : d.load offsetNr = some d.nr := rfl

@[simp] theorem load_arg0 : d.load offsetArg0 = some (lowWord (d.args 0)) := rfl

variable {load : UInt32 → Option UInt32} (acc : UInt32)

theorem run_blk (nr : UInt32) :
    run load (blk nr ++ rest) acc = if acc = nr then some retEperm else run load rest acc := by
  show run load (.jeq nr 0 1 :: .ret retEperm :: rest) acc = _
  rw [run_jeq]
  split
  · rfl
  · rfl

/-- A chain of blocks decides whether the number is in the list. -/
theorem run_blks (nrs : List UInt32) :
    run load (nrs.flatMap blk ++ rest) acc =
      if acc ∈ nrs then some retEperm else run load rest acc := by
  induction nrs with
  | nil => simp
  | cons nr nrs ih =>
    rw [List.flatMap_cons, List.append_assoc, run_blk, ih]
    by_cases hnr : acc = nr
    · simp [hnr]
    · simp [hnr]

/-- The last five instructions. -/
theorem run_clone :
    run d.load [.jeq NR_clone 0 3, .ldAbs offsetArg0, .jset CLONE_NEWUSER 0 1, .ret retEperm,
        .ret SECCOMP_RET_ALLOW] acc =
      some (if acc = NR_clone ∧ lowWord (d.args 0) &&& CLONE_NEWUSER ≠ 0 then retEperm
        else SECCOMP_RET_ALLOW) := by
  rw [run_jeq]
  by_cases hnr : acc = NR_clone
  · rw [if_pos hnr]
    show run d.load [.ldAbs offsetArg0, .jset CLONE_NEWUSER 0 1, .ret retEperm,
      .ret SECCOMP_RET_ALLOW] acc = _
    rw [run_ldAbs, load_arg0, Option.bind_some, run_jset]
    by_cases hflag : lowWord (d.args 0) &&& CLONE_NEWUSER ≠ 0
    · rw [if_pos hflag, if_pos ⟨hnr, hflag⟩]
      rfl
    · rw [if_neg hflag, if_neg fun h => hflag h.2]
      rfl
  · rw [if_neg hnr, if_neg fun h => hnr h.1]
    rfl

theorem run_filter : run d.load filter acc = some (policy d).code := by
  unfold filter policy
  rw [List.cons_append, run_ldAbs, load_arch, Option.bind_some, List.cons_append, run_jeq]
  by_cases harch : d.arch = AUDIT_ARCH_X86_64
  · rw [if_pos harch, if_neg (not_not.mpr harch)]
    show run d.load (.ldAbs offsetNr :: (blockedSyscalls.flatMap blk ++ _)) _ = _
    rw [run_ldAbs, load_nr, Option.bind_some, run_blks, run_clone]
    by_cases hblocked : d.nr ∈ blockedSyscalls
    · rw [if_pos hblocked, if_pos (.inl hblocked)]
      rfl
    · rw [if_neg hblocked]
      by_cases hclone : d.nr = NR_clone ∧ lowWord (d.args 0) &&& CLONE_NEWUSER ≠ 0
      · rw [if_pos hclone, if_pos (.inr hclone)]
        rfl
      · rw [if_neg hclone, if_neg fun h => h.elim hblocked hclone]
        rfl
  · rw [if_neg harch, if_pos harch]
    rfl

/-- So does the program that is installed. -/
theorem securityApplySeccomp_policy {cfg : Option SecurityConfig} {prog : List Insn}
    (h : securityApplySeccomp cfg = some prog) : Returns prog d.load 0 acc (policy d).code := by
  cases cfg with
  | none => cases h
  | some cfg =>
    unfold securityApplySeccomp at h
    simp only at h
    split at h
    · cases h
    · cases h
      exact returns_iff_run.mpr (run_filter d acc)

end

/-- **The filter computes its policy** for every architecture, number and
arguments: the machine gets to a `RET`, and to one with this value only. -/
theorem seccomp_filter_policy (d : SeccompData) (k : UInt32) :
    Returns filter d.load 0 0 k ↔ k = (policy d).code := by
  rw [returns_iff_run, List.drop_zero, run_filter, Option.some.injEq]
  exact eq_comm

end ContainerSim.Security
