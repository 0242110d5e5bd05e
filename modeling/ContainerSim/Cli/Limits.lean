import ContainerSim.Cli.FlagList

/-!
# Limits from the flags to the kernel

A limit that is zero is no limit, to `resource_apply_limits` as to the others.
The value of a flag is read with `strtoul` and cut to 32 bits, so a number that
is a multiple of 2 ^ 32 is no limit either.
-/

namespace ContainerSim.Cli

open Lib ContainerSim.Runtime

/-! ## `resource_apply_limits` -/

/-- A `struct rlimit`. -/
structure RLimit where
  cur : UInt64
  max : UInt64
  deriving DecidableEq, Repr

/-- `RLIM_INFINITY`. -/
def rlimInfinity : UInt64 := 0xFFFFFFFFFFFFFFFF

/-- Which calls fail for a resource. -/
structure RLimitCalls where
  getFails : Limit → Bool
  setFails : Limit → RLimit → Bool

/-- The limits of the process; `RLIMIT_CPU`, `RLIMIT_AS` and `RLIMIT_NPROC`. -/
abbrev RLimits : Type := Limit → RLimit

/-- A limit that is in force is not raised. -/
def lowerOnly (inForce requested : UInt64) : UInt64 :=
  if inForce ≠ rlimInfinity ∧ requested > inForce then inForce else requested

/-- `next` -/
def nextLimit (current : RLimit) (requested : UInt64) : RLimit :=
  { cur := requested
    max := if current.max = rlimInfinity ∨ requested < current.max then requested else current.max }

/-- `apply_single_limit_lower_only`. -/
def applySingleLimitLowerOnly (calls : RLimitCalls) (resource : Limit) (requested : UInt64)
    (limits : RLimits) : RLimits × Int :=
  if calls.getFails resource then (limits, -1)
  else
    let current := limits resource
    let requested := lowerOnly current.max (lowerOnly current.cur requested)
    if requested = current.cur ∧ requested = current.max then (limits, 0)
    else
      let next := nextLimit current requested
      if calls.setFails resource next then (limits, -1)
      else (fun r => if r = resource then next else limits r, 0)

/-- What is asked of the kernel for a limit: megabytes count in bytes. -/
def Limit.requested (config : ResourceConfig) : Limit → UInt64
  | .cpu => config.cpuSeconds.toUInt64
  | .mem => config.memoryMb.toUInt64 * 1024 * 1024
  | .pids => config.maxProcesses.toUInt64

/-- One limit of `resource_apply_limits`, left out if it is zero. -/
def applyLimit (calls : RLimitCalls) (config : ResourceConfig) (l : Limit) (limits : RLimits) :
    RLimits × Int :=
  if l.get config = 0 then (limits, 0)
  else if l = .mem ∧ l.requested config = 0 then (limits, -1)
  else applySingleLimitLowerOnly calls l (l.requested config) limits

/-- `resource_apply_limits`. -/
def resourceApplyLimits (calls : RLimitCalls) (config : ResourceConfig) (limits : RLimits) :
    RLimits × Int :=
  let (limits, r) := applyLimit calls config .cpu limits
  if r ≠ 0 then (limits, -1)
  else
    let (limits, r) := applyLimit calls config .mem limits
    if r ≠ 0 then (limits, -1)
    else
      let (limits, r) := applyLimit calls config .pids limits
      if r ≠ 0 then (limits, -1) else (limits, 0)

theorem applySingleLimitLowerOnly_other {calls : RLimitCalls} {resource l : Limit}
    (hne : l ≠ resource) (requested : UInt64) (limits : RLimits) :
    (applySingleLimitLowerOnly calls resource requested limits).1 l = limits l := by
  unfold applySingleLimitLowerOnly
  split
  · rfl
  · simp only
    split
    · rfl
    · split
      · rfl
      · exact if_neg hne

theorem lowerOnly_le (inForce requested : UInt64) : lowerOnly inForce requested ≤ requested := by
  unfold lowerOnly
  split
  · rename_i h
    exact UInt64.le_of_lt h.2
  · exact UInt64.le_refl _

/-- What is in force afterwards is not above what was asked for. -/
theorem applySingleLimitLowerOnly_le {calls : RLimitCalls} {resource : Limit}
    {requested : UInt64} {limits limits' : RLimits}
    (h : applySingleLimitLowerOnly calls resource requested limits = (limits', 0)) :
    (limits' resource).cur ≤ requested := by
  -- the hard limit bounds the new soft limit once more
  have hle : lowerOnly (limits resource).max (lowerOnly (limits resource).cur requested) ≤
      requested := UInt64.le_trans (lowerOnly_le _ _) (lowerOnly_le _ _)
  unfold applySingleLimitLowerOnly at h
  split at h
  · cases h
  · simp only at h
    split at h
    · rename_i hsame
      cases h
      exact hsame.1 ▸ hle
    · split at h
      · cases h
      · cases h
        show (if resource = resource then nextLimit (limits resource) _ else _).cur ≤ requested
        rw [if_pos rfl]
        exact hle

theorem applyLimit_other {calls : RLimitCalls} {config : ResourceConfig} {l l' : Limit}
    (hne : l' ≠ l) (limits : RLimits) : (applyLimit calls config l limits).1 l' = limits l' := by
  unfold applyLimit
  split
  · rfl
  · split
    · rfl
    · exact applySingleLimitLowerOnly_other hne _ limits

/-- A limit of zero leaves what is in force. -/
theorem applyLimit_zero {calls : RLimitCalls} {config : ResourceConfig} {l : Limit}
    (h : l.get config = 0) (limits : RLimits) : applyLimit calls config l limits = (limits, 0) :=
  if_pos h

theorem applyLimit_le {calls : RLimitCalls} {config : ResourceConfig} {l : Limit}
    (hset : l.get config ≠ 0) {limits limits' : RLimits}
    (h : applyLimit calls config l limits = (limits', 0)) :
    (limits' l).cur ≤ l.requested config := by
  unfold applyLimit at h
  rw [if_neg hset] at h
  split at h
  · cases h
  · exact applySingleLimitLowerOnly_le h

/-- A call that succeeds has taken the three limits one after the other. -/
theorem resourceApplyLimits_zero {calls : RLimitCalls} {config : ResourceConfig}
    {limits limits' : RLimits} (h : resourceApplyLimits calls config limits = (limits', 0)) :
    ∃ l₁ l₂, applyLimit calls config .cpu limits = (l₁, 0) ∧
      applyLimit calls config .mem l₁ = (l₂, 0) ∧
      applyLimit calls config .pids l₂ = (limits', 0) := by
  unfold resourceApplyLimits at h
  cases hcpu : applyLimit calls config .cpu limits with
  | mk l₁ r₁ =>
    simp only [hcpu] at h
    split at h
    · cases h
    · rename_i hr₁
      obtain rfl := not_not.mp hr₁
      cases hmem : applyLimit calls config .mem l₁ with
      | mk l₂ r₂ =>
        simp only [hmem] at h
        split at h
        · cases h
        · rename_i hr₂
          obtain rfl := not_not.mp hr₂
          cases hpids : applyLimit calls config .pids l₂ with
          | mk l₃ r₃ =>
            simp only [hpids] at h
            split at h
            · cases h
            · rename_i hr₃
              obtain rfl := not_not.mp hr₃
              cases h
              exact ⟨l₁, l₂, rfl, hmem, hpids⟩

/-- The call leaves a limit of zero as it was and puts another in force. -/
theorem resourceApplyLimits_spec {calls : RLimitCalls} {config : ResourceConfig}
    {limits limits' : RLimits} (h : resourceApplyLimits calls config limits = (limits', 0))
    (l : Limit) :
    (l.get config = 0 → limits' l = limits l) ∧
      (l.get config ≠ 0 → (limits' l).cur ≤ l.requested config) := by
  obtain ⟨l₁, l₂, hcpu, hmem, hpids⟩ := resourceApplyLimits_zero h
  -- each of the three calls leaves the other two resources alone
  have hfirst : ∀ r, r ≠ .cpu → l₁ r = limits r := fun r hr => by
    have hother := @applyLimit_other calls config _ _ hr limits
    rwa [hcpu] at hother
  have hsecond : ∀ r, r ≠ .mem → l₂ r = l₁ r := fun r hr => by
    have hother := @applyLimit_other calls config _ _ hr l₁
    rwa [hmem] at hother
  have hthird : ∀ r, r ≠ .pids → limits' r = l₂ r := fun r hr => by
    have hother := @applyLimit_other calls config _ _ hr l₂
    rwa [hpids] at hother
  cases l with
  | cpu =>
    rw [hthird .cpu (by decide), hsecond .cpu (by decide)]
    refine ⟨fun hzero => ?_, fun hset => applyLimit_le hset hcpu⟩
    rw [applyLimit_zero hzero] at hcpu
    rw [(Prod.mk.inj hcpu).1]
  | mem =>
    rw [hthird .mem (by decide), ← hfirst .mem (by decide)]
    refine ⟨fun hzero => ?_, fun hset => applyLimit_le hset hmem⟩
    rw [applyLimit_zero hzero] at hmem
    rw [(Prod.mk.inj hmem).1]
  | pids =>
    rw [← hfirst .pids (by decide), ← hsecond .pids (by decide)]
    refine ⟨fun hzero => ?_, fun hset => applyLimit_le hset hpids⟩
    rw [applyLimit_zero hzero] at hpids
    rw [(Prod.mk.inj hpids).1]

/-! ## From the flag to the field -/

/-- A run of digits of any length, as `strtoul` and the cut to 32 bits leave it. -/
theorem limitValue_digits {value : Bytes} (hne : value ≠ [])
    (hdigits : ∀ c ∈ value, isDigit 10 c = true) :
    limitValue value = UInt32.ofNat (min (readDigits 10 value) (2 ^ 64 - 1)) := by
  have hscan := scanInt_digits hne hdigits (NoDigit.nil 10)
  rw [List.append_nil] at hscan
  unfold limitValue strtoul
  rw [hscan]

/-- A number that does not fit saturates, and one that fits is cut. -/
theorem limitValue_ne_zero {value : Bytes} (hne : value ≠ [])
    (hdigits : ∀ c ∈ value, isDigit 10 c = true) :
    limitValue value ≠ 0 ↔
      2 ^ 64 ≤ readDigits 10 value ∨ ¬ 2 ^ 32 ∣ readDigits 10 value := by
  rw [limitValue_digits hne hdigits]
  generalize readDigits 10 value = n
  have hzero : UInt32.ofNat (min n (2 ^ 64 - 1)) = 0 ↔ min n (2 ^ 64 - 1) % 2 ^ 32 = 0 := by
    rw [← UInt32.toNat_inj, UInt32.toNat_ofNat']
    rfl
  rw [Ne, hzero]
  omega

/-- The last flag of its kind gives the limit. -/
theorem get_setFlags {l : Limit} {post : List Flag} (hlast : ∀ value, .limit l value ∉ post)
    (f : LimitFlags) : l.get (setFlags post f).limits = l.get f.limits := by
  induction post generalizing f with
  | nil => rfl
  | cons x post ih =>
    rw [setFlags_cons, ih fun value hmem => hlast value (List.mem_cons_of_mem _ hmem)]
    cases x with
    | limit l' value =>
      -- a limit behind the last one of its kind is of another kind
      have hne : l' ≠ l := by
        rintro rfl
        exact hlast value List.mem_cons_self
      cases l <;> cases l' <;> first | rfl | exact absurd rfl hne
    | _ => rfl

/-- Whenever `resource_apply_limits` succeeds the process is limited to what the
configuration says, and it says something. -/
def Limited (l : Limit) (config : ResourceConfig) : Prop :=
  l.get config ≠ 0 ∧ ∀ calls limits limits',
    resourceApplyLimits calls config limits = (limits', 0) →
    (limits' l).cur ≤ l.requested config

/-- A positive number given as a limit limits the process if and only if it is
no multiple of 2 ^ 32 or has more than 64 bits. -/
theorem limit_applied_iff {args rest : List Bytes} {f f' : LimitFlags} {pre post : List Flag}
    {l : Limit} {value : Bytes} (h : parseLimitFlags args f = some (f', rest))
    (hargs : args = flagWords (pre ++ .limit l value :: post) ++ rest)
    (hlast : ∀ value', .limit l value' ∉ post) (hne : value ≠ [])
    (hdigits : ∀ c ∈ value, isDigit 10 c = true) :
    Limited l f'.limits ↔ 2 ^ 64 ≤ readDigits 10 value ∨ ¬ 2 ^ 32 ∣ readDigits 10 value := by
  obtain ⟨-, -, hrest, -⟩ := parseLimitFlags_flags h
  rw [hargs, parseLimitFlags_words _ hrest, setFlags_append, setFlags_cons] at h
  obtain ⟨rfl, -⟩ := Prod.ext_iff.mp (Option.some.inj h)
  have hget : l.get (setFlags post ((Flag.limit l value).set (setFlags pre f))).limits =
      limitValue value := by
    rw [get_setFlags hlast]
    cases l <;> rfl
  rw [← limitValue_ne_zero hne hdigits, ← hget]
  constructor
  · exact fun hlimited => hlimited.1
  · exact fun hset => ⟨hset, fun calls limits limits' hok =>
      (resourceApplyLimits_spec hok l).2 hset⟩

/-- `--mem 256` with another `--mem` in front of it. -/
theorem limit_applied_mem :
    let words := ["--mem", "0", "--rm", "--mem", "256", "web"].map bytes
    ∃ f' rest, parseLimitFlags words .run = some (f', rest) ∧ Limited .mem f'.limits := by
  intro words
  have hparse : parseLimitFlags words .run =
      some (setFlags [.limit .mem (bytes "0"), .rm, .limit .mem (bytes "256")] .run,
        [bytes "web"]) := rfl
  have hdigits : ∀ c ∈ bytes "256", isDigit 10 c = true := List.all_eq_true.mp (by decide)
  refine ⟨_, _, hparse, ?_⟩
  refine (@limit_applied_iff _ _ _ _ [.limit .mem (bytes "0"), .rm] [] .mem (bytes "256") hparse
    rfl (fun value' h => by cases h) (by decide) hdigits).mpr (.inr ?_)
  decide

/-- `--mem 4294967296` is no limit. -/
theorem not_limit_applied :
    ¬ ∀ (args rest : List Bytes) (f f' : LimitFlags) (pre post : List Flag) (l : Limit)
        (value : Bytes),
      parseLimitFlags args f = some (f', rest) →
      args = flagWords (pre ++ .limit l value :: post) ++ rest →
      (∀ value', .limit l value' ∉ post) → value ≠ [] →
      (∀ c ∈ value, isDigit 10 c = true) → 0 < readDigits 10 value → Limited l f'.limits := by
  intro hclaim
  have hdigits : ∀ c ∈ bytes "4294967296", isDigit 10 c = true := List.all_eq_true.mp (by decide)
  have hlimited := hclaim (["--mem", "4294967296", "web"].map bytes) [bytes "web"] .run
    ((Flag.limit .mem (bytes "4294967296")).set .run) [] [] .mem (bytes "4294967296") rfl rfl
    (fun value' h => by cases h) (by decide) hdigits (by decide)
  refine hlimited.1 ?_
  decide +kernel

end ContainerSim.Cli
