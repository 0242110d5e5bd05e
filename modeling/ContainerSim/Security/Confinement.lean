import ContainerSim.Lib.Privileges
import ContainerSim.Security.Seccomp
import Mathlib.Data.Nat.Bitwise

/-!
# A container stays confined

Before it executes the command, the child of `namespace_start_container` sets
`no_new_privs`, drops capabilities (`security_apply_caps`) and installs the
filter. None of the results is looked at. What follows is any run of system
calls: the blocked ones stay blocked (`blocked_stays_blocked`), and a dropped
capability comes back exactly when the bit could not be set and the capability
is still in the bounding set, which `security_apply_caps` cleans up to number 37
only (`dropped_returns_iff`). A process may make user namespaces of its own on the
way, which `clone3` lets it do under the filter too; it has every capability over
them, and none more over the one it was started in.
-/

namespace ContainerSim.Security

open Lib Lib.Bpf ContainerSim.Runtime

/-- Capabilities are numbers, filters programs. -/
abbrev ProcessCreds : Type := Creds Nat (List Insn)

abbrev ProcessAct : Type := PrivAct Nat (List Insn)

def CAP_SETPCAP : Nat := 8
def CAP_SYS_ADMIN : Nat := 21

abbrev processStep : ProcessCreds → ProcessAct → Option ProcessCreds :=
  privStep CAP_SETPCAP CAP_SYS_ADMIN

/-- The same with user namespaces. -/
abbrev ScopedProcess : Type := Scoped Nat (List Insn)

/-- The capabilities of the kernel, `CAP_CHECKPOINT_RESTORE` (40) the last. -/
def allCaps : Finset Nat := Finset.range 41

abbrev scopedProcessStep : ScopedProcess → ScopedAct Nat (List Insn) → Option ScopedProcess :=
  scopedStep CAP_SETPCAP CAP_SYS_ADMIN allCaps

/-! ## Before the command is executed -/

/-- Answers for one `security_apply_caps`. -/
structure CapsOutcome where
  /-- `prctl(PR_CAPBSET_DROP, cap)` -/
  drop : Nat → Bool
  capget : Bool
  capset : Bool

/-- The masks for `data[0]` and `data[1]`. -/
def capWords (keep : UInt64) : UInt32 × UInt32 :=
  ((keep &&& 0xFFFFFFFF).toUInt32, ((keep >>> 32) &&& 0xFFFFFFFF).toUInt32)

/-- The masks hold 32 capabilities each. -/
def inWords (w : UInt32 × UInt32) (cap : Nat) : Bool :=
  if cap < 32 then w.1.toNat.testBit cap else w.2.toNat.testBit (cap - 32)

/-- The loop over the bounding set. -/
def dropBounding (keep : UInt64) (drop : Nat → Bool) (s : ProcessCreds) : ProcessCreds :=
  (List.range 38).foldl (fun s cap =>
    if keep &&& (1 <<< UInt64.ofNat cap) = 0 ∧ drop cap then s.drop cap else s) s

/-- `security_apply_caps`. -/
def securityApplyCaps (cfg : Option SecurityConfig) (o : CapsOutcome) (s : ProcessCreds) :
    ProcessCreds × Int :=
  match cfg with
  | none => (s, 0)
  | some cfg =>
    if cfg.privileged ≠ 0 then (s, 0)
    else
      let s := dropBounding cfg.capKeep o.drop s
      if !o.capget then (s, -1)
      else
        let data := capWords cfg.capKeep
        let masked (caps : Finset Nat) : Finset Nat := caps.filter fun cap => inWords data cap
        if !o.capset then (s, -1)
        else (s.capset (masked s.permitted) (masked s.effective) ∅, 0)

/-- Answers to the child. -/
structure ConfineOutcome where
  noNewPrivs : Bool
  caps : CapsOutcome
  seccomp : Bool

/-- What `namespace_child` does to its own privileges. -/
def namespaceChildConfine (cfg : SecurityConfig) (o : ConfineOutcome) (s : ProcessCreds) :
    ProcessCreds :=
  let s := if o.noNewPrivs then { s with noNewPrivs := true } else s
  if cfg.privileged ≠ 0 then s
  else
    let (s, _) := securityApplyCaps (some cfg) o.caps s
    match securityApplySeccomp (some cfg) with
    | none => s
    | some prog => if o.seccomp then s.addFilter prog else s

/-! ## Masks -/

theorem capKeep_and_bit {keep : UInt64} {cap : Nat} (hcap : cap < 64) :
    keep &&& (1 <<< UInt64.ofNat cap) = 0 ↔ keep.toNat.testBit cap = false := by
  have hbit : ((1 : UInt64) <<< UInt64.ofNat cap).toNat = 2 ^ cap := by
    have hsize : cap < 2 ^ 64 := Nat.lt_of_lt_of_le hcap (by decide)
    have hpow : 2 ^ cap < 2 ^ 64 := Nat.pow_lt_pow_right (by decide) hcap
    rw [UInt64.toNat_shiftLeft, UInt64.toNat_ofNat', Nat.mod_eq_of_lt hsize, Nat.mod_eq_of_lt hcap,
      Nat.shiftLeft_eq]
    show 1 * 2 ^ cap % 2 ^ 64 = 2 ^ cap
    rw [Nat.one_mul, Nat.mod_eq_of_lt hpow]
  rw [← UInt64.toNat_inj, UInt64.toNat_and, hbit, Nat.and_two_pow]
  show (keep.toNat.testBit cap).toNat * 2 ^ cap = 0 ↔ _
  cases keep.toNat.testBit cap with
  | true => simp
  | false => simp

theorem inWords_capWords (keep : UInt64) (cap : Nat) :
    inWords (capWords keep) cap = keep.toNat.testBit cap := by
  have hmask : (0xFFFFFFFF : UInt64).toNat = 2 ^ 32 - 1 := rfl
  have hkeep : keep.toNat < 2 ^ 64 := keep.toNat_lt
  unfold inWords capWords
  split
  · rename_i hlow
    rw [UInt64.toNat_toUInt32, UInt64.toNat_and, hmask, Nat.and_two_pow_sub_one_eq_mod,
      Nat.mod_mod, Nat.testBit_mod_two_pow, decide_eq_true hlow, Bool.true_and]
  · rename_i hhigh
    have hshift : (32 : UInt64).toNat % 64 = 32 := rfl
    have hcap : 32 + (cap - 32) = cap := by omega
    rw [UInt64.toNat_toUInt32, UInt64.toNat_and, hmask, Nat.and_two_pow_sub_one_eq_mod,
      Nat.mod_mod, UInt64.toNat_shiftRight, hshift, Nat.testBit_mod_two_pow,
      Nat.testBit_shiftRight, hcap]
    by_cases hbig : cap - 32 < 32
    · rw [decide_eq_true hbig, Bool.true_and]
    · -- no mask has a bit as high
      have hpow : 2 ^ 64 ≤ 2 ^ cap := Nat.pow_le_pow_right (by decide) (by omega)
      rw [decide_eq_false hbig, Nat.testBit_lt_two_pow (Nat.lt_of_lt_of_le hkeep hpow)]
      rfl

/-! ## What the child has left -/

/-- The bounding set after the loop. -/
theorem mem_dropBounding {keep : UInt64} {drop : Nat → Bool} {s : ProcessCreds} {c : Nat} :
    c ∈ (dropBounding keep drop s).bounding ↔
      c ∈ s.bounding ∧ ¬ (c < 38 ∧ keep.toNat.testBit c = false ∧ drop c = true) := by
  unfold dropBounding
  -- the invariant of the loop: below n everything outside the mask is gone
  have hall : ∀ n ≤ 38, c ∈ ((List.range n).foldl (fun s cap =>
      if keep &&& (1 <<< UInt64.ofNat cap) = 0 ∧ drop cap then s.drop cap else s) s).bounding ↔
        c ∈ s.bounding ∧ ¬ (c < n ∧ keep.toNat.testBit c = false ∧ drop c = true) := by
    intro n hn
    induction n with
    | zero => simp
    | succ n ih =>
      have hbit : keep &&& (1 <<< UInt64.ofNat n) = 0 ↔ keep.toNat.testBit n = false :=
        capKeep_and_bit (by omega)
      have ih := ih (by omega)
      rw [List.range_succ, List.foldl_append, List.foldl_cons, List.foldl_nil]
      split
      · rename_i hdrop
        rw [hbit] at hdrop
        rw [Creds.drop, Finset.mem_erase, ih]
        constructor
        · rintro ⟨hne, hc, hkeep⟩
          exact ⟨hc, fun ⟨hlt, hrest⟩ => hkeep ⟨by omega, hrest⟩⟩
        · rintro ⟨hc, hkeep⟩
          refine ⟨?_, hc, fun ⟨hlt, hrest⟩ => hkeep ⟨by omega, hrest⟩⟩
          -- n itself goes in this round
          rintro rfl
          exact hkeep ⟨Nat.lt_succ_self c, hdrop⟩
      · rename_i hdrop
        rw [hbit] at hdrop
        rw [ih]
        refine and_congr_right fun _ => not_congr ⟨fun ⟨hlt, hrest⟩ => ⟨by omega, hrest⟩, ?_⟩
        rintro ⟨hlt, hrest⟩
        refine ⟨?_, hrest⟩
        have hne : c ≠ n := by
          rintro rfl
          exact hdrop hrest
        omega
  exact hall 38 (Nat.le_refl 38)

/-- The loop touches nothing else. -/
theorem dropBounding_eq (keep : UInt64) (drop : Nat → Bool) (s : ProcessCreds) :
    dropBounding keep drop s = { s with bounding := (dropBounding keep drop s).bounding } := by
  unfold dropBounding
  generalize List.range 38 = caps
  induction caps generalizing s with
  | nil => rfl
  | cons cap caps ih =>
    rw [List.foldl_cons, ih]
    split
    · rfl
    · rfl

theorem securityApplyCaps_filters (cfg : Option SecurityConfig) (o : CapsOutcome)
    (s : ProcessCreds) : (securityApplyCaps cfg o s).1.filters = s.filters := by
  unfold securityApplyCaps
  cases cfg with
  | none => rfl
  | some cfg =>
    simp only
    split
    · rfl
    rw [dropBounding_eq]
    split
    · rfl
    split
    · rfl
    · rfl

/-- The filters of an unprivileged container, whether its other calls work or not. -/
theorem namespaceChildConfine_filters {cfg : SecurityConfig} (h : cfg.privileged = 0)
    (o : ConfineOutcome) (s : ProcessCreds) :
    (namespaceChildConfine cfg o s).filters =
      s.filters ++ if o.seccomp then (securityApplySeccomp (some cfg)).toList else [] := by
  have hbit : (if o.noNewPrivs then { s with noNewPrivs := true } else s).filters = s.filters := by
    split
    · rfl
    · rfl
  unfold namespaceChildConfine
  simp only [h, ne_eq, not_true_eq_false, if_false]
  cases securityApplySeccomp (some cfg) with
  | none =>
    simp only [Option.toList_none, ite_self, List.append_nil]
    rw [securityApplyCaps_filters, hbit]
  | some prog =>
    simp only [Option.toList_some]
    split
    · show (securityApplyCaps _ _ _).1.filters ++ [prog] = _
      rw [securityApplyCaps_filters, hbit]
    · rw [securityApplyCaps_filters, hbit, List.append_nil]

/-- The child of an unprivileged container whose calls work, all but the two that
decide about a comeback. -/
structure Confined (cfg : SecurityConfig) (o : ConfineOutcome) : Prop where
  unprivileged : cfg.privileged = 0
  capget : o.caps.capget = true
  capset : o.caps.capset = true

variable {cfg : SecurityConfig} {o : ConfineOutcome} {s₀ s : ProcessCreds}

/-- The privileges left to the child. -/
def leftOver (cfg : SecurityConfig) (o : ConfineOutcome) (s₀ : ProcessCreds) : ProcessCreds :=
  { permitted := s₀.permitted.filter fun cap => cfg.capKeep.toNat.testBit cap
    effective := s₀.effective.filter fun cap => cfg.capKeep.toNat.testBit cap
    inheritable := ∅
    bounding := (dropBounding cfg.capKeep o.caps.drop s₀).bounding
    ambient := ∅
    noNewPrivs := s₀.noNewPrivs || o.noNewPrivs
    filters := s₀.filters ++ if cfg.seccompEnabled ≠ 0 ∧ o.seccomp then [filter] else [] }

theorem Confined.eq (h : Confined cfg o) (s₀ : ProcessCreds) :
    namespaceChildConfine cfg o s₀ = leftOver cfg o s₀ := by
  have hbit : (if o.noNewPrivs then { s₀ with noNewPrivs := true } else s₀) =
      { s₀ with noNewPrivs := s₀.noNewPrivs || o.noNewPrivs } := by
    cases o.noNewPrivs with
    | true => rw [if_pos rfl, Bool.or_true]
    | false => rw [if_neg Bool.false_ne_true, Bool.or_false]
  have hbounding : (dropBounding cfg.capKeep o.caps.drop
      { s₀ with noNewPrivs := s₀.noNewPrivs || o.noNewPrivs }).bounding =
        (dropBounding cfg.capKeep o.caps.drop s₀).bounding := by
    ext cap
    rw [mem_dropBounding, mem_dropBounding]
  have hcaps : (securityApplyCaps (some cfg) o.caps
      { s₀ with noNewPrivs := s₀.noNewPrivs || o.noNewPrivs }).1 =
        { leftOver cfg o s₀ with filters := s₀.filters } := by
    unfold securityApplyCaps
    simp only [h.unprivileged, h.capget, h.capset, ne_eq, not_true_eq_false, if_false,
      Bool.not_true, Bool.false_eq_true]
    rw [dropBounding_eq, hbounding]
    simp only [Creds.capset, leftOver, inWords_capWords, Finset.inter_empty]
  unfold namespaceChildConfine
  simp only [hbit, h.unprivileged, ne_eq, not_true_eq_false, if_false, hcaps, leftOver,
    securityApplySeccomp, false_or]
  by_cases hoff : cfg.seccompEnabled = 0
  · simp only [hoff, if_true, not_true_eq_false, false_and, if_false, List.append_nil]
  · simp only [hoff, if_false, not_false_eq_true, true_and]
    cases o.seccomp with
    | true => rfl
    | false => simp only [Bool.false_eq_true, if_false, List.append_nil]

/-- What decides whether a capability can come back. -/
theorem Confined.bounding (s₀ : ProcessCreds) {c : Nat}
    (hkeep : cfg.capKeep.toNat.testBit c = false) :
    c ∈ (leftOver cfg o s₀).bounding ↔
      c ∈ s₀.bounding ∧ (37 < c ∨ o.caps.drop c = false) := by
  show c ∈ (dropBounding cfg.capKeep o.caps.drop s₀).bounding ↔ _
  rw [mem_dropBounding]
  refine and_congr_right fun _ => ?_
  rw [not_and_or, not_and_or, Bool.not_eq_true, Nat.not_lt]
  simp [hkeep, Nat.succ_le_iff]

/-! ## Whatever the container does -/

/-- **A dropped capability comes back** over the user namespace the container was
started in, in some run of it, exactly when `no_new_privs` could not be set and the
capability is still in the bounding set: its number is above 37, or it could not be
taken out. -/
theorem dropped_returns_iff (h : Confined cfg o) (s₀ : ProcessCreds) {c : Nat}
    (hkeep : cfg.capKeep.toNat.testBit c = false) :
    (∃ as s, Runs scopedProcessStep ⟨false, namespaceChildConfine cfg o s₀⟩ as s ∧ s.Holds c) ↔
      (s₀.noNewPrivs || o.noNewPrivs) = false ∧ c ∈ s₀.bounding ∧
        (37 < c ∨ o.caps.drop c = false) := by
  rw [h.eq s₀]
  have hpermitted : c ∉ (leftOver cfg o s₀).permitted := by
    simp [leftOver, hkeep]
  have heffective : c ∉ (leftOver cfg o s₀).effective := by
    simp [leftOver, hkeep]
  have hambient : c ∉ (leftOver cfg o s₀).ambient := Finset.notMem_empty c
  rw [scoped_regains_iff allCaps hpermitted heffective hambient, Confined.bounding s₀ hkeep]
  refine and_congr_right fun _ => or_iff_right ?_
  exact Finset.notMem_empty c

/-- All the capabilities there are, with none of the sets cut down yet. -/
def fullCreds : ProcessCreds :=
  { permitted := Finset.range 41, effective := Finset.range 41, inheritable := ∅
    bounding := Finset.range 41, ambient := ∅, noNewPrivs := false, filters := [] }

/-- Every call works, but for `no_new_privs` where it is said to fail. -/
def ConfineOutcome.clean (noNewPrivs : Bool) : ConfineOutcome :=
  { noNewPrivs, caps := { drop := fun _ => true, capget := true, capset := true }, seccomp := true }

theorem confined_default (noNewPrivs : Bool) :
    Confined securityConfigDefault (.clean noNewPrivs) := ⟨rfl, rfl, rfl⟩

/-- Number 38 is dropped from the permitted set and stays in the bounding set. -/
theorem dropped_returns_perfmon :
    ∃ as s, Runs scopedProcessStep
      ⟨false, namespaceChildConfine securityConfigDefault (.clean false) fullCreds⟩ as s ∧
      s.Holds 38 :=
  (dropped_returns_iff (confined_default false) fullCreds (c := 38) (by decide)).mpr
    ⟨rfl, Finset.mem_range.mpr (by decide), .inl (by decide)⟩

/-! ## System calls under filters -/

/-- The action of a filter's result, as the kernel compares them. -/
def actionOnly (k : UInt32) : Int := (k &&& 0xFFFF0000).toInt32.toInt

/-- The next filter's result replaces one with a higher action. -/
def lowerResult (d : SeccompData) (ret : UInt32) (prog : List Insn) : Option UInt32 :=
  (Bpf.run d.load prog 0).map fun cur => if actionOnly cur < actionOnly ret then cur else ret

/-- The result of all filters on a system call. -/
def runFilters (d : SeccompData) (filters : List (List Insn)) : Option UInt32 :=
  filters.foldlM (lowerResult d) SECCOMP_RET_ALLOW

theorem lowerResult_le {d : SeccompData} {ret k : UInt32} {prog : List Insn}
    (h : lowerResult d ret prog = some k) :
    actionOnly k ≤ actionOnly ret ∧ ∀ cur, Bpf.run d.load prog 0 = some cur →
      actionOnly k ≤ actionOnly cur := by
  obtain ⟨cur, hcur, rfl⟩ := Option.map_eq_some_iff.mp h
  refine ⟨?_, fun cur' hcur' => ?_⟩
  · split
    · omega
    · exact Int.le_refl _
  · obtain rfl := Option.some.inj (hcur.symm.trans hcur')
    split
    · exact Int.le_refl _
    · omega

/-- No filter says less than the result. -/
theorem foldlM_lowerResult_le {d : SeccompData} {ret k : UInt32} {filters : List (List Insn)}
    (h : filters.foldlM (lowerResult d) ret = some k) :
    actionOnly k ≤ actionOnly ret ∧ ∀ prog ∈ filters, ∀ cur, Bpf.run d.load prog 0 = some cur →
      actionOnly k ≤ actionOnly cur := by
  induction filters generalizing ret with
  | nil =>
    cases h
    exact ⟨Int.le_refl _, fun _ hmem => absurd hmem List.not_mem_nil⟩
  | cons prog filters ih =>
    rw [List.foldlM_cons] at h
    obtain ⟨next, hnext, hrest⟩ := Option.bind_eq_some_iff.mp h
    obtain ⟨hle, hall⟩ := lowerResult_le hnext
    obtain ⟨hle', hall'⟩ := ih hrest
    refine ⟨Int.le_trans hle' hle, fun prog' hmem cur hcur => ?_⟩
    rcases List.mem_cons.mp hmem with rfl | hmem
    · exact Int.le_trans hle' (hall cur hcur)
    · exact hall' prog' hmem cur hcur

/-- **What the policy refuses stays refused**: in every state the container gets
to, in whatever user namespace and with whatever further filters, a system call that
the policy does not allow is not allowed, and no weaker action is taken than the
policy's. -/
theorem blocked_stays_blocked (hcfg : cfg.privileged = 0 ∧ cfg.seccompEnabled ≠ 0)
    (hinstalled : o.seccomp = true) {as : List (ScopedAct Nat (List Insn))} {s : ScopedProcess}
    (hrun : Runs scopedProcessStep ⟨false, namespaceChildConfine cfg o s₀⟩ as s)
    {d : SeccompData} {k : UInt32}
    (hpolicy : policy d ≠ .allow) (hk : runFilters d s.creds.filters = some k) :
    k ≠ SECCOMP_RET_ALLOW ∧ actionOnly k ≤ actionOnly (policy d).code := by
  obtain ⟨prog, hprog⟩ : ∃ prog, securityApplySeccomp (some cfg) = some prog :=
    ⟨filter, by simp [securityApplySeccomp, hcfg.1, hcfg.2]⟩
  have hmem : prog ∈ s.creds.filters := by
    refine filters_run hrun prog ?_
    show prog ∈ (namespaceChildConfine cfg o s₀).filters
    rw [namespaceChildConfine_filters hcfg.1, if_pos hinstalled, hprog]
    exact List.mem_append_right _ (List.mem_singleton_self prog)
  -- the program that was installed computes the policy
  have hcode := returns_iff_run.mp (securityApplySeccomp_policy d 0 hprog)
  have hle := (foldlM_lowerResult_le hk).2 prog hmem (policy d).code hcode
  refine ⟨?_, hle⟩
  rintro rfl
  cases hd : policy d with
  | killProcess =>
    rw [hd] at hle
    exact absurd hle (by decide +kernel)
  | eperm =>
    rw [hd] at hle
    exact absurd hle (by decide +kernel)
  | allow => exact hpolicy hd

/-- `ptrace` from a shell the container executes. -/
def ptraceCall : SeccompData :=
  { nr := 101, arch := AUDIT_ARCH_X86_64, instructionPointer := 0, args := fun _ => 0 }

theorem blocked_stays_blocked_ptrace :
    policy ptraceCall ≠ .allow ∧ retEperm ≠ SECCOMP_RET_ALLOW ∧
      actionOnly retEperm ≤ actionOnly (policy ptraceCall).code := by
  have hpolicy : policy ptraceCall ≠ .allow := by decide
  have hrun : Runs scopedProcessStep
      ⟨false, namespaceChildConfine securityConfigDefault (.clean true) fullCreds⟩ []
      ⟨false, namespaceChildConfine securityConfigDefault (.clean true) fullCreds⟩ := .nil _
  have hresult : runFilters ptraceCall (namespaceChildConfine securityConfigDefault
      (.clean true) fullCreds).filters = some retEperm := by
    rw [(confined_default true).eq fullCreds]
    decide +kernel
  exact ⟨hpolicy, blocked_stays_blocked (by decide) rfl hrun hpolicy hresult⟩

end ContainerSim.Security
