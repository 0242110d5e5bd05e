import ContainerSim.Filesystem.Isolate
import ContainerSim.Security.Confinement

/-!
# The root of the host

A container whose isolation has fallen back to `chroot` still has the host's file
system at the top of its mount namespace. The filter lets `chroot` through, so
what keeps its processes below the root file system is that they do not get
`CAP_SYS_CHROOT`, which the default configuration keeps (`host_root_reached_iff`).
A command run by `exec` has the privileges of the manager, and is put where the
mount namespace begins (`exec_reaches_host_iff`).
-/

namespace ContainerSim.Security

open Lib Lib.Bpf ContainerSim.Runtime ContainerSim.Filesystem

def CAP_SYS_CHROOT : Nat := 18
def NR_chdir : UInt32 := 80
def NR_chroot : UInt32 := 161

/-- A process: its privileges and its directories. -/
structure Contained where
  creds : ProcessCreds
  jail : Jail Bytes

inductive ContainedAct where
  | priv (a : ProcessAct)
  | path (a : JailAct Bytes)

/-- The system call, as the filters see it. -/
def pathCall (a : JailAct Bytes) : SeccompData :=
  { nr := match a with
      | .chdir _ => NR_chdir
      | .chroot _ => NR_chroot
    arch := AUDIT_ARCH_X86_64, instructionPointer := 0, args := fun _ => 0 }

/-- One call, in the tree of its mount namespace. -/
def containedStep (dirs : List Bytes → Bool) (s : Contained) : ContainedAct → Option Contained
  | .priv a => (processStep s.creds a).map fun creds => { s with creds }
  | .path a =>
    if runFilters (pathCall a) s.creds.filters = some SECCOMP_RET_ALLOW then
      (jailStep (decide (CAP_SYS_CHROOT ∈ s.creds.effective)) dirs s.jail a).map fun jail =>
        { s with jail }
    else none

variable {cfg : SecurityConfig} {o : ConfineOutcome} {i : IsolateOutcome} {rootfs n : Bytes}
variable {cwd : List Bytes} {s₀ : ProcessCreds} {dirs : List Bytes → Bool}

/-! ## One process -/

/-- The filter says nothing about these calls. -/
theorem path_allowed (a : JailAct Bytes) {filters : List (List Insn)}
    (h : filters = [] ∨ filters = [filter]) :
    runFilters (pathCall a) filters = some SECCOMP_RET_ALLOW := by
  rcases h with rfl | rfl
  · rfl
  · have hpolicy : policy (pathCall a) = .allow := by
      cases a with
      | chdir path => rfl
      | chroot path => rfl
    have hresult := run_filter (pathCall a) 0
    rw [hpolicy] at hresult
    simp only [runFilters, List.foldlM_cons, List.foldlM_nil, lowerResult, hresult,
      Verdict.code, Option.map_some]
    rfl

/-- Calls about directories need nothing but the capability and the filters. -/
theorem runs_path {s : Contained} {as : List (JailAct Bytes)} {jail : Jail Bytes}
    (hfilters : s.creds.filters = [] ∨ s.creds.filters = [filter])
    (hchroot : CAP_SYS_CHROOT ∈ s.creds.effective)
    (hrun : Runs (jailStep true dirs) s.jail as jail) :
    Runs (containedStep dirs) s (as.map .path) { s with jail } := by
  induction hrun with
  | nil => exact .nil s
  | snoc _ _ hs ih =>
    rw [List.map_append]
    refine .snoc ih trivial ?_
    rw [containedStep, if_pos (path_allowed _ hfilters), decide_eq_true hchroot, hs]
    rfl

/-- A process that cannot get the capability stays where it is. -/
theorem sealed_stays {s s' : Contained} {as : List ContainedAct} {root : List Bytes}
    (hsealed : Sealed CAP_SYS_CHROOT s.creds) (hinside : s.jail.Inside root)
    (hrun : Runs (containedStep dirs) s as s') : s'.jail.Inside root := by
  have hboth : Sealed CAP_SYS_CHROOT s'.creds ∧ s'.jail.Inside root := by
    refine hrun.invariant
      (I := fun t => Sealed CAP_SYS_CHROOT t.creds ∧ t.jail.Inside root) ?_ ⟨hsealed, hinside⟩
    intro t a t' ht _ hs
    cases a with
    | priv a =>
      obtain ⟨creds, hcreds, rfl⟩ := Option.map_eq_some_iff.mp hs
      exact ⟨ht.1.step hcreds, ht.2⟩
    | path a =>
      obtain ⟨-, hs⟩ := Option.ite_none_right_eq_some.mp hs
      obtain ⟨jail, hjail, rfl⟩ := Option.map_eq_some_iff.mp hs
      rw [decide_eq_false ht.1.effective] at hjail
      exact ⟨ht.1, ht.2.step hjail⟩
  exact hboth.2

/-- A process that can get the capability reaches the top of its tree. -/
theorem reaches_top {s : Contained} {root : List Bytes}
    (hfilters : s.creds.filters = [] ∨ s.creds.filters = [filter])
    (hcap : CAP_SYS_CHROOT ∈ s.creds.permitted ∨ s.creds.noNewPrivs = false ∧
      (CAP_SYS_CHROOT ∈ s.creds.inheritable ∨ CAP_SYS_CHROOT ∈ s.creds.bounding))
    (hjail : s.jail = ⟨root, root⟩) (hdir : dirs (root ++ [n]) = true) :
    ∃ as creds, Runs (containedStep dirs) s as ⟨creds, ⟨[], []⟩⟩ := by
  obtain ⟨a, creds, hs, heff, hkeep⟩ : ∃ a creds, processStep s.creds a = some creds ∧
      CAP_SYS_CHROOT ∈ creds.effective ∧ creds.filters = s.creds.filters := by
    obtain ⟨a, creds, hs, -, heff, hkeep⟩ := exists_effective hcap
    exact ⟨a, creds, hs, heff, hkeep⟩
  have hstep : containedStep dirs s (.priv a) = some { s with creds } := by
    rw [containedStep, hs]
    rfl
  refine ⟨.priv a :: (breakOut root n).map .path, creds, .cons trivial hstep ?_⟩
  refine runs_path (s := { s with creds }) ?_ heff ?_
  · rw [hkeep]
    exact hfilters
  · rw [hjail]
    exact breakOut_runs hdir

/-! ## A container -/

/-- A container that has started: its isolation has returned 0, and its child, the
first process of a user namespace, has confined itself. -/
structure Enclosed (cfg : SecurityConfig) (o : ConfineOutcome) (i : IsolateOutcome)
    (rootfs : Bytes) (cwd : List Bytes) (s₀ : ProcessCreds) : Prop where
  confined : Confined cfg o
  real : RealPath rootfs
  below : namesOf rootfs ≠ []
  settled : i.Settled
  returned : (filesystemIsolateRootfs i (some rootfs) (.start cwd)).2 = none
  permitted : CAP_SYS_CHROOT ∈ s₀.permitted
  bounding : CAP_SYS_CHROOT ∈ s₀.bounding
  filters : s₀.filters = []

/-- Its view of the file system. -/
def containedView (i : IsolateOutcome) (rootfs : Bytes) (cwd : List Bytes) : View :=
  (filesystemIsolateRootfs i (some rootfs) (.start cwd)).1

/-- What its command starts with. -/
def containedStart (cfg : SecurityConfig) (o : ConfineOutcome) (i : IsolateOutcome)
    (rootfs : Bytes) (cwd : List Bytes) (s₀ : ProcessCreds) : Contained :=
  ⟨namespaceChildConfine cfg o s₀, (containedView i rootfs cwd).jail⟩

theorem Enclosed.view (h : Enclosed cfg o i rootfs cwd s₀) :
    containedView i rootfs cwd = isolated (i.Pivots rootfs cwd) rootfs :=
  isolate_view h.settled h.real h.returned

/-- **The container reaches the root of the host** in some run exactly when
`pivot_root` did not work and it has `CAP_SYS_CHROOT` or can get it back. -/
theorem host_root_reached_iff (h : Enclosed cfg o i rootfs cwd s₀)
    (hdir : dirs (namesOf rootfs ++ [n]) = true) :
    ((containedView i rootfs cwd).top = .host ∧ ∃ as creds, Runs (containedStep dirs)
        (containedStart cfg o i rootfs cwd s₀) as ⟨creds, ⟨[], []⟩⟩) ↔
      ¬ i.Pivots rootfs cwd ∧ (cfg.capKeep.toNat.testBit CAP_SYS_CHROOT = true ∨
        (s₀.noNewPrivs || o.noNewPrivs) = false ∧ o.caps.drop CAP_SYS_CHROOT = false) := by
  by_cases hpivots : i.Pivots rootfs cwd
  · simp [h.view, isolated, hpivots]
  · -- otherwise the host is at the top, and the container in a jail below it
    have hview : containedView i rootfs cwd =
        { top := .host, jail := ⟨namesOf rootfs, namesOf rootfs⟩, oldRoot := false } := by
      rw [h.view, isolated, if_neg hpivots]
    have hstart : containedStart cfg o i rootfs cwd s₀ =
        ⟨leftOver cfg o s₀, ⟨namesOf rootfs, namesOf rootfs⟩⟩ := by
      rw [containedStart, hview, h.confined.eq s₀]
    rw [hview, hstart]
    refine ⟨?_, ?_⟩
    · rintro ⟨-, as, creds, hrun⟩
      refine ⟨hpivots, ?_⟩
      by_contra hnot
      rw [not_or, Bool.not_eq_true, not_and_or, Bool.not_eq_false, Bool.not_eq_false] at hnot
      obtain ⟨hkeep, hshut⟩ := hnot
      -- without the capability and a way back to it nobody leaves the jail
      have hsealed : Sealed CAP_SYS_CHROOT (leftOver cfg o s₀) := by
        refine ⟨by simp [leftOver, hkeep], ?_, Finset.notMem_empty _,
          hshut.imp_right fun hdrop => ?_⟩
        · simp [leftOver, hkeep]
        · refine ⟨Finset.notMem_empty _, ?_⟩
          rw [Confined.bounding s₀ hkeep]
          rintro ⟨-, hlarge | hfails⟩
          · exact absurd hlarge (by decide)
          · rw [hdrop] at hfails
            cases hfails
      have hinside := sealed_stays hsealed ⟨rfl, List.prefix_refl _⟩ hrun
      exact h.below hinside.1.symm
    · rintro ⟨-, hcap⟩
      -- a second `chroot` below leaves the working directory outside
      refine ⟨rfl, reaches_top ?_ ?_ rfl hdir⟩
      · show s₀.filters ++ _ = [] ∨ s₀.filters ++ _ = [filter]
        rw [h.filters, List.nil_append]
        split
        · exact .inr rfl
        · exact .inl rfl
      · rcases hcap with hkeep | ⟨hbit, hdrop⟩
        · refine .inl (Finset.mem_filter.mpr ⟨h.permitted, hkeep⟩)
        · by_cases hkeep : cfg.capKeep.toNat.testBit CAP_SYS_CHROOT = true
          · exact .inl (Finset.mem_filter.mpr ⟨h.permitted, hkeep⟩)
          · rw [Bool.not_eq_true] at hkeep
            exact .inr ⟨hbit, .inr ((Confined.bounding s₀ hkeep).mpr ⟨h.bounding, .inr hdrop⟩)⟩

/-- The rootfs of the witnesses. -/
def alpineRootfs : Bytes := bytes "/srv/alpine"

/-- `pivot_root` answers with an error, everything else works. -/
def IsolateOutcome.refusing (pivotRoot : Option Nat) : IsolateOutcome :=
  { makePrivate := none
    pivot := { bind := none, mkdir := none, chdir := none, pivotRoot, chdirRoot := none,
               umount := none, rmdir := none }
    chroot := { chdir := none, chroot := none, chdirRoot := none }
    proc := none }

theorem enclosed_refusing :
    Enclosed securityConfigDefault (.clean true) (IsolateOutcome.refusing (some EINVAL))
      alpineRootfs [] fullCreds where
  confined := confined_default true
  real := by decide +kernel
  below := by decide +kernel
  settled := ⟨by decide, by decide, by decide⟩
  returned := by decide +kernel
  permitted := by decide
  bounding := by decide
  filters := rfl

/-- A default container whose `pivot_root` was refused. -/
theorem host_root_reached_default :
    (containedView (IsolateOutcome.refusing (some EINVAL)) alpineRootfs []).top = .host ∧
      ∃ as creds, Runs (containedStep fun _ => true)
        (containedStart securityConfigDefault (.clean true)
          (IsolateOutcome.refusing (some EINVAL)) alpineRootfs [] fullCreds) as
        ⟨creds, ⟨[], []⟩⟩ :=
  (host_root_reached_iff enclosed_refusing (n := bytes "bin") rfl).mpr
    ⟨by decide +kernel, .inl (by decide)⟩

/-! ## A command run by `exec` -/

/-- Answers for one `exec_enter_namespaces`. -/
structure ExecOutcome where
  openUts : Bool
  openNet : Bool
  openMnt : Bool
  setUts : Bool
  setNet : Bool
  setMnt : Bool
  /-- `chdir` to `/proc/<pid>/root` -/
  chdirRoot : Bool
  chroot : Bool

/-- Which namespaces of the container a process is in, and its directories. -/
structure ExecPlace where
  uts : Bool
  net : Bool
  mnt : Bool
  view : View

/-- `exec_enter_namespaces`, in a child of the manager. -/
def execEnterNamespaces (o : ExecOutcome) (container manager : View) : ExecPlace :=
  { uts := o.openUts && o.setUts
    net := o.openNet && o.setNet
    mnt := o.openMnt && o.setMnt
    view :=
      if !o.openMnt then manager
      -- `setns` goes to the top of the mount namespace
      else if o.setMnt then { container with jail := ⟨[], []⟩ }
      else if !o.chdirRoot then manager
      else if o.chroot then { container with jail := ⟨container.jail.root, container.jail.root⟩ }
      else { manager with jail := ⟨manager.jail.root, manager.jail.root⟩ } }

variable {e : ExecOutcome} {sm : ProcessCreds} {w : List Bytes}

/-- At the top already, up to the working directory. -/
theorem reaches_own_root {s : Contained} (hfilters : s.creds.filters = [])
    (hroot : s.jail.root = []) :
    ∃ as creds, Runs (containedStep dirs) s as ⟨creds, ⟨[], []⟩⟩ := by
  refine ⟨[.path (.chdir [.slash])], s.creds, .cons trivial ?_ (.nil _)⟩
  rw [containedStep, if_pos (path_allowed _ (.inl hfilters))]
  show some { s with jail := { s.jail with cwd := s.jail.root } } = _
  obtain ⟨creds, root, cwd⟩ := s
  cases hroot
  rfl

/-- **A command run by `exec` reaches the root of the host** with `chdir`, `chroot`,
`execve` and calls about capabilities, in some run, exactly unless `pivot_root` has
worked for the container and the command got into its root, through the mount
namespace or through `/proc`. It has the manager's privileges and no filter, so
`mount` may lead it further. -/
theorem exec_reaches_host_iff (h : Enclosed cfg o i rootfs cwd s₀)
    (hpermitted : CAP_SYS_CHROOT ∈ sm.permitted) (hfilters : sm.filters = [])
    (hdir : dirs (namesOf rootfs ++ [n]) = true) :
    ((execEnterNamespaces e (containedView i rootfs cwd) (.start w)).view.top = .host ∧
        ∃ as creds, Runs (containedStep dirs)
          ⟨sm, (execEnterNamespaces e (containedView i rootfs cwd) (.start w)).view.jail⟩ as
          ⟨creds, ⟨[], []⟩⟩) ↔
      ¬ (i.Pivots rootfs cwd ∧ e.openMnt = true ∧
        (e.setMnt = true ∨ e.chdirRoot = true ∧ e.chroot = true)) := by
  have hhost : ∀ v : View, v.top = .host → (v.jail.root = [] ∨
      v.jail = ⟨namesOf rootfs, namesOf rootfs⟩) → v.top = .host ∧
        ∃ as creds, Runs (containedStep dirs) ⟨sm, v.jail⟩ as ⟨creds, ⟨[], []⟩⟩ := by
    intro v htop hjail
    refine ⟨htop, ?_⟩
    rcases hjail with hroot | hjail
    · exact reaches_own_root hfilters hroot
    · exact reaches_top (.inl hfilters) (.inl hpermitted) hjail hdir
  have hrootfs : ∀ v : View, v.top = .rootfs → ¬ (v.top = .host ∧
      ∃ as creds, Runs (containedStep dirs) ⟨sm, v.jail⟩ as ⟨creds, ⟨[], []⟩⟩) := by
    rintro v htop ⟨htop', -⟩
    cases htop.symm.trans htop'
  rw [h.view]
  unfold execEnterNamespaces isolated
  simp only
  by_cases hpivots : i.Pivots rootfs cwd
  · -- the old root is gone: only a command outside that mount namespace is still on the host
    rw [if_pos hpivots]
    cases hopen : e.openMnt with
    | false => exact iff_of_true (hhost _ rfl (.inl rfl)) (by simp)
    | true =>
      cases hset : e.setMnt with
      | true => exact iff_of_false (hrootfs _ rfl) (by simp [hpivots])
      | false =>
        cases hchdir : e.chdirRoot with
        | false => exact iff_of_true (hhost _ rfl (.inl rfl)) (by simp)
        | true =>
          cases hchroot : e.chroot with
          | false => exact iff_of_true (hhost _ rfl (.inl rfl)) (by simp)
          | true => exact iff_of_false (hrootfs _ rfl) (by simp [hpivots])
  · -- the host's file system is at the top of the container's mount namespace too
    rw [if_neg hpivots]
    refine iff_of_true ?_ fun hin => hpivots hin.1
    cases hopen : e.openMnt with
    | false => exact hhost _ rfl (.inl rfl)
    | true =>
      cases hset : e.setMnt with
      | true => exact hhost _ rfl (.inl rfl)
      | false =>
        cases hchdir : e.chdirRoot with
        | false => exact hhost _ rfl (.inl rfl)
        | true =>
          cases hchroot : e.chroot with
          | false => exact hhost _ rfl (.inl rfl)
          | true => exact hhost _ rfl (.inr rfl)

/-- `exec` into the container of the first witness: `setns` works. -/
theorem exec_reaches_host_refused :
    let e : ExecOutcome :=
      { openUts := true, openNet := true, openMnt := true, setUts := true, setNet := true
        setMnt := true, chdirRoot := true, chroot := true }
    let v := containedView (IsolateOutcome.refusing (some EINVAL)) alpineRootfs []
    (execEnterNamespaces e v (.start [])).view.top = .host ∧
      ∃ as creds, Runs (containedStep fun _ => true)
        ⟨fullCreds, (execEnterNamespaces e v (.start [])).view.jail⟩ as ⟨creds, ⟨[], []⟩⟩ :=
  (exec_reaches_host_iff enclosed_refusing (by decide) rfl (n := bytes "bin") rfl).mpr
    fun h => absurd h.1 (by decide +kernel)

end ContainerSim.Security
