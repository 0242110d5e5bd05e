import ContainerSim.Orch.Calls

/-!
# The profile of orchestrated containers

The three places of the orchestrator that start a container clear the whole
`ContainerSpec` and never set its `security`, and `container_create` takes what
the request carries. So no container of a service ever gets the profile that
the command line asks for.
-/

namespace ContainerSim.Orch

open Lib ContainerSim.Runtime

/-- The request that `run`, `runbg` and `create` send when none of their flags
is a security flag. -/
def cliSpec (name hostname rootfs commandLine : Option Bytes) (limits : ResourceConfig)
    (portMaps : List PortMapping) : ContainerSpec :=
  { ContainerSpec.zero with
    name, hostname, rootfs, commandLine, resourceLimits := limits, portMaps
    security := securityConfigDefault }

/-- The container has the profile of a container made by the command line
without security flags. -/
def HasCliProfile (c : Container) : Prop :=
  ∀ name hostname rootfs commandLine limits portMaps o ptr seq,
    c.security =
      (newContainer o (cliSpec name hostname rootfs commandLine limits portMaps) ptr seq).1.security

theorem hasCliProfile_iff (c : Container) : HasCliProfile c ↔ c.security = securityConfigDefault := by
  constructor
  · intro h
    exact h none none none none ⟨0, 0, 0⟩ [] .clean 0 0
  · intro h name hostname rootfs commandLine limits portMaps o ptr seq
    exact h

/-- The containers made for services so far have no profile at all. -/
structure Unprofiled (s : Sys) : Prop where
  wf : Wf s.mgr
  lt : ∀ x ∈ s.log.owned, x.ptr < s.mgr.heap
  zero : ∀ x ∈ s.log.owned, ∀ c ∈ s.mgr.list, c.ptr = x.ptr → c.security = .zero

theorem Unprofiled.step {s s' : Sys} {a : Action} (h : Unprofiled s)
    (hs : sysStep s a = some s') : Unprofiled s' := by
  refine ⟨wf_step h.wf hs, owned_lt_step h.wf hs h.lt, fun x hx c' hc' hp => ?_⟩
  rcases mem_sysStep h.wf hs hc' with ⟨c, hc, hsame⟩ | ⟨o, job, -, hk⟩ | ⟨op, spec, rfl, -, hk⟩
  · rw [hsame.security]
    rcases (owned_sysStep h.wf hs).2 x hx with hx | ⟨o, job, -, rfl⟩
    · exact h.zero x hx c hc (hsame.ptr.symm.trans hp)
    · -- an old record does not have the new address
      exact absurd (hsame.ptr.symm.trans hp) (Nat.ne_of_lt (h.wf.heap c hc))
  · exact congrArg Ident.security hk
  · -- nor does a record that somebody else has just made
    obtain ⟨m', -, rfl⟩ := Option.map_eq_some_iff.mp hs
    have hptr : c'.ptr = s.mgr.heap := congrArg Ident.ptr hk
    exact absurd (hp.symm.trans hptr) (Nat.ne_of_lt (h.lt x hx))

/-- **No orchestrated container gets the hardened default profile**: whatever
happens in a run, every container that `orch_run`, `orch_restart_service` or
the monitor made has seccomp off and an empty keep set. -/
theorem orchestrated_never_hardened {m : Manager} (hwf : Wf m) {as : List Action} {s : Sys}
    (hrun : Runs sysStep (Sys.init m) as s) :
    ∀ x ∈ s.log.owned, ∀ c ∈ s.mgr.list, c.ptr = x.ptr →
      c.security = .zero ∧ ¬ HasCliProfile c := by
  have hinv : Unprofiled s :=
    hrun.invariant (fun _ _ _ h _ hs => h.step hs) ⟨hwf, nofun, nofun⟩
  intro x hx c hc hp
  have hzero := hinv.zero x hx c hc hp
  refine ⟨hzero, fun hcli => ?_⟩
  rw [hasCliProfile_iff, hzero] at hcli
  exact absurd hcli (by decide)

/-- After `orch_run` both containers of `webSpec` run unconfined. -/
theorem orchestrated_never_hardened_web :
    ∃ s, Runs sysStep (Sys.init .init) webUp s ∧
      s.log.owned = [⟨1, 1, 0⟩, ⟨1, 0, 1⟩] ∧ s.mgr.list.map Container.ptr = [0, 1] ∧
      ∀ x ∈ s.log.owned, ∀ c ∈ s.mgr.list, c.ptr = x.ptr → ¬ HasCliProfile c := by
  obtain ⟨s, hrun, hown, hlist⟩ := exists_runOk_of_exec sysStep (fun _ _ => True) (Sys.init .init)
    webUp
    (fun s => s.log.owned = [⟨1, 1, 0⟩, ⟨1, 0, 1⟩] ∧ s.mgr.list.map Container.ptr = [0, 1])
    (by decide +kernel)
  exact ⟨s, hrun, hown, hlist, fun x hx c hc hp =>
    (orchestrated_never_hardened wf_init hrun x hx c hc hp).2⟩

/-- The container of `db` after `orch_run`: RUNNING, without the profile the
command line would have given it. -/
theorem orchestrated_db_unconfined :
    ∃ s, Runs sysStep (Sys.init .init) webUp s ∧ ∃ c ∈ s.mgr.list,
      (⟨1, 1, c.ptr⟩ : Owned) ∈ s.log.owned ∧ c.name = bytes "db" ∧ c.state = .running ∧
      c.security.seccompEnabled = 0 ∧ c.security.capKeep = 0 ∧ ¬ HasCliProfile c := by
  obtain ⟨s, hrun, c, hc, hown, hname, hstate, hsec, hcap⟩ :=
    exists_runOk_of_exec sysStep (fun _ _ => True) (Sys.init .init) webUp
      (fun s => ∃ c ∈ s.mgr.list, (⟨1, 1, c.ptr⟩ : Owned) ∈ s.log.owned ∧ c.name = bytes "db" ∧
        c.state = .running ∧ c.security.seccompEnabled = 0 ∧ c.security.capKeep = 0)
      (by decide +kernel)
  refine ⟨s, hrun, c, hc, hown, hname, hstate, hsec, hcap, fun hcli => ?_⟩
  rw [hasCliProfile_iff] at hcli
  rw [hcli] at hsec
  exact absurd hsec (by decide)

end ContainerSim.Orch
