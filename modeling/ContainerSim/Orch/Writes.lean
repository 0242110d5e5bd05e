import ContainerSim.Orch.Calls
import ContainerSim.Orch.Shutdown

/-!
# Who writes a service

Every change to a service record in `g_spec` is one of eight writes, each made
in one place of the program. `writeOf` reads off a step which write it makes,
if any; `sysStep_spec` says that nothing else happens to the spec, apart from
an `orch_run` that replaces it. Facts about service fields over whole runs are
then case analyses over `Write`.
-/

namespace ContainerSim.Orch

open Lib ContainerSim.Runtime

inductive Write where
  /-- `orch_run`, before and after the start -/
  | starting
  | started (new : Bytes) (now : Int)
  /-- a start or restart that failed -/
  | failed
  /-- `orch_restart_service`, first section -/
  | restarting
  /-- a restart that is complete, automatic or manual -/
  | restarted (new : Bytes) (now : Int)
  /-- collection pass -/
  | collected (now : Int) (i : Nat) (cst : ContainerState) (ec : Int)
  /-- health result -/
  | health (hc : Int)
  /-- `orch_down` -/
  | cleared
  deriving DecidableEq

def Write.apply : Write → Service → Service
  | .starting => startingSvc
  | .started new now => startedSvc new now
  | .failed => failedSvc
  | .restarting => restartingSvc
  | .restarted new now => Orch.restarted new now
  | .collected now i cst ec => fun svc => (collectSvc now i svc cst ec).1
  | .health hc => applyHealth hc
  | .cleared => clearedSvc

/-- The write of one step of the command line. -/
def cliWrite (o : Answers) : CliPc → Option (Nat × Write)
  | .runNext (i :: _) => some (i, .starting)
  | .runStore i none _ => some (i, .failed)
  | .runStore i (some id) _ => some (i, .started id o.now)
  | .rstStore i _ none => some (i, .failed)
  | .rstStore i _ (some id) => some (i, .restarted id o.now)
  | .downDelete i _ => some (i, .cleared)
  | _ => none

/-- The write of one round of the collection pass. -/
def collectWrite (o : Answers) (now : Int) (i : Nat) (s : Sys) : Option (Nat × Write) :=
  if skipped (s.svc i) then none
  else (containerGetInfo o.poll (s.svc i).containerId s.mgr).2.map fun r =>
    (i, .collected now i r.1 r.2)

/-- The write of one step of the monitor. -/
def monWrite (o : Answers) (s : Sys) : Option (Nat × Write) :=
  match s.mon with
  | .collect now i work =>
    if i < s.spec.count ∧ work.length < maxServices then collectWrite o now i s else none
  | .hcApply svc cid _ _ hc _ =>
    if s.running ∧ (s.svc svc).containerId = cid then some (svc, .health hc) else none
  | .commit job _ _ _ new _ =>
    if s.running then some (job.svc, (new.map fun id => .restarted id o.now).getD .failed) else none
  | _ => none

/-- The write a step makes. -/
def writeOf (s : Sys) : Action → Option (Nat × Write)
  | .restart name => if s.running then (findSvc s.spec name).map fun i => (i, .restarting) else none
  | .cli o => cliWrite o s.cli
  | .mon o => monWrite o s
  | _ => none

/-- Which step makes which write. -/
inductive WriteMove (s : Sys) : Action → Nat → Write → Prop where
  | restarting {name : Bytes} {i : Nat} (hfind : findSvc s.spec name = some i) :
      WriteMove s (.restart name) i .restarting
  | starting {o : Answers} {i : Nat} {todo : List Nat} (hcli : s.cli = .runNext (i :: todo)) :
      WriteMove s (.cli o) i .starting
  | runFailed {o : Answers} {i : Nat} {todo : List Nat} (hcli : s.cli = .runStore i none todo) :
      WriteMove s (.cli o) i .failed
  | started {o : Answers} {i : Nat} {id : Bytes} {todo : List Nat}
      (hcli : s.cli = .runStore i (some id) todo) : WriteMove s (.cli o) i (.started id o.now)
  | rstFailed {o : Answers} {i : Nat} {old : Bytes} (hcli : s.cli = .rstStore i old none) :
      WriteMove s (.cli o) i .failed
  | restarted {o : Answers} {i : Nat} {old id : Bytes}
      (hcli : s.cli = .rstStore i old (some id)) : WriteMove s (.cli o) i (.restarted id o.now)
  | cleared {o : Answers} {i : Nat} {todo : List Nat} (hcli : s.cli = .downDelete i todo) :
      WriteMove s (.cli o) i .cleared
  | collected {o : Answers} {now : Int} {i : Nat} {work : List WorkItem} {cst : ContainerState}
      {ec : Int} (hmon : s.mon = .collect now i work) :
      WriteMove s (.mon o) i (.collected now i cst ec)
  | health {o : Answers} {svc : Nat} {cid hcmd name : Bytes} {hc : Int} {rest : List WorkItem}
      (hmon : s.mon = .hcApply svc cid hcmd name hc rest) : WriteMove s (.mon o) svc (.health hc)
  | commit {o : Answers} {job : Job} {cid id : Bytes} {backoffS ec : Int} {rest : List WorkItem}
      (hmon : s.mon = .commit job cid backoffS ec (some id) rest) :
      WriteMove s (.mon o) job.svc (.restarted id o.now)
  | monFailed {o : Answers} {job : Job} {cid : Bytes} {backoffS ec : Int} {rest : List WorkItem}
      (hmon : s.mon = .commit job cid backoffS ec none rest) :
      WriteMove s (.mon o) job.svc .failed

theorem cliWrite_move {o : Answers} {s : Sys} {i : Nat} {w : Write}
    (hw : cliWrite o s.cli = some (i, w)) : WriteMove s (.cli o) i w := by
  cases hcli : s.cli with
  | runNext todo =>
    rw [hcli] at hw
    cases todo with
    | nil => cases hw
    | cons j todo => cases hw; exact .starting hcli
  | runStore j new todo =>
    rw [hcli] at hw
    cases new with
    | none => cases hw; exact .runFailed hcli
    | some id => cases hw; exact .started hcli
  | rstStore j old new =>
    rw [hcli] at hw
    cases new with
    | none => cases hw; exact .rstFailed hcli
    | some id => cases hw; exact .restarted hcli
  | downDelete j todo => rw [hcli] at hw; cases hw; exact .cleared hcli
  | _ => rw [hcli] at hw; cases hw

theorem monWrite_move {o : Answers} {s : Sys} {i : Nat} {w : Write}
    (hw : monWrite o s = some (i, w)) : WriteMove s (.mon o) i w := by
  unfold monWrite at hw
  cases hmon : s.mon with
  | collect now k work =>
    rw [hmon] at hw
    simp only [collectWrite] at hw
    split at hw
    · split at hw
      · cases hw
      · obtain ⟨r, -, hr⟩ := Option.map_eq_some_iff.mp hw
        cases hr
        exact .collected hmon
    · cases hw
  | hcApply svc cid hcmd name hc rest =>
    rw [hmon] at hw
    simp only at hw
    split at hw
    · cases hw
      exact .health hmon
    · cases hw
  | commit job cid backoffS ec new rest =>
    rw [hmon] at hw
    simp only at hw
    split at hw
    · cases new with
      | none => cases hw; exact .monFailed hmon
      | some id => cases hw; exact .commit hmon
    · cases hw
  | _ => rw [hmon] at hw; cases hw

theorem writeOf_move {s : Sys} {a : Action} {i : Nat} {w : Write}
    (hw : writeOf s a = some (i, w)) : WriteMove s a i w := by
  cases a with
  | restart name =>
    simp only [writeOf] at hw
    split at hw
    · obtain ⟨k, hfind, hk⟩ := Option.map_eq_some_iff.mp hw
      cases hk
      exact .restarting hfind
    · cases hw
  | cli o => exact cliWrite_move hw
  | mon o => exact monWrite_move hw
  | _ => cases hw

/-- The spec after a write. -/
def Sys.written (s : Sys) : Option (Nat × Write) → OrchestratorSpec
  | none => s.spec
  | some (i, w) => (s.setSvc i w.apply).spec

theorem Write.dynamic (w : Write) : Dynamic w.apply := by
  cases w with
  | starting => exact fun _ => rfl
  | started new now => exact fun _ => rfl
  | failed => exact fun _ => rfl
  | restarting => exact fun _ => rfl
  | restarted new now => exact restarted_dynamic new now
  | collected now i cst ec => exact collectSvc_dynamic now i cst ec
  | health hc => exact applyHealth_dynamic hc
  | cleared => exact fun _ => rfl

theorem static_written (s : Sys) (w : Option (Nat × Write)) :
    (s.written w).static = s.spec.static := by
  cases w with
  | none => rfl
  | some w => exact static_setSvc s w.1 w.2.dynamic

theorem cliStep_spec {o : Answers} {s s' : Sys} (hs : cliStep o s = some s') :
    s'.log.gen = s.log.gen ∧ s'.spec = s.written (cliWrite o s.cli) := by
  cases cliStep_move hs with
  | runEnd hcli | runNext hcli | runLaunch hcli | runFailed hcli | runStore hcli | runSpawn hcli
  | rstStop hcli | rstDelete hcli | rstLaunch hcli | rstFailed hcli | rstStore hcli
  | downJoin hcli | downEnd hcli | downSkip hcli | downStop hcli | downDelete hcli =>
    rw [hcli]
    exact ⟨rfl, rfl⟩

theorem collectStep_spec (o : Answers) (now : Int) (i : Nat) (work : List WorkItem) (s : Sys) :
    (collectStep o now i work s).log.gen = s.log.gen ∧
    (collectStep o now i work s).spec = s.written (collectWrite o now i s) := by
  unfold collectStep collectWrite
  split
  · exact ⟨rfl, rfl⟩
  · simp only
    cases hinfo : containerGetInfo o.poll (s.svc i).containerId s.mgr with
    | mk m r =>
      cases r with
      | none => exact ⟨rfl, rfl⟩
      | some r => exact ⟨rfl, rfl⟩

theorem monStep_spec {o : Answers} {s s' : Sys} (hs : monStep o s = some s') :
    s'.log.gen = s.log.gen ∧ s'.spec = s.written (monWrite o s) := by
  unfold monStep at hs
  -- only the pass, a probe and a finished restart write a service
  unfold monWrite
  split at hs
  · cases hs
  · rename_i hmon
    cases hs; rw [hmon]; exact ⟨rfl, rfl⟩
  · rename_i now i work hmon
    cases hs
    rw [hmon]
    simp only
    split
    · exact collectStep_spec o now i work s
    · exact ⟨rfl, rfl⟩
  · rename_i hmon
    cases hs; rw [hmon]; exact ⟨rfl, rfl⟩
  · rename_i hmon
    cases hs; rw [hmon]; exact ⟨rfl, rfl⟩
  · rename_i hmon
    cases hs; rw [hmon]; exact ⟨rfl, rfl⟩
  · rename_i hmon
    cases hs; rw [hmon]; exact ⟨rfl, rfl⟩
  · rename_i svc cid hcmd name hc rest hmon
    rw [hmon]
    simp only
    split at hs
    · rename_i hlive
      cases hs; rw [if_pos hlive]; exact ⟨rfl, rfl⟩
    · rename_i hlive
      cases hs; rw [if_neg hlive]; exact ⟨rfl, rfl⟩
  · rename_i hmon
    cases hs; rw [hmon]; exact ⟨rfl, rfl⟩
  · rename_i hmon
    cases hs; rw [hmon]; exact ⟨rfl, rfl⟩
  · rename_i hmon
    cases hs; rw [hmon]; exact ⟨rfl, rfl⟩
  · rename_i job cid backoffS ec new rest hmon
    cases hs
    rw [hmon]
    unfold commitRestart
    cases hrun : s.running with
    | false =>
      cases new with
      | none => exact ⟨rfl, rfl⟩
      | some id => exact ⟨rfl, rfl⟩
    | true =>
      cases new with
      | none => exact ⟨rfl, rfl⟩
      | some id => exact ⟨rfl, rfl⟩
  · rename_i hmon
    cases hs; rw [hmon]; exact ⟨rfl, rfl⟩
  · rename_i hmon
    cases hs; rw [hmon]; exact ⟨rfl, rfl⟩

/-- An `orch_run` that gets into its loop. -/
structure Accepted (parsed : ParsedSpec) (s s' : Sys) : Prop where
  idle : s.cli = .idle
  stopped : s.running = false
  valid : orchValidate parsed.spec = 0
  spec : s'.spec = parsed.spec
  gen : s'.log.gen = s.log.gen + 1
  mon : s'.mon = s.mon
  running : s'.running = s.running
  cli : s'.cli = .runNext (topoSort parsed.spec).2

theorem beginRun_cases (parsed : ParsedSpec) {s : Sys} (hidle : s.cli = .idle) :
    beginRun parsed s = s ∨ Accepted parsed s (beginRun parsed s) := by
  unfold beginRun
  split
  · exact .inl rfl
  split
  · exact .inl rfl
  split
  · exact .inl rfl
  · rename_i hrun hvalid _
    exact .inr ⟨hidle, by simpa using hrun, not_not.mp hvalid, rfl, rfl, rfl, rfl, rfl⟩

/-- What a step does to the spec. -/
theorem sysStep_spec {s s' : Sys} {a : Action} (hs : sysStep s a = some s') :
    (s'.log.gen = s.log.gen ∧ s'.spec = s.written (writeOf s a)) ∨
    ∃ parsed, a = .run parsed ∧ Accepted parsed s s' := by
  cases a with
  | run parsed =>
    obtain ⟨hidle, rfl⟩ := beginStep_eq_some hs
    rcases beginRun_cases parsed hidle with heq | hacc
    · exact .inl ⟨by rw [heq], by rw [heq]; rfl⟩
    · exact .inr ⟨parsed, rfl, hacc⟩
  | restart name =>
    obtain ⟨-, rfl⟩ := beginStep_eq_some hs
    refine .inl ?_
    unfold beginRestart
    by_cases hrun : s.running
    · simp only [writeOf, hrun, if_true]
      cases findSvc s.spec name with
      | none => exact ⟨rfl, rfl⟩
      | some i => exact ⟨rfl, rfl⟩
    · simp only [writeOf, hrun]
      exact ⟨rfl, rfl⟩
  | down =>
    obtain ⟨-, rfl⟩ := beginStep_eq_some hs
    refine .inl ?_
    unfold beginDown
    split
    · exact ⟨rfl, rfl⟩
    · exact ⟨rfl, rfl⟩
  | cli o => exact .inl (cliStep_spec hs)
  | mon o => exact .inl (monStep_spec hs)
  | user op =>
    obtain ⟨m, -, rfl⟩ := Option.map_eq_some_iff.mp hs
    exact .inl ⟨rfl, rfl⟩

/-- As long as no other spec is run, what the spec says of its services stays. -/
theorem static_of_runs {s s' : Sys} {as : List Action} (hrun : Runs sysStep s as s') :
    s.log.gen ≤ s'.log.gen ∧ (s'.log.gen = s.log.gen → s'.spec.static = s.spec.static) := by
  induction hrun with
  | nil => exact ⟨Nat.le_refl _, fun _ => rfl⟩
  | snoc _ _ hs ih =>
    rcases sysStep_spec hs with ⟨hgen, hspec⟩ | ⟨parsed, -, hacc⟩
    · refine ⟨hgen ▸ ih.1, fun h => ?_⟩
      rw [hspec, static_written]
      exact ih.2 (hgen.symm.trans h)
    · have hgen := hacc.gen
      exact ⟨by omega, fun h => absurd h (by omega)⟩

/-! ## The system with its writes -/

/-- The system and the writes since the last `orch_run`, oldest first. -/
structure Observed where
  sys : Sys
  writes : List (Nat × Write)
  deriving DecidableEq

def Observed.init (m : Manager) : Observed := { sys := Sys.init m, writes := [] }

def obsStep (t : Observed) (a : Action) : Option Observed :=
  (sysStep t.sys a).map fun s' =>
    { sys := s'
      writes := if s'.log.gen = t.sys.log.gen then t.writes ++ (writeOf t.sys a).toList else [] }

/-- The writes to service `i`. -/
def writesTo (i : Nat) (ws : List (Nat × Write)) : List Write :=
  ws.filterMap fun w => if w.1 = i then some w.2 else none

theorem writesTo_snoc (i j : Nat) (ws : List (Nat × Write)) (w : Write) :
    writesTo i (ws ++ [(j, w)]) = if j = i then writesTo i ws ++ [w] else writesTo i ws := by
  unfold writesTo
  by_cases h : j = i
  · simp [h]
  · simp [h]

theorem sysStep_of_obsStep {t t' : Observed} {a : Action} (hs : obsStep t a = some t') :
    sysStep t.sys a = some t'.sys := by
  obtain ⟨s', hs', rfl⟩ := Option.map_eq_some_iff.mp hs
  exact hs'

/-- Recording does not change what the system does: an observed run is a run of
the system, so what holds of all these is not lost in `Observed`. -/
theorem runs_of_obsRuns {m : Manager} {as : List Action} {t : Observed}
    {ok : Observed → Action → Prop} (hrun : RunOk obsStep ok (Observed.init m) as t) :
    Runs sysStep (Sys.init m) as t.sys := by
  induction hrun with
  | nil => exact .nil _
  | snoc _ _ hs ih => exact .snoc ih trivial (sysStep_of_obsStep hs)

/-- And every run can be observed, so what is proved of the writes of observed
runs is about all runs of the system. -/
theorem exists_obsRun {m : Manager} {as : List Action} {s : Sys}
    (hrun : Runs sysStep (Sys.init m) as s) :
    ∃ ws, Runs obsStep (Observed.init m) as { sys := s, writes := ws } := by
  induction hrun with
  | nil => exact ⟨[], .nil _⟩
  | snoc _ _ hs ih =>
    obtain ⟨ws, hws⟩ := ih
    exact ⟨_, .snoc hws trivial (by rw [obsStep, hs]; rfl)⟩

theorem obsStep_cases {t t' : Observed} {a : Action} (hs : obsStep t a = some t') :
    (t'.writes = t.writes ++ (writeOf t.sys a).toList ∧
      t'.sys.spec = t.sys.written (writeOf t.sys a)) ∨
    ∃ parsed, a = .run parsed ∧ Accepted parsed t.sys t'.sys ∧ t'.writes = [] := by
  have hsys := sysStep_of_obsStep hs
  obtain ⟨s', hs', rfl⟩ := Option.map_eq_some_iff.mp hs
  rcases sysStep_spec hsys with ⟨hgen, hspec⟩ | ⟨parsed, ha, hacc⟩
  · exact .inl ⟨if_pos hgen, hspec⟩
  · have hnext : s'.log.gen = t.sys.log.gen + 1 := hacc.gen
    exact .inr ⟨parsed, ha, hacc, if_neg (by omega)⟩

theorem count_written (s : Sys) (w : Option (Nat × Write)) :
    (s.written w).count = s.spec.count := count_congr (static_written s w)

/-- What is true of every service and of the writes to it, when each write
keeps it and a new spec starts with it. -/
theorem services_step {P : Service → List Write → Prop} {t t' : Observed} {a : Action}
    (hs : obsStep t a = some t')
    (hwrite : ∀ i w, writeOf t.sys a = some (i, w) → P (t.sys.svc i) (writesTo i t.writes) →
      P (w.apply (t.sys.svc i)) (writesTo i t.writes ++ [w]))
    (hnew : ∀ parsed, a = .run parsed → ∀ svc ∈ parsed.spec.services, P svc [])
    (h : ∀ i < t.sys.spec.count, P (t.sys.svc i) (writesTo i t.writes)) :
    ∀ i < t'.sys.spec.count, P (t'.sys.svc i) (writesTo i t'.writes) := by
  rcases obsStep_cases hs with ⟨hws, hspec⟩ | ⟨parsed, ha, hacc, hws⟩
  · intro i hi
    rw [hspec, count_written] at hi
    cases hw : writeOf t.sys a with
    | none =>
      have hsvc : t'.sys.svc i = t.sys.svc i := by rw [Sys.svc, hspec, hw]; rfl
      rw [hws, hw, hsvc, Option.toList_none, List.append_nil]
      exact h i hi
    | some w =>
      obtain ⟨j, w⟩ := w
      have hsvc : t'.sys.svc i = (t.sys.setSvc j w.apply).svc i := by
        rw [Sys.svc, hspec, hw]; rfl
      rw [hws, hw, hsvc, Option.toList_some, writesTo_snoc]
      by_cases hji : j = i
      · -- the write is to this service
        subst hji
        rw [if_pos rfl, t.sys.svc_setSvc_eq _ hi]
        exact hwrite j w hw (h j hi)
      · rw [if_neg hji, t.sys.svc_setSvc_ne _ (Ne.symm hji)]
        exact h i hi
  · intro i hi
    rw [hacc.spec] at hi
    rw [hws, Sys.svc, hacc.spec]
    have hget : parsed.spec.services[i]? = some parsed.spec.services[i] :=
      List.getElem?_eq_getElem hi
    rw [hget]
    exact hnew parsed ha _ (List.getElem_mem hi)

end ContainerSim.Orch
