import ContainerSim.Orch.System

/-!
# What a step can do

The step functions read as relations, with one constructor for each thing a
thread can do and its guards as hypotheses. That an invariant is kept is then a
case analysis over the constructors.
-/

namespace ContainerSim.Orch

open Lib ContainerSim.Runtime

/-! ## The collection pass -/

/-- States in which the collection pass can decide on a service. -/
def Ready (st : ServiceState) : Prop := st = .running ∨ st = .healthy ∨ st = .unhealthy

inductive CollectMove (now : Int) (i : Nat) (svc : Service) (cst : ContainerState) (ec : Int) :
    Service × List WorkItem → Prop where
  | restart (hexit : exitNoticed svc cst = true) (hwant : wantsRestart svc ec = true) :
      CollectMove now i svc cst ec ({ svc with state := .restarting },
        [.restart (.ofService i svc) svc.containerId (backoffOf svc.restartCount) ec])
  /-- an exit that is not answered -/
  | ended {state : ServiceState} (hstate : ¬ Ready state) :
      CollectMove now i svc cst ec ({ svc with state }, [])
  | check (hready : Ready svc.state) :
      CollectMove now i svc cst ec ({ svc with lastHealthCheck := now },
        [.health i svc.containerId svc.health.exec svc.name])
  /-- up, and there is no check to wait for -/
  | up (hready : Ready svc.state) (hoff : svc.health.enabled = false) :
      CollectMove now i svc cst ec ({ svc with state := .healthy }, [])
  | nothing : CollectMove now i svc cst ec (svc, [])

theorem collectSvc_move (now : Int) (i : Nat) (svc : Service) (cst : ContainerState) (ec : Int) :
    CollectMove now i svc cst ec (collectSvc now i svc cst ec) := by
  unfold collectSvc
  split
  · rename_i hexit
    split
    · rename_i hwant
      exact .restart hexit hwant
    · refine .ended ?_
      split <;> simp [Ready]
  split
  · rename_i hhealth
    split
    · exact .nothing
    split
    · exact .nothing
    · exact .check hhealth.2.2
  split
  · rename_i hup
    exact .up (.inl hup.2.2) (by simpa using hup.2.1)
  · exact .nothing

/-- All but the state and the time of the last check is left alone. -/
theorem collectSvc_kept (now : Int) (i : Nat) (svc : Service) (cst : ContainerState) (ec : Int) :
    ∃ state lastHealthCheck,
      (collectSvc now i svc cst ec).1 = { svc with state, lastHealthCheck } := by
  have hmove := collectSvc_move now i svc cst ec
  generalize collectSvc now i svc cst ec = r at hmove ⊢
  cases hmove with
  | restart | ended | check | up | nothing => exact ⟨_, _, rfl⟩

theorem collectSvc_containerId (now : Int) (i : Nat) (svc : Service) (cst : ContainerState)
    (ec : Int) : (collectSvc now i svc cst ec).1.containerId = svc.containerId := by
  obtain ⟨state, lastHealthCheck, heq⟩ := collectSvc_kept now i svc cst ec
  rw [heq]

/-- Its items are about the service at hand. -/
theorem collectSvc_svc (now : Int) (i : Nat) (svc : Service) (cst : ContainerState) (ec : Int) :
    ∀ w ∈ (collectSvc now i svc cst ec).2, w.svc = i := by
  have hmove := collectSvc_move now i svc cst ec
  generalize collectSvc now i svc cst ec = r at hmove ⊢
  intro w hw
  cases hmove with
  | restart | check =>
    rw [List.mem_singleton.mp hw]
    rfl
  | ended | up | nothing => exact absurd hw List.not_mem_nil

/-! ## The monitor -/

/-- All the monitor holds is its work, and a pass that has begun has found none
yet. -/
def MonPc.between : MonPc → Bool
  | .collect _ _ work => work.isEmpty
  | .launch .. | .commit .. | .undoStop .. | .undoDelete .. => false
  | _ => true

theorem MonPc.between_collect {now : Int} {i : Nat} {work : List WorkItem}
    (h : (MonPc.collect now i work).between = true) : work = [] :=
  List.isEmpty_iff.mp h

/-- The state after the pass has seen the container of service `k`. -/
def collectedSys (now : Int) (k : Nat) (work : List WorkItem) (cst : ContainerState) (ec : Int)
    (m : Manager) (s : Sys) : Sys :=
  { s.setSvc k fun svc => (collectSvc now k svc cst ec).1 with
    mgr := m
    mon := .collect now (k + 1) (work ++ (collectSvc now k (s.svc k) cst ec).2)
    log := { s.log with
      exits := s.log.exits ++
        if exitNoticed (s.svc k) cst then [⟨k, (s.svc k).containerId, ec⟩] else [] } }

inductive MonMove (o : Answers) (s : Sys) : Sys → Prop where
  /-- it goes on with its work, or with the rest of it -/
  | goOn {m : Manager} {mon : MonPc} (hm : m = s.mgr ∨ m = pollStates o.poll s.mgr)
      (hnew : s.mon.new = none) (hwork : mon.work.Sublist s.mon.work)
      (hbetween : mon.between = true) : MonMove o s { s with mgr := m, mon }
  /-- the pass finds nothing to look at -/
  | skip {now : Int} {i : Nat} {work : List WorkItem} {m : Manager}
      (hmon : s.mon = .collect now i work) (hi : i < s.spec.count)
      (hm : m = s.mgr ∨ m = pollStates o.poll s.mgr) :
      MonMove o s { s with mgr := m, mon := .collect now (i + 1) work }
  | seen {now : Int} {i : Nat} {work : List WorkItem} {cst : ContainerState} {ec : Int}
      (hmon : s.mon = .collect now i work) (hi : i < s.spec.count)
      (hskip : skipped (s.svc i) = false)
      (hinfo : containerGetInfo o.poll (s.svc i).containerId s.mgr =
        (pollStates o.poll s.mgr, some (cst, ec))) :
      MonMove o s (collectedSys now i work cst ec (pollStates o.poll s.mgr) s)
  | health {svc : Nat} {cid hcmd name : Bytes} {hc : Int} {rest : List WorkItem}
      (hmon : s.mon = .hcApply svc cid hcmd name hc rest) (hrun : s.running = true)
      (hcid : (s.svc svc).containerId = cid) :
      MonMove o s { s.setSvc svc (applyHealth hc) with mon := .items rest }
  | delete {job : Job} {cid : Bytes} {backoffS ec : Int} {rest : List WorkItem}
      (hmon : s.mon = .delete job cid backoffS ec rest) :
      MonMove o s
        { callDelete o job.svc cid s with mon := .launch job cid backoffS ec rest }
  | launch {job : Job} {cid : Bytes} {backoffS ec : Int} {rest : List WorkItem}
      (hmon : s.mon = .launch job cid backoffS ec rest) :
      MonMove o s
        { (callLaunch o job s).1 with
          mon := .commit job cid backoffS ec (callLaunch o job s).2 rest
          log := { (callLaunch o job s).1.log with
            restarts := (callLaunch o job s).1.log.restarts ++ [⟨job.svc, cid, ec⟩] } }
  | commit {job : Job} {cid id : Bytes} {backoffS ec : Int} {rest : List WorkItem}
      (hmon : s.mon = .commit job cid backoffS ec (some id) rest) (hrun : s.running = true) :
      MonMove o s { s.setSvc job.svc (restarted id o.now) with mon := .items rest }
  | failed {job : Job} {cid : Bytes} {backoffS ec : Int} {rest : List WorkItem}
      (hmon : s.mon = .commit job cid backoffS ec none rest) (hrun : s.running = true) :
      MonMove o s { s.setSvc job.svc failedSvc with mon := .items rest }
  /-- the spec went down meanwhile -/
  | takeBack {job : Job} {cid id : Bytes} {backoffS ec : Int} {rest : List WorkItem}
      (hmon : s.mon = .commit job cid backoffS ec (some id) rest) (hstopped : s.running = false) :
      MonMove o s { s with mon := .undoStop job.svc id rest }
  | giveUp {job : Job} {cid : Bytes} {backoffS ec : Int} {rest : List WorkItem}
      (hmon : s.mon = .commit job cid backoffS ec none rest) (hstopped : s.running = false) :
      MonMove o s { s with mon := .items rest }
  | undoStop {svc : Nat} {new : Bytes} {rest : List WorkItem}
      (hmon : s.mon = .undoStop svc new rest) :
      MonMove o s { callStop o svc new 1 s with mon := .undoDelete svc new rest }
  | undoDelete {svc : Nat} {new : Bytes} {rest : List WorkItem}
      (hmon : s.mon = .undoDelete svc new rest) :
      MonMove o s { callDelete o svc new s with mon := .items rest }

theorem containerExecQuiet_mgr (o : Answers) (id : Bytes) (m : Manager) :
    (containerExecQuiet o id m).1 = pollStates o.poll m := by
  unfold containerExecQuiet
  simp only
  split <;> rfl

theorem collectStep_move {o : Answers} {now : Int} {i : Nat} {work : List WorkItem} {s : Sys}
    (hmon : s.mon = .collect now i work) (hi : i < s.spec.count) :
    MonMove o s (collectStep o now i work s) := by
  unfold collectStep
  split
  · exact .skip hmon hi (.inl rfl)
  · rename_i hskip
    simp only
    cases hinfo : containerGetInfo o.poll (s.svc i).containerId s.mgr with
    | mk m r =>
      obtain rfl : pollStates o.poll s.mgr = m := congrArg Prod.fst hinfo
      cases r with
      | none => exact .skip hmon hi (.inr rfl)
      | some r => exact .seen hmon hi (by simpa using hskip) hinfo

theorem commitRestart_move {o : Answers} {job : Job} {cid : Bytes} {backoffS ec : Int}
    {new : Option Bytes} {rest : List WorkItem} {s : Sys}
    (hmon : s.mon = .commit job cid backoffS ec new rest) :
    MonMove o s (commitRestart o job new rest s) := by
  unfold commitRestart
  split
  · rename_i hstopped
    exact .takeBack hmon hstopped
  · rename_i hstopped
    exact .giveUp hmon hstopped
  · rename_i hrun
    exact .commit hmon hrun
  · rename_i hrun
    exact .failed hmon hrun

theorem monStep_move {o : Answers} {s s' : Sys} (hs : monStep o s = some s') :
    MonMove o s s' := by
  -- most steps only move the program counter
  have hgo : ∀ mon : MonPc, s.mon.new = none → mon.work.Sublist s.mon.work →
      mon.between = true → MonMove o s { s with mon } :=
    fun mon hnew hwork hbetween => .goOn (.inl rfl) hnew hwork hbetween
  unfold monStep at hs
  cases hmon : s.mon with
  | off => rw [hmon] at hs; cases hs
  | sleep =>
    rw [hmon] at hs hgo
    cases hs
    split
    · exact hgo (.collect o.now 0 []) rfl (List.Sublist.refl _) rfl
    · exact hgo .off rfl (List.Sublist.refl _) rfl
  | collect now i work =>
    rw [hmon] at hs hgo
    simp only at hs
    split at hs
    · rename_i hi
      cases hs
      exact collectStep_move hmon hi.1
    · cases hs
      exact hgo (.items work) rfl (List.Sublist.refl _) rfl
  | items work =>
    rw [hmon] at hs hgo
    cases work with
    | nil => cases hs; exact hgo .sleep rfl (List.Sublist.refl _) rfl
    | cons item rest =>
      cases item with
      | health svc cid hcmd name =>
        cases hs
        split
        · exact hgo (.hcExec svc cid hcmd name rest) rfl (List.Sublist.refl _) rfl
        · exact hgo .sleep rfl (List.nil_sublist _) rfl
      | restart job cid backoffS ec =>
        cases hs
        split
        · exact hgo (.backoff job cid backoffS ec rest) rfl (List.Sublist.refl _) rfl
        · exact hgo .sleep rfl (List.nil_sublist _) rfl
  | hcExec svc cid hcmd name rest =>
    rw [hmon] at hs
    cases hs
    refine .goOn (.inr (containerExecQuiet_mgr o cid s.mgr)) ?_ ?_ rfl
    · rw [hmon]; rfl
    · rw [hmon]; exact List.Sublist.refl _
  | hcApply svc cid hcmd name hc rest =>
    rw [hmon] at hs hgo
    simp only at hs
    split at hs
    · rename_i hlive
      cases hs
      exact .health hmon hlive.1 hlive.2
    · cases hs
      exact hgo (.items rest) rfl (List.sublist_cons_self _ _) rfl
  | backoff job cid backoffS ec rest =>
    rw [hmon] at hs hgo
    cases hs
    split
    · exact hgo (.delete job cid backoffS ec rest) rfl (List.Sublist.refl _) rfl
    · exact hgo (.items rest) rfl (List.sublist_cons_self _ _) rfl
  | delete job cid backoffS ec rest => rw [hmon] at hs; cases hs; exact .delete hmon
  | launch job cid backoffS ec rest => rw [hmon] at hs; cases hs; exact .launch hmon
  | commit job cid backoffS ec new rest => rw [hmon] at hs; cases hs; exact commitRestart_move hmon
  | undoStop svc new rest => rw [hmon] at hs; cases hs; exact .undoStop hmon
  | undoDelete svc new rest => rw [hmon] at hs; cases hs; exact .undoDelete hmon

/-! ## The command line -/

/-- The lock is left out: it decides when a step is made, not what it does. -/
inductive CliMove (o : Answers) (s : Sys) : Sys → Prop where
  | runEnd (hcli : s.cli = .runNext []) :
      CliMove o s { s with running := true, cli := .runSpawn }
  | runNext {i : Nat} {todo : List Nat} (hcli : s.cli = .runNext (i :: todo)) :
      CliMove o s { s.setSvc i startingSvc with cli := .runLaunch (.ofService i (s.svc i)) todo }
  | runLaunch {job : Job} {todo : List Nat} (hcli : s.cli = .runLaunch job todo) :
      CliMove o s
        { (callLaunch o job s).1 with
          cli := .runStore job.svc (callLaunch o job s).2 todo
          log := { (callLaunch o job s).1.log with
            starts := (callLaunch o job s).1.log.starts ++ [job.svc] } }
  | runFailed {i : Nat} {todo : List Nat} (hcli : s.cli = .runStore i none todo) :
      CliMove o s { s.setSvc i failedSvc with cli := .runNext todo }
  | runStore {i : Nat} {id : Bytes} {todo : List Nat} (hcli : s.cli = .runStore i (some id) todo) :
      CliMove o s { s.setSvc i (startedSvc id o.now) with cli := .runNext todo }
  | runSpawn (hcli : s.cli = .runSpawn) :
      CliMove o s { s with mon := if o.spawn then .sleep else .off, cli := .idle }
  | rstStop {job : Job} {old : Bytes} (hcli : s.cli = .rstStop job old) :
      CliMove o s { callStop o job.svc old 5 s with cli := .rstDelete job old }
  | rstDelete {job : Job} {old : Bytes} (hcli : s.cli = .rstDelete job old) :
      CliMove o s { callDelete o job.svc old s with cli := .rstLaunch job old }
  | rstLaunch {job : Job} {old : Bytes} (hcli : s.cli = .rstLaunch job old) :
      CliMove o s
        { (callLaunch o job s).1 with cli := .rstStore job.svc old (callLaunch o job s).2 }
  | rstFailed {i : Nat} {old : Bytes} (hcli : s.cli = .rstStore i old none) :
      CliMove o s { s.setSvc i failedSvc with cli := .idle }
  | rstStore {i : Nat} {old id : Bytes} (hcli : s.cli = .rstStore i old (some id)) :
      CliMove o s { s.setSvc i (restarted id o.now) with cli := .idle }
  | downJoin (hcli : s.cli = .downJoin) (hoff : s.mon = .off) :
      CliMove o s { s with cli := .downNext (downOrder s.spec o.garbage).reverse }
  | downEnd (hcli : s.cli = .downNext []) : CliMove o s { s with cli := .idle }
  | downSkip {i : Nat} {todo : List Nat} (hcli : s.cli = .downNext (i :: todo))
      (hid : (s.svc i).containerId = []) :
      CliMove o s
        { s with cli := .downNext todo, log := { s.log with visits := s.log.visits ++ [i] } }
  | downStop {i : Nat} {todo : List Nat} (hcli : s.cli = .downNext (i :: todo))
      (hid : (s.svc i).containerId ≠ []) :
      CliMove o s
        { callStop o i (s.svc i).containerId 5 s with
          cli := .downDelete i todo
          log := { (callStop o i (s.svc i).containerId 5 s).log with
            visits := s.log.visits ++ [i], stops := s.log.stops ++ [i] } }
  | downDelete {i : Nat} {todo : List Nat} (hcli : s.cli = .downDelete i todo) :
      CliMove o s
        { (callDelete o i (s.svc i).containerId s).setSvc i clearedSvc with cli := .downNext todo }

theorem eq_of_lock {s t s' : Sys} (h : (if s.locked then none else some t) = some s') :
    s' = t := by
  split at h
  · cases h
  · exact (Option.some.inj h).symm

theorem cliStep_move {o : Answers} {s s' : Sys} (hs : cliStep o s = some s') :
    CliMove o s s' := by
  unfold cliStep at hs
  cases hcli : s.cli with
  | idle => rw [hcli] at hs; cases hs
  | runNext todo =>
    rw [hcli] at hs
    cases todo with
    | nil => rw [eq_of_lock hs]; exact .runEnd hcli
    | cons i todo => rw [eq_of_lock hs]; exact .runNext hcli
  | runLaunch job todo => rw [hcli] at hs; cases hs; exact .runLaunch hcli
  | runStore i new todo =>
    rw [hcli] at hs
    cases new with
    | none => rw [eq_of_lock hs]; exact .runFailed hcli
    | some id => rw [eq_of_lock hs]; exact .runStore hcli
  | runSpawn => rw [hcli] at hs; cases hs; exact .runSpawn hcli
  | rstStop job old => rw [hcli] at hs; cases hs; exact .rstStop hcli
  | rstDelete job old => rw [hcli] at hs; cases hs; exact .rstDelete hcli
  | rstLaunch job old => rw [hcli] at hs; cases hs; exact .rstLaunch hcli
  | rstStore i old new =>
    rw [hcli] at hs
    cases new with
    | none => rw [eq_of_lock hs]; exact .rstFailed hcli
    | some id => rw [eq_of_lock hs]; exact .rstStore hcli
  | downJoin =>
    rw [hcli] at hs
    simp only at hs
    -- `pthread_join` waits until the monitor is off
    split at hs
    · cases hs
    · rename_i hoff
      cases hs
      exact .downJoin hcli (not_not.mp hoff)
  | downNext todo =>
    rw [hcli] at hs
    cases todo with
    | nil => cases hs; exact .downEnd hcli
    | cons i todo =>
      simp only at hs
      split at hs
      · rename_i hid
        cases hs
        exact .downSkip hcli hid
      · rename_i hid
        cases hs
        exact .downStop hcli hid
  | downDelete i todo => rw [hcli] at hs; cases hs; exact .downDelete hcli

/-! ## The system -/

/-- The state in which `orch_run` enters its loop. -/
def begun (parsed : ParsedSpec) (s : Sys) : Sys :=
  { s with
    spec := parsed.spec
    cli := .runNext (topoSort parsed.spec).2
    log := { s.log with
      gen := s.log.gen + 1, starts := [], exits := [], restarts := [], visits := []
      stops := [] } }

inductive SysMove (s : Sys) : Action → Sys → Prop where
  /-- a command that does not get past its checks -/
  | refused {a : Action} : SysMove s a s
  | run {parsed : ParsedSpec} (hidle : s.cli = .idle) (hstopped : s.running = false)
      (hvalid : orchValidate parsed.spec = 0) :
      SysMove s (.run parsed) (begun parsed s)
  | restart {name : Bytes} {i : Nat} (hidle : s.cli = .idle) (hrun : s.running = true)
      (hfind : findSvc s.spec name = some i) :
      SysMove s (.restart name)
        { s.setSvc i restartingSvc with
          cli := .rstStop (.ofService i (s.svc i)) (s.svc i).containerId }
  | down (hidle : s.cli = .idle) (hrun : s.running = true) :
      SysMove s .down { s with running := false, cli := .downJoin }
  | cli {o : Answers} {s' : Sys} (hs : cliStep o s = some s') : SysMove s (.cli o) s'
  | mon {o : Answers} {s' : Sys} (hs : monStep o s = some s') : SysMove s (.mon o) s'
  | user {op : UserOp} {m : Manager} (hm : userStep op s.mgr = some m) :
      SysMove s (.user op) { s with mgr := m }

theorem sysStep_move {s s' : Sys} {a : Action} (hs : sysStep s a = some s') : SysMove s a s' := by
  cases a with
  | run parsed =>
    obtain ⟨hidle, rfl⟩ := beginStep_eq_some hs
    unfold beginRun
    split
    · -- a run under way, or a list that does not validate, is turned away
      exact .refused
    split
    · exact .refused
    split
    · exact .refused
    · rename_i hrun hvalid _
      exact .run hidle (by simpa using hrun) (not_not.mp hvalid)
  | restart name =>
    obtain ⟨hidle, rfl⟩ := beginStep_eq_some hs
    unfold beginRestart
    split
    · rename_i hrun
      cases hfind : findSvc s.spec name with
      | none => exact .refused
      | some i => exact .restart hidle hrun hfind
    · exact .refused
  | down =>
    obtain ⟨hidle, rfl⟩ := beginStep_eq_some hs
    unfold beginDown
    split
    · rename_i hrun
      exact .down hidle hrun
    · exact .refused
  | cli o => exact .cli hs
  | mon o => exact .mon hs
  | user op =>
    obtain ⟨m, hm, rfl⟩ := Option.map_eq_some_iff.mp hs
    exact .user hm

end ContainerSim.Orch
