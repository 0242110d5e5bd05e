import ContainerSim.Runtime.Lifecycle
import ContainerSim.Orch.TopoSort

/-!
# The running orchestrator

Two threads work on `g_spec`: the command line (`orch_run`,
`orch_restart_service`, `orch_down`) and the monitor. One step of the system is
one critical section of `g_lock` or one call into the container manager, so a
run is an interleaving at that grain. The collection pass of the monitor holds
the lock across several container calls; it is one step per service, and the
other thread cannot enter a critical section meanwhile.

Orchestrator events and console output are left out. `Log` is not part of the
program: it records what the results below speak about.
-/

namespace ContainerSim.Orch

open Lib ContainerSim.Runtime

/-! ## State -/

/-- What a thread remembers of a service while it starts a container for it. -/
structure Job where
  svc : Nat
  name : Bytes
  image : Bytes
  command : Bytes
  deriving DecidableEq, Repr

/-- `WorkItem`: `type` 0 or 1 with the fields that type fills in. -/
inductive WorkItem where
  | health (svc : Nat) (cid hcmd name : Bytes)
  | restart (job : Job) (cid : Bytes) (backoffS exitCode : Int)
  deriving DecidableEq, Repr

/-- Where the monitor thread is, with its locals. `rest` are the items after
the current one. -/
inductive MonPc where
  /-- not created, or returned -/
  | off
  | sleep
  /-- in the collection pass, before service `i`, holding the lock -/
  | collect (now : Int) (i : Nat) (work : List WorkItem)
  | items (work : List WorkItem)
  | hcExec (svc : Nat) (cid hcmd name : Bytes) (rest : List WorkItem)
  | hcApply (svc : Nat) (cid hcmd name : Bytes) (hc : Int) (rest : List WorkItem)
  | backoff (job : Job) (cid : Bytes) (backoffS exitCode : Int) (rest : List WorkItem)
  | delete (job : Job) (cid : Bytes) (backoffS exitCode : Int) (rest : List WorkItem)
  | launch (job : Job) (cid : Bytes) (backoffS exitCode : Int) (rest : List WorkItem)
  | commit (job : Job) (cid : Bytes) (backoffS exitCode : Int) (new : Option Bytes)
      (rest : List WorkItem)
  | undoStop (svc : Nat) (new : Bytes) (rest : List WorkItem)
  | undoDelete (svc : Nat) (new : Bytes) (rest : List WorkItem)
  deriving DecidableEq, Repr

/-- Where the command line is in a call to the orchestrator. -/
inductive CliPc where
  | idle
  /-- the loop of `orch_run` over the rest of the order -/
  | runNext (todo : List Nat)
  | runLaunch (job : Job) (todo : List Nat)
  | runStore (svc : Nat) (new : Option Bytes) (todo : List Nat)
  | runSpawn
  | rstStop (job : Job) (old : Bytes)
  | rstDelete (job : Job) (old : Bytes)
  | rstLaunch (job : Job) (old : Bytes)
  | rstStore (svc : Nat) (old : Bytes) (new : Option Bytes)
  | downJoin
  /-- the loop of `orch_down` over the rest of the reversed order -/
  | downNext (todo : List Nat)
  | downDelete (svc : Nat) (todo : List Nat)
  deriving DecidableEq, Repr

/-- A container (by address) made for a service of the `gen`-th spec run. -/
structure Owned where
  gen : Nat
  svc : Nat
  ptr : Nat
  deriving DecidableEq, Repr

/-- An exit the monitor has noticed: of which service, under which container
id, with which code. -/
structure ExitSeen where
  svc : Nat
  cid : Bytes
  code : Int
  deriving DecidableEq, Repr

structure Log where
  /-- number of specs run so far -/
  gen : Nat
  /-- containers `container_run_background` made for the orchestrator -/
  owned : List Owned
  /-- containers the orchestrator's stops and deletes resolved to -/
  acted : List Owned
  /-- services `orch_run` has called `container_run_background` for -/
  starts : List Nat
  /-- exits noticed since `orch_run` -/
  exits : List ExitSeen
  /-- exits answered by an automatic restart -/
  restarts : List ExitSeen
  /-- services the loop of `orch_down` has reached -/
  visits : List Nat
  /-- services `orch_down` has called `container_stop` for -/
  stops : List Nat
  deriving DecidableEq, Repr

def Log.init : Log :=
  { gen := 0, owned := [], acted := [], starts := [], exits := [], restarts := []
    visits := [], stops := [] }

structure Sys where
  /-- `g_spec` -/
  spec : OrchestratorSpec
  /-- `g_running` -/
  running : Bool
  mgr : Manager
  mon : MonPc
  cli : CliPc
  log : Log
  deriving DecidableEq, Repr

def Sys.init (m : Manager) : Sys :=
  { spec := ⟨[], [], []⟩, running := false, mgr := m, mon := .off, cli := .idle, log := .init }

/-- Answers of the system to one step. A step uses the ones it needs. -/
structure Answers where
  poll : PollOutcome
  stop : StopOutcome
  save : Bool
  run : RunOutcome
  /-- `image_resolve` -/
  resolve : Option Bytes
  now : Int
  /-- exit code of a health command -/
  hc : Int
  /-- `pthread_create` -/
  spawn : Bool
  /-- what the uninitialised part of an `order` array holds -/
  garbage : Nat → Nat

namespace Sys

def svc (s : Sys) (i : Nat) : Service := (s.spec.services[i]?).getD .zero

def setSvc (s : Sys) (i : Nat) (f : Service → Service) : Sys :=
  { s with spec := { s.spec with services := s.spec.services.modify i f } }

/-- The monitor holds `g_lock` between two steps. -/
def locked (s : Sys) : Bool :=
  match s.mon with
  | .collect .. => true
  | _ => false

end Sys

/-! ## Container calls -/

def Job.ofService (i : Nat) (svc : Service) : Job :=
  { svc := i, name := svc.name, image := svc.image, command := svc.command }

/-- The `ContainerSpec` that `orch_run`, `orch_restart_service` and
`monitor_thread` each build: everything they do not set is zero. -/
def Job.containerSpec (job : Job) (resolve : Option Bytes) : ContainerSpec :=
  { ContainerSpec.zero with
    name := some job.name
    hostname := some job.name
    rootfs := some (resolve.getD job.image)
    commandLine := some job.command }

/-- `container_run_background` for a service. -/
def callLaunch (o : Answers) (job : Job) (s : Sys) : Sys × Option Bytes :=
  let (m, new) := containerRunBackground o.run (job.containerSpec o.resolve) s.mgr
  let made := if o.run.create.calloc then [⟨s.log.gen, job.svc, s.mgr.heap⟩] else []
  ({ s with mgr := m, log := { s.log with owned := s.log.owned ++ made } }, new)

/-- The container a stop or delete of `id` for service `i` works on. -/
def target (o : Answers) (i : Nat) (id : Bytes) (s : Sys) : List Owned :=
  if id = [] then []
  else (findContainer (pollStates o.poll s.mgr).list id).toList.map fun c =>
    ⟨s.log.gen, i, c.ptr⟩

/-- `container_stop` through a stored id. -/
def callStop (o : Answers) (i : Nat) (id : Bytes) (timeoutS : Int) (s : Sys) : Sys :=
  { s with
    mgr := (containerStop o.poll o.stop id timeoutS s.mgr).1
    log := { s.log with acted := s.log.acted ++ target o i id s } }

/-- `container_delete` through a stored id. -/
def callDelete (o : Answers) (i : Nat) (id : Bytes) (s : Sys) : Sys :=
  { s with
    mgr := (containerDelete o.poll o.save id s.mgr).1
    log := { s.log with acted := s.log.acted ++ target o i id s } }

/-- `container_exec_quiet`: `-1` when the container is not running. -/
def containerExecQuiet (o : Answers) (id : Bytes) (m : Manager) : Manager × Int :=
  let m := pollStates o.poll m
  match findContainer m.list id with
  | some c => (m, if c.state ≠ .running ∨ c.pid ≤ 0 then -1 else o.hc)
  | none => (m, -1)

/-! ## The monitor thread -/

/-- `1 << n` on an `int`, with the shift count taken modulo the width. -/
def shlOne (n : Int) : Int := toInt32 (2 ^ (n % 32).toNat)

def backoffOf (restartCount : Int) : Int :=
  if shlOne restartCount > 30 then 30 else shlOne restartCount

/-- The container of an active service is seen STOPPED. -/
def exitNoticed (svc : Service) (cst : ContainerState) : Bool :=
  cst = .stopped ∧ svc.state ≠ .stopped ∧ svc.state ≠ .failed

def wantsRestart (svc : Service) (ec : Int) : Bool :=
  (svc.restart = .always ∨ (svc.restart = .onFailure ∧ ec ≠ 0)) ∧
    (svc.maxRestarts = 0 ∨ svc.restartCount < svc.maxRestarts)

/-- The collection pass on service `i`, once its container has been looked up. -/
def collectSvc (now : Int) (i : Nat) (svc : Service) (cst : ContainerState) (ec : Int) :
    Service × List WorkItem :=
  if exitNoticed svc cst then
    if wantsRestart svc ec then
      ({ svc with state := .restarting },
        [.restart (.ofService i svc) svc.containerId (backoffOf svc.restartCount) ec])
    else ({ svc with state := if ec = 0 then .stopped else .failed }, [])
  else if cst = .running ∧ svc.health.enabled ∧
      (svc.state = .running ∨ svc.state = .healthy ∨ svc.state = .unhealthy) then
    if (now - svc.startedAt) * 1000 < svc.health.startPeriodMs then (svc, [])
    else if (now - svc.lastHealthCheck) * 1000 < svc.health.intervalMs then (svc, [])
    else
      ({ svc with lastHealthCheck := now },
        [.health i svc.containerId svc.health.exec svc.name])
  else if cst = .running ∧ !svc.health.enabled ∧ svc.state = .running then
    ({ svc with state := .healthy }, [])
  else (svc, [])

/-- The pass skips services without a container or in transition. -/
def skipped (svc : Service) : Bool :=
  svc.containerId = [] ∨ svc.state = .pending ∨ svc.state = .starting ∨ svc.state = .restarting

/-- One round of the collection loop. -/
def collectStep (o : Answers) (now : Int) (i : Nat) (work : List WorkItem) (s : Sys) : Sys :=
  if skipped (s.svc i) then { s with mon := .collect now (i + 1) work }
  else
    let svc := s.svc i
    match containerGetInfo o.poll svc.containerId s.mgr with
    | (m, none) => { s with mgr := m, mon := .collect now (i + 1) work }
    | (m, some (cst, ec)) =>
      let seen := if exitNoticed svc cst then [⟨i, svc.containerId, ec⟩] else []
      let s := s.setSvc i fun svc => (collectSvc now i svc cst ec).1
      { s with
        mgr := m
        mon := .collect now (i + 1) (work ++ (collectSvc now i svc cst ec).2)
        log := { s.log with exits := s.log.exits ++ seen } }

/-- A health result on the service it is for. -/
def applyHealth (hc : Int) (svc : Service) : Service :=
  if hc = 0 then { svc with healthFailCount := 0, state := .healthy }
  else
    let fails := svc.healthFailCount + 1
    { svc with
      healthFailCount := fails
      state := if fails ≥ svc.health.retries then .unhealthy else svc.state }

/-- What a completed restart writes, automatic or manual. -/
def restarted (new : Bytes) (now : Int) (svc : Service) : Service :=
  { svc with
    containerId := new, state := .running, startedAt := now, healthFailCount := 0
    restartCount := svc.restartCount + 1 }

def failedSvc (svc : Service) : Service := { svc with state := .failed }

/-- The lock section after an automatic restart. A container started while the
spec went down is taken back. -/
def commitRestart (o : Answers) (job : Job) (new : Option Bytes) (rest : List WorkItem)
    (s : Sys) : Sys :=
  match s.running, new with
  | false, some id => { s with mon := .undoStop job.svc id rest }
  | false, none => { s with mon := .items rest }
  | true, some id =>
    { s.setSvc job.svc (restarted id o.now) with mon := .items rest }
  | true, none => { s.setSvc job.svc failedSvc with mon := .items rest }

def monStep (o : Answers) (s : Sys) : Option Sys :=
  match s.mon with
  | .off => none
  | .sleep => some { s with mon := if s.running then .collect o.now 0 [] else .off }
  | .collect now i work =>
    some (if i < s.spec.count ∧ work.length < maxServices then collectStep o now i work s
      else { s with mon := .items work })
  | .items [] => some { s with mon := .sleep }
  | .items (.health svc cid hcmd name :: rest) =>
    some { s with mon := if s.running then .hcExec svc cid hcmd name rest else .sleep }
  | .items (.restart job cid backoffS ec :: rest) =>
    some { s with mon := if s.running then .backoff job cid backoffS ec rest else .sleep }
  | .hcExec svc cid hcmd name rest =>
    let (m, hc) := containerExecQuiet o cid s.mgr
    some { s with mgr := m, mon := .hcApply svc cid hcmd name hc rest }
  | .hcApply svc cid _ _ hc rest =>
    if s.running ∧ (s.svc svc).containerId = cid then
      some { s.setSvc svc (applyHealth hc) with mon := .items rest }
    else some { s with mon := .items rest }
  | .backoff job cid backoffS ec rest =>
    some { s with mon := if s.running then .delete job cid backoffS ec rest else .items rest }
  | .delete job cid backoffS ec rest =>
    some { callDelete o job.svc cid s with mon := .launch job cid backoffS ec rest }
  | .launch job cid backoffS ec rest =>
    let (s, new) := callLaunch o job s
    some { s with
      mon := .commit job cid backoffS ec new rest
      log := { s.log with restarts := s.log.restarts ++ [⟨job.svc, cid, ec⟩] } }
  | .commit job _ _ _ new rest => some (commitRestart o job new rest s)
  | .undoStop svc new rest =>
    some { callStop o svc new 1 s with mon := .undoDelete svc new rest }
  | .undoDelete svc new rest => some { callDelete o svc new s with mon := .items rest }

/-! ## The command line -/

/-- The `order` array of `orch_down`: when the sort fails, `count` entries are
used although only a part has been written. -/
def downOrder (spec : OrchestratorSpec) (garbage : Nat → Nat) : List Nat :=
  let (n, order) := topoSort spec
  if n < 0 then (List.range spec.count).map fun k => (order[k]?).getD (garbage k) else order

def startingSvc (svc : Service) : Service := { svc with state := .starting }

/-- What a successful start in `orch_run` writes. -/
def startedSvc (new : Bytes) (now : Int) (svc : Service) : Service :=
  { svc with containerId := new, state := .running, startedAt := now }

def restartingSvc (svc : Service) : Service := { svc with state := .restarting }

/-- What `orch_down` leaves of a service it has stopped. -/
def clearedSvc (svc : Service) : Service := { svc with state := .stopped, containerId := [] }

/-- A step of the call in progress. A step that takes `g_lock` waits while the
monitor holds it. -/
def cliStep (o : Answers) (s : Sys) : Option Sys :=
  match s.cli with
  | .idle => none
  | .runNext [] =>
    if s.locked then none else some { s with running := true, cli := .runSpawn }
  | .runNext (i :: todo) =>
    if s.locked then none
    else some { s.setSvc i startingSvc with cli := .runLaunch (.ofService i (s.svc i)) todo }
  | .runLaunch job todo =>
    let (s, new) := callLaunch o job s
    some { s with
      cli := .runStore job.svc new todo
      log := { s.log with starts := s.log.starts ++ [job.svc] } }
  | .runStore i none todo =>
    if s.locked then none else some { s.setSvc i failedSvc with cli := .runNext todo }
  | .runStore i (some id) todo =>
    if s.locked then none
    else some { s.setSvc i (startedSvc id o.now) with cli := .runNext todo }
  | .runSpawn => some { s with mon := if o.spawn then .sleep else .off, cli := .idle }
  | .rstStop job old => some { callStop o job.svc old 5 s with cli := .rstDelete job old }
  | .rstDelete job old => some { callDelete o job.svc old s with cli := .rstLaunch job old }
  | .rstLaunch job old =>
    let (s, new) := callLaunch o job s
    some { s with cli := .rstStore job.svc old new }
  | .rstStore i _ none =>
    if s.locked then none else some { s.setSvc i failedSvc with cli := .idle }
  | .rstStore i _ (some id) =>
    if s.locked then none else some { s.setSvc i (restarted id o.now) with cli := .idle }
  | .downJoin =>
    -- `pthread_join`
    if s.mon ≠ .off then none
    else some { s with cli := .downNext (downOrder s.spec o.garbage).reverse }
  | .downNext [] => some { s with cli := .idle }
  | .downNext (i :: todo) =>
    let s := { s with log := { s.log with visits := s.log.visits ++ [i] } }
    if (s.svc i).containerId = [] then some { s with cli := .downNext todo }
    else
      let s := callStop o i (s.svc i).containerId 5 s
      some { s with cli := .downDelete i todo, log := { s.log with stops := s.log.stops ++ [i] } }
  | .downDelete i todo =>
    some { (callDelete o i (s.svc i).containerId s).setSvc i clearedSvc with
      cli := .downNext todo }

/-- The runtime fields of a parsed spec are zero. -/
def OrchestratorSpec.Fresh (spec : OrchestratorSpec) : Prop :=
  ∀ svc ∈ spec.services, svc.containerId = [] ∧ svc.state = .pending ∧ svc.restartCount = 0 ∧
    svc.healthFailCount = 0 ∧ svc.startedAt = 0 ∧ svc.lastHealthCheck = 0

instance (spec : OrchestratorSpec) : Decidable spec.Fresh := by
  unfold OrchestratorSpec.Fresh; infer_instance

/-- A spec as `orch_parse_spec` hands it to `orch_run`. -/
structure ParsedSpec where
  spec : OrchestratorSpec
  fresh : spec.Fresh

/-- `orch_run` up to its loop. -/
def beginRun (parsed : ParsedSpec) (s : Sys) : Sys :=
  if s.running then s
  else if orchValidate parsed.spec ≠ 0 then s
  else if (topoSort parsed.spec).1 < 0 then s
  else
    { s with
      spec := parsed.spec
      cli := .runNext (topoSort parsed.spec).2
      log := { s.log with
        gen := s.log.gen + 1, starts := [], exits := [], restarts := [], visits := []
        stops := [] } }

/-- `orch_restart_service` up to its first container call. -/
def beginRestart (name : Bytes) (s : Sys) : Sys :=
  if s.running then
    match findSvc s.spec name with
    | none => s
    | some i =>
      { s.setSvc i restartingSvc with
        cli := .rstStop (.ofService i (s.svc i)) (s.svc i).containerId }
  else s

/-- `orch_down` up to the join. -/
def beginDown (s : Sys) : Sys :=
  if s.running then { s with running := false, cli := .downJoin } else s

/-! ## Steps -/

inductive Action where
  | run (parsed : ParsedSpec)
  | restart (name : Bytes)
  | down
  | cli (o : Answers)
  | mon (o : Answers)
  | user (op : UserOp)

/-- A new command can be given when no call is in progress; its first critical
section needs the lock. -/
def beginStep (f : Sys → Sys) (s : Sys) : Option Sys :=
  if s.cli ≠ .idle ∨ s.locked then none else some (f s)

def sysStep (s : Sys) : Action → Option Sys
  | .run parsed => beginStep (beginRun parsed) s
  | .restart name => beginStep (beginRestart name) s
  | .down => beginStep beginDown s
  | .cli o => cliStep o s
  | .mon o => monStep o s
  | .user op => (userStep op s.mgr).map fun m => { s with mgr := m }

theorem beginStep_eq_some {f : Sys → Sys} {s s' : Sys} (h : beginStep f s = some s') :
    s.cli = .idle ∧ s' = f s := by
  unfold beginStep at h
  split at h
  · cases h
  · rename_i hidle
    push Not at hidle
    exact ⟨hidle.1, (Option.some.inj h).symm⟩

/-! ## What the threads hold between two steps -/

/-- The items the monitor has still to carry out, the current one first. A
restart counts as carried out once its container has been started. -/
def MonPc.work : MonPc → List WorkItem
  | .off => []
  | .sleep => []
  | .collect _ _ work => work
  | .items work => work
  | .hcExec svc cid hcmd name rest => .health svc cid hcmd name :: rest
  | .hcApply svc cid hcmd name _ rest => .health svc cid hcmd name :: rest
  | .backoff job cid backoffS ec rest => .restart job cid backoffS ec :: rest
  | .delete job cid backoffS ec rest => .restart job cid backoffS ec :: rest
  | .launch job cid backoffS ec rest => .restart job cid backoffS ec :: rest
  | .commit _ _ _ _ _ rest => rest
  | .undoStop _ _ rest => rest
  | .undoDelete _ _ rest => rest

/-- The service an item is about. -/
def WorkItem.svc : WorkItem → Nat
  | .health svc _ _ _ => svc
  | .restart job _ _ _ => job.svc

/-- A container the monitor has started and not yet entered into the spec. -/
def MonPc.new : MonPc → Option Bytes
  | .commit _ _ _ _ new _ => new
  | .undoStop _ new _ => some new
  | .undoDelete _ new _ => some new
  | _ => none

/-- A container the command line has started and not yet entered into the spec. -/
def CliPc.new : CliPc → Option Bytes
  | .runStore _ new _ => new
  | .rstStore _ _ new => new
  | _ => none

/-! ## A spec and a system on which every call succeeds -/

def Answers.clean (pid : Pid) : Answers :=
  { poll := .quiet, stop := .clean, save := true, run := .clean pid, resolve := none, now := 0
    hc := 0, spawn := true, garbage := fun _ => 0 }

/-- `"web"` needs `"db"`; both are restarted whenever they exit. -/
def webSpec : OrchestratorSpec :=
  { name := bytes "demo", specPath := bytes "demo.json"
    services :=
      [{ Service.zero with
          name := bytes "web", image := bytes "img", command := bytes "/bin/web"
          deps := [bytes "db"], restart := .always },
        { Service.zero with
          name := bytes "db", image := bytes "img", command := bytes "/bin/db"
          restart := .always }] }

def webParsed : ParsedSpec := ⟨webSpec, by decide⟩

/-- `n` steps of the command line, with process ids from `pid` on. -/
def cliSteps (pid : Pid) (n : Nat) : List Action :=
  (List.range n).map fun (k : Nat) => .cli (.clean ⟨pid.val + k, by have := pid.pos; omega⟩)

/-- `orch_run` of `webSpec`, from its call to its return. -/
def webUp : List Action := .run webParsed :: cliSteps (.ofNat 100) 8

/-- `n` steps of the monitor, with process ids from `pid` on. -/
def monSteps (pid : Pid) (n : Nat) : List Action :=
  (List.range n).map fun (k : Nat) => .mon (.clean ⟨pid.val + k, by have := pid.pos; omega⟩)

/-- The monitor's next poll finds the container at this address exited. -/
def monSees (ptr code : Nat) : Action :=
  .mon { Answers.clean (.ofNat 1) with poll := .exits ptr code }

end ContainerSim.Orch
