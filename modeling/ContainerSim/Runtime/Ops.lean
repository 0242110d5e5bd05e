import ContainerSim.Runtime.Types

/-!
# The container manager: operations

The operations of `container.c`, from the ones that work on a single record
(`syncContainerState`, `stopContainerProcess`, `startContainer`) up to the ones
the command line and the orchestrator call. Console output, log lines and
metrics are left out; signals, events, saves and network commands go to the
trace. A return code is an `Int`, as in the source.
-/

namespace ContainerSim.Runtime

open Lib Sched

/-! ## Work on one record -/

/-- `copy_string`. -/
def copyString (size : Nat) (src : Bytes) : Bytes := snprintfStr size src

/-- `WIFEXITED(status) ? WEXITSTATUS(status) : -WTERMSIG(status)`. -/
def WaitStatus.code : WaitStatus → Int
  | .exited code => code
  | .signaled sig => -sig

/-- `format_wait_status`. -/
def formatWaitStatus : WaitStatus → Bytes
  | .exited code => bytes "exited code=" ++ fmtNat code
  | .signaled sig => bytes "killed signal=" ++ fmtNat sig

/-- Removal of the forwards of a container. -/
def delPortForwards (ip : Bytes) (pms : List PortMapping) (w : World) : World :=
  pms.foldl (fun w pm => w.emit (.delPortForward pm ip)) w

/-- `cleanup_container_network`. -/
def cleanupContainerNetwork (c : Container) (w : World) : Container × World :=
  let w := if c.ipAddress ≠ [] then delPortForwards c.ipAddress c.portMaps w else w
  if c.vethHost ≠ [] then
    ({ c with vethHost := [], ipAddress := [] }, w.emit (.teardownVeth c.vethHost))
  else (c, w)

/-- `container_scheduler_on_stopped`. -/
def World.schedRemove (w : World) (pid : Int) : World :=
  { w with sched := schedulerRemoveTarget pid w.sched }

/-- `container_scheduler_on_started`. -/
def World.schedAdd (w : World) (realloc : Bool) (pid : Int) : World :=
  { w with sched := schedulerAddTarget realloc pid w.sched }

/-- `sync_container_state`: reap a running container that has ended. -/
def syncContainerState (o : SyncOutcome) (c : Container) (w : World) :
    Container × World × Bool :=
  if (c.state ≠ .running ∧ c.state ≠ .paused) ∨ c.pid ≤ 0 then (c, w, false)
  else if c.state = .paused then (c, w, false)
  else
    match o.wait with
    | .reaped status =>
      let pid := c.pid
      let w := w.emit (.reaped pid)
      let c := { c with stoppedAt := o.now, exitCode := status.code, state := .stopped, pid := -1 }
      let (c, w) := cleanupContainerNetwork c (w.schedRemove pid)
      (c, w.emit (.event .stopped c.id (formatWaitStatus status) c.exitCode), true)
    | .echild =>
      if o.alive then (c, w, false)
      else
        let w := w.emit (.foundDead c.pid)
        let c := { c with state := .stopped, pid := -1 }
        let (c, w) := cleanupContainerNetwork c w
        (c, w.emit (.event .stopped c.id (bytes "recovery-check") (-1)), true)
    | _ => (c, w, false)

/-- The loop body of `poll_states`: report new OOM kills, then reap. -/
def pollRecord (o : SyncOutcome) (c : Container) (w : World) : Container × World × Bool :=
  if c.state = .running ∧ 0 < c.pid ∧ 0 < o.oom ∧ c.oomKillCount < o.oom then
    syncContainerState o { c with oomKillCount := o.oom }
      (w.emit (.event .oomKill c.id [] o.rssMb))
  else syncContainerState o c w

/-- The loop of `poll_states`. -/
def pollList (sync : Nat → SyncOutcome) : List Container → World → List Container × World × Bool
  | [], w => ([], w, false)
  | c :: cs, w =>
    let (c', w, changed) := pollRecord (sync c.ptr) c w
    let (cs', w, changed') := pollList sync cs w
    (c' :: cs', w, changed || changed')

/-- `poll_states`. -/
def pollStates (o : PollOutcome) (m : Manager) : Manager :=
  let (list, w, changed) := pollList o.sync m.list m.world
  { m with list, world := if changed then w.emit (.save o.save) else w }

/-- Two's complement value of a 32-bit result. -/
def toInt32 (x : Int) : Int := x.bmod (2 ^ 32)

theorem toInt32_of_fits {x : Int} (hlow : -2 ^ 31 ≤ x) (hhigh : x < 2 ^ 31) : toInt32 x = x := by
  rw [toInt32, Int.bmod_def]
  split
  · omega
  · omega

/-- One carry into the sign. -/
theorem toInt32_of_carry {x : Int} (hlow : 2 ^ 31 ≤ x) (hhigh : x < 3 * 2 ^ 31) :
    toInt32 x = x - 2 ^ 32 := by
  rw [toInt32, Int.bmod_def]
  split
  · omega
  · omega

/-- The grace period: at most `fuel` polls, the `k`-th next. -/
def graceLoop (wait : Nat → WaitRes) : Nat → Nat → Option WaitStatus
  | _, 0 => none
  | k, fuel + 1 =>
    match wait k with
    | .reaped status => some status
    | .nothing | .eintr => graceLoop wait (k + 1) fuel
    | .echild | .error => none

/-- What `stop_container_process` learns of the process: its wait status
(`none` keeps the initial `wstatus = 0`), or a failure. -/
inductive StopResult where
  | reaped (status : WaitStatus)
  | gone
  | failed
  deriving DecidableEq, Repr

/-- Phase 1: SIGTERM and the grace period. -/
def termPhase (o : StopOutcome) (timeoutS : Int) : Option WaitStatus :=
  let effective := if timeoutS > 0 then timeoutS else 10
  if o.term then graceLoop o.graceWait 0 (toInt32 (effective * 10)).toNat else none

/-- Phase 2: SIGKILL and the blocking wait. -/
def killPhase (o : StopOutcome) (pid : Int) (w : World) : World × StopResult :=
  let w := if o.kill = .ok then w.emit (.signal pid .kill) else w
  if o.kill = .error then (w, .failed)
  else
    match o.finalWait with
    | .reaped status => (w.emit (.reaped pid), .reaped status)
    | .echild => (w.emit (.foundDead pid), .gone)
    | _ => (w, .failed)

/-- The two phases of `stop_container_process`. -/
def stopSignals (o : StopOutcome) (timeoutS : Int) (pid : Int) (w : World) :
    World × StopResult :=
  let w := if o.term then w.emit (.signal pid .term) else w
  match termPhase o timeoutS with
  | some status => (w.emit (.reaped pid), .reaped status)
  | none => killPhase o pid w

/-- `WIFEXITED(wstatus) ? WEXITSTATUS(wstatus) : 128 + WTERMSIG(wstatus)`. -/
def StopResult.code : StopResult → Int
  | .reaped (.exited code) => code
  | .reaped (.signaled sig) => 128 + sig
  | _ => 0

/-- `stop_container_process`. -/
def stopContainerProcess (o : StopOutcome) (timeoutS : Int) (c : Container) (w : World) :
    Container × World × Int :=
  if (c.state ≠ .running ∧ c.state ≠ .paused) ∨ c.pid ≤ 0 then (c, w, -1)
  else
    let w := if c.state = .paused ∧ o.cont then w.emit (.signal c.pid .cont) else w
    let (w, result) := stopSignals o timeoutS c.pid w
    if result = .failed then (c, w, -1)
    else
      let pid := c.pid
      let (c, w) := cleanupContainerNetwork c (w.schedRemove pid)
      let c := { c with stoppedAt := o.now, exitCode := result.code, pid := -1, state := .stopped }
      (c, (w.emit (.event .stopped c.id (bytes "killed") c.exitCode)).emit (.save o.save), 0)

/-- `errno` is still that of `waitpid` when it is looked at: the terminal was not
moved, or moving it back has not touched it. -/
def WaitOutcome.errnoKept (o : WaitOutcome) : Bool := !o.toContainer.done || o.toShell.keepsErrno

/-- `wait_for_container_process`. -/
def waitForContainerProcess (o : WaitOutcome) (c : Container) (w : World) :
    Container × World × Int :=
  if c.state ≠ .running ∨ c.pid ≤ 0 then (c, w, -1)
  else
    let finish (status : WaitStatus) (w : World) : Container × World × Int :=
      let c := { c with stoppedAt := o.now, exitCode := status.code, pid := -1, state := .stopped }
      let w := w.emit (.event .stopped c.id (formatWaitStatus status) c.exitCode)
      let (c, w) := cleanupContainerNetwork c w
      (c, w.emit (.save o.save), if o.save then 0 else -1)
    match o.wait with
    | .reaped status => finish status (w.emit (.reaped c.pid))
    | .echild =>
      if !o.errnoKept || o.alive then (c, w, -1)
      else finish (.exited 0) (w.emit (.foundDead c.pid))
    | _ => (c, w, -1)

/-- `ensure_container_log_path`. -/
def ensureContainerLogPath (c : Container) : Container :=
  if c.logPath ≠ [] then c
  else { c with logPath := snprintfStr logPathLen (bytes "logs/" ++ c.id ++ bytes ".log") }

/-- `bridge_alloc_ip`. -/
def bridgeAllocIp (w : World) : Option (Bytes × World) :=
  if w.nextIpHost > 254 then none
  else some (bytes "172.17.0." ++ fmtInt w.nextIpHost, { w with nextIpHost := w.nextIpHost + 1 })

/-- The part of an id after its last `-`. -/
def idSuffix (id : Bytes) : Bytes :=
  (id.reverse.takeWhile (· ≠ 45)).reverse

/-- The host-side interface name of `bridge_setup_veth`. -/
def hostVeth (id : Bytes) : Bytes := snprintfStr 16 (bytes "veth" ++ idSuffix id)

/-- `container_net_setup`. Only containers that publish ports insist on it. -/
def containerNetSetup (o : NetOutcome) (c : Container) (w : World) : Container × World × Int :=
  let giveUp : Int := if c.portMaps ≠ [] then -1 else 0
  if !o.bridgeUp then (c, w, giveUp)
  else if !o.preflight then (c, w, giveUp)
  else
    match bridgeAllocIp w with
    | none => (c, w, giveUp)
    | some (ip, w) =>
      if !o.setupVeth then (c, w, giveUp)
      else
        ({ c with ipAddress := snprintfStr 16 ip, vethHost := hostVeth c.id },
          w.emit (.setupVeth (hostVeth c.id)), 0)

/-- `namespace_start_container`: the process, or `none` for `-1`. -/
def namespaceStartContainer (ns : NsOutcome) (net : NetOutcome) (c : Container) (w : World) :
    Container × World × Option Pid :=
  if c.commandLine = [] then (c, w, none)
  else
    match ns with
    | .failBefore => (c, w, none)
    | .failAfter =>
      let (c, w, _) := containerNetSetup net c w
      (c, w, none)
    | .ok pid =>
      let (c, w, rc) := containerNetSetup net c w
      if rc ≠ 0 then (c, w, none) else (c, w.emit (.started c.id pid.val), some pid)

/-- The port-forward loop; `false` when an installation failed. -/
def addPortForwards (ok : Nat → Bool) (ip : Bytes) : Nat → List PortMapping → World → World × Bool
  | _, [], w => (w, true)
  | i, pm :: pms, w =>
    if ok i then addPortForwards ok ip (i + 1) pms (w.emit (.addPortForward pm ip))
    else (w, false)

/-- Number of capabilities from 0 to 37 that are dropped. -/
def capDropCount (sec : SecurityConfig) : Nat :=
  ((List.range 38).filter fun i => sec.capKeep &&& (1 <<< UInt64.ofNat i) = 0).length

/-- The end of `start_container_by_id`, with the process running but still
waiting for its trigger: publish ports, save, trigger. -/
def finishStart (o : StartOutcome) (schedule : Bool) (c : Container) (w : World) :
    Container × World × Int :=
  let fail (w : World) : Container × World × Int :=
    let (c, w, _) := stopContainerProcess o.stop 0 c w
    (c, w, -1)
  let (w, published) :=
    if c.ipAddress ≠ [] then addPortForwards o.portForward c.ipAddress 0 c.portMaps w
    else (w, true)
  if !published then fail w
  else
    let w := w.emit (.save o.save)
    if !o.save then fail w
    else if !o.trigger then fail w
    else
      let w := w.emit (.event .started c.id c.commandLine o.elapsedMs)
      let w := w.emit (.event .securityProfile c.id [] (capDropCount c.security))
      (c, if schedule then w.schedAdd o.schedRealloc c.pid else w, 0)

/-- `start_container_by_id` on the record it found. -/
def startContainer (o : StartOutcome) (schedule capture : Bool) (c : Container) (w : World) :
    Container × World × Int :=
  if c.state = .running then (c, w, -1)
  else if !o.malloc then (c, w, -1)
  else
    let c := if capture then ensureContainerLogPath c else c
    let c := { c with ipAddress := [], vethHost := [] }
    let (c, w, started) := namespaceStartContainer o.ns o.net c w
    match started with
    | none => (c, w, -1)
    | some pid =>
      let c := { c with pid := pid.val, state := .running, startedAt := o.now, exitCode := -1 }
      finishStart o schedule c w

/-! ## Work on the list -/

/-- `find_container`: by id, else by name with live containers preferred. -/
def findContainer (list : List Container) (id : Bytes) : Option Container :=
  (list.find? fun c => c.id = id).or
    ((list.find? fun c => c.name = id ∧ (c.state = .running ∨ c.state = .paused)).or
      (list.find? fun c => c.name = id))

/-- Writes a record back through its pointer. -/
def setContainer (list : List Container) (c : Container) : List Container :=
  list.map fun d => if d.ptr = c.ptr then c else d

/-- `remove_container`. -/
def removeContainer (list : List Container) (ptr : Nat) : List Container :=
  list.eraseP fun d => d.ptr = ptr

/-- Polls, looks the container up and works on its record. -/
def withContainer (poll : PollOutcome) (id : Bytes)
    (f : Container → World → Container × World × Int) (m : Manager) : Manager × Int :=
  if id = [] then (m, -1)
  else
    let m := pollStates poll m
    match findContainer m.list id with
    | none => (m, -1)
    | some c =>
      let (c, w, rc) := f c m.world
      ({ m with list := setContainer m.list c, world := w }, rc)

/-- `"container-%04d"`; an `int` never fills the 64 bytes. -/
def containerId (n : Nat) : Bytes := bytes "container-" ++ fmtPadded 4 n

/-- The string an optional C pointer gives, with a default for NULL and `""`. -/
def orDefault (s : Option Bytes) (default : Bytes) : Bytes :=
  match s with
  | some [] => default
  | some s => s
  | none => default

/-- The record `container_create` fills in before the rootfs is prepared, and
the rootfs it asks for. -/
def newContainer (o : CreateOutcome) (spec : ContainerSpec) (ptr seq : Nat) :
    Container × Bytes :=
  let id := containerId seq
  let name := copyString nameLen (orDefault spec.name id)
  let (imageRef, requested) :=
    match spec.rootfs with
    | none | some [] => ([], snprintfStr rootfsLen (bytes "./rootfs/" ++ id))
    | some ref =>
      match o.imageResolve ref with
      | some path =>
        (snprintfStr imageRefLen ref, copyString rootfsLen (snprintfStr imagePathLen path))
      | none => ([], copyString rootfsLen ref)
  ({ ptr, id, name, pid := -1
     hostname := copyString hostnameLen (orDefault spec.hostname name)
     rootfs := []
     commandLine := copyString commandLen (orDefault spec.commandLine (bytes "/bin/sh"))
     logPath := [], imageRef, resourceLimits := spec.resourceLimits
     ipAddress := [], vethHost := [], portMaps := spec.portMaps.take maxPortMaps
     -- the default profile assigned first is overwritten by the request's
     security := spec.security
     state := .created, startedAt := 0, stoppedAt := 0, exitCode := -1, oomKillCount := 0 },
   requested)

/-- `filesystem_prepare_rootfs`: the absolute path it has set up, unless that does
not fit the record. -/
def filesystemPrepareRootfs (o : CreateOutcome) (requested : Bytes) : Option Bytes :=
  (o.prepareRootfs requested).filter fun path => path.length < rootfsLen

/-- `container_create`; the id is what `out_id` receives. -/
def containerCreate (o : CreateOutcome) (spec : ContainerSpec) (m : Manager) :
    Manager × Option Bytes :=
  if !o.calloc then (m, none)
  else
    let (c, requested) := newContainer o spec m.heap m.nextSequence
    let m := { m with nextSequence := m.nextSequence + 1, heap := m.heap + 1 }
    match filesystemPrepareRootfs o requested with
    | none => (m, none)
    | some rootfs =>
      let c := { c with rootfs }
      let w := m.world.emit (.save o.save)
      if !o.save then ({ m with world := w }, none)
      else
        ({ m with list := m.list ++ [c], world := w.emit (.event .created c.id c.rootfs 0) },
          some c.id)

/-- Answers for `container_run` and `container_run_background`. -/
structure RunOutcome where
  create : CreateOutcome
  saveLogPath : Bool
  poll : PollOutcome
  start : StartOutcome
  wait : WaitOutcome

/-- `start_container_by_id`. -/
def startContainerById (poll : PollOutcome) (o : StartOutcome) (id : Bytes)
    (schedule capture : Bool) (m : Manager) : Manager × Int :=
  withContainer poll id (startContainer o schedule capture) m

/-- `container_run`. -/
def containerRun (o : RunOutcome) (spec : ContainerSpec) (m : Manager) : Manager × Option Bytes :=
  match containerCreate o.create spec m with
  | (m, none) => (m, none)
  | (m, some id) =>
    let (m, rc) := startContainerById o.poll o.start id false false m
    if rc ≠ 0 then (m, none)
    else
      match findContainer m.list id with
      | none => (m, none)
      | some c =>
        let (c, w, rc) := waitForContainerProcess o.wait c m.world
        ({ m with list := setContainer m.list c, world := w }, if rc = 0 then some id else none)

/-- The log path `container_run_background` sets before the start. -/
def recordLogPath (save : Bool) (id : Bytes) (m : Manager) : Manager :=
  match findContainer m.list id with
  | none => m
  | some c =>
    { m with
      list := setContainer m.list (ensureContainerLogPath c)
      world := m.world.emit (.save save) }

/-- `container_run_background`; `none` stands for `-1`. -/
def containerRunBackground (o : RunOutcome) (spec : ContainerSpec) (m : Manager) :
    Manager × Option Bytes :=
  match containerCreate o.create spec m with
  | (m, none) => (m, none)
  | (m, some id) =>
    let m := recordLogPath o.saveLogPath id m
    let (m, rc) := startContainerById o.poll o.start id true true m
    if rc ≠ 0 then (m, none) else (m, some id)

/-- `container_start`. -/
def containerStart (poll : PollOutcome) (o : StartOutcome) (id : Bytes) (m : Manager) :
    Manager × Int :=
  startContainerById poll o id true true m

/-- `container_stop`. -/
def containerStop (poll : PollOutcome) (o : StopOutcome) (id : Bytes) (timeoutS : Int)
    (m : Manager) : Manager × Int :=
  withContainer poll id (stopContainerProcess o timeoutS) m

/-- `container_pause` on the record it found. -/
def pauseContainer (kill save : Bool) (c : Container) (w : World) : Container × World × Int :=
  if c.state ≠ .running ∨ c.pid ≤ 0 then (c, w, -1)
  else if !kill then (c, w, -1)
  else
    ({ c with state := .paused },
      ((w.emit (.signal c.pid .stop)).emit (.save save)).emit (.event .paused c.id [] 0), 0)

/-- `container_unpause` on the record it found. -/
def unpauseContainer (kill save : Bool) (c : Container) (w : World) : Container × World × Int :=
  if c.state ≠ .paused ∨ c.pid ≤ 0 then (c, w, -1)
  else if !kill then (c, w, -1)
  else
    ({ c with state := .running },
      ((w.emit (.signal c.pid .cont)).emit (.save save)).emit (.event .unpaused c.id [] 0), 0)

/-- `container_pause`. -/
def containerPause (poll : PollOutcome) (kill save : Bool) (id : Bytes) (m : Manager) :
    Manager × Int :=
  withContainer poll id (pauseContainer kill save) m

/-- `container_unpause`. -/
def containerUnpause (poll : PollOutcome) (kill save : Bool) (id : Bytes) (m : Manager) :
    Manager × Int :=
  withContainer poll id (unpauseContainer kill save) m

/-- `container_delete`. A failed save puts the record back, at the end. -/
def containerDelete (poll : PollOutcome) (save : Bool) (id : Bytes) (m : Manager) :
    Manager × Int :=
  if id = [] then (m, -1)
  else
    let m := pollStates poll m
    match findContainer m.list id with
    | none => (m, -1)
    | some c =>
      if c.state = .running ∨ c.state = .paused then (m, -1)
      else
        let (c, w) := cleanupContainerNetwork c m.world
        let rest := removeContainer m.list c.ptr
        let w := w.emit (.save save)
        if !save then ({ m with list := rest ++ [c], world := w }, -1)
        else ({ m with list := rest, world := w.emit (.event .deleted c.id [] 0) }, 0)

/-- `container_get_info`: state and exit code. -/
def containerGetInfo (poll : PollOutcome) (id : Bytes) (m : Manager) :
    Manager × Option (ContainerState × Int) :=
  let m := pollStates poll m
  (m, (findContainer m.list id).map fun c => (c.state, c.exitCode))

/-- The number `sscanf(id, "container-%d", &value)` reads. -/
def idNumber (id : Bytes) : Option Int :=
  let p := bytes "container-"
  if p.isPrefixOf id then (scanInt (id.drop p.length)).map (·.1) else none

/-- `update_next_sequence`. -/
def updateNextSequence (next : Nat) (id : Bytes) : Nat :=
  match idNumber id with
  | some v => if v ≥ next then v.toNat + 1 else next
  | none => next

/-- The removal loop of `container_prune_all`. -/
def pruneList : List Container → World → List Container × World
  | [], w => ([], w)
  | c :: cs, w =>
    if c.state ≠ .running ∧ c.state ≠ .paused then
      pruneList cs (w.emit (.event .deleted c.id [] 0))
    else
      let (cs', w) := pruneList cs w
      (c :: cs', w)

/-- `container_prune_all`: the counter goes back to one past the highest id
still in use. -/
def containerPruneAll (poll : PollOutcome) (save : Bool) (m : Manager) : Manager :=
  let m := pollStates poll m
  let (list, w) := pruneList m.list m.world
  { m with
    list
    nextSequence := list.foldl (fun next c => updateNextSequence next c.id) 1
    world := w.emit (.save save) }

/-! ## A system on which every call succeeds -/

/-- Nothing has ended since the last poll. -/
def PollOutcome.quiet : PollOutcome :=
  { sync := fun _ => { wait := .nothing, alive := true, now := 0, oom := 0, rssMb := 0 }
    save := true }

/-- The container at this address has exited, the others have not. -/
def PollOutcome.exits (ptr : Nat) (code : Nat) : PollOutcome :=
  { sync := fun p =>
      { wait := if p = ptr then .reaped (.exited code) else .nothing
        alive := true, now := 0, oom := 0, rssMb := 0 }
    save := true }

/-- The process ends on SIGTERM. -/
def StopOutcome.clean : StopOutcome :=
  { cont := true, term := true, graceWait := fun _ => .reaped (.signaled 15), kill := .ok
    finalWait := .reaped (.signaled 9), now := 0, save := true }

def StartOutcome.clean (pid : Pid) : StartOutcome :=
  { malloc := true, ns := .ok pid, net := { bridgeUp := true, preflight := true, setupVeth := true }
    portForward := fun _ => true, save := true, trigger := true, now := 0, elapsedMs := 0
    schedRealloc := true, stop := .clean }

def CreateOutcome.clean : CreateOutcome :=
  { calloc := true, imageResolve := fun _ => none, prepareRootfs := some, save := true }

def RunOutcome.clean (pid : Pid) : RunOutcome :=
  { create := .clean, saveLogPath := true, poll := .quiet, start := .clean pid
    wait := { toContainer := .noTty, wait := .reaped (.exited 0), toShell := .noTty, alive := false,
              now := 0, save := true } }

end ContainerSim.Runtime
