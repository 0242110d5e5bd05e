import ContainerSim.Runtime.Signals

/-!
# The scheduler thread beside the command line

The container list and the target table are two stores. `container_pause`
writes the first one only, so a PAUSED container can be a target, and the
thread then continues its process. A step of the system is an operation of the
command line, or one of the three parts of an iteration of the thread: the
locked section, the SIGSTOP and the SIGCONT.
-/

namespace ContainerSim.Sched

open Lib ContainerSim.Runtime

/-- Where the thread is between two of its steps. -/
inductive ThreadPc where
  | off
  /-- before the locked section -/
  | top
  | stop (current next : Int)
  | cont (next : Int)
  deriving DecidableEq, Repr

/-- The process the thread has picked and not yet continued. -/
def ThreadPc.picked : ThreadPc → Option Int
  | .stop _ next => some next
  | .cont next => some next
  | _ => none

/-- Where the command line is in `sched on` or `sched off`. -/
inductive SchedCmd where
  | idle | enable | refresh
  deriving DecidableEq, Repr

structure SchedSys where
  mgr : Manager
  thread : ThreadPc
  cmd : SchedCmd
  /-- SIGCONTs sent by the thread and by `container_scheduler_refresh_targets`
  while the process was that of a PAUSED container; not part of the program -/
  woken : List Int
  deriving DecidableEq, Repr

def SchedSys.init (m : Manager) : SchedSys := { mgr := m, thread := .off, cmd := .idle, woken := [] }

def pausedPid (list : List Container) (pid : Int) : Bool :=
  list.any fun c => c.state = .paused ∧ c.pid = pid

namespace SchedSys

def setSched (s : SchedSys) (sched : SchedulerState) : SchedSys :=
  { s with mgr := { s.mgr with world := { s.mgr.world with sched } } }

def signalAll (sig : Signal) (pids : List Int) (s : SchedSys) : SchedSys :=
  { s with mgr := { s.mgr with
      world := pids.foldl (fun w pid => w.emit (.signal pid sig)) s.mgr.world } }

/-- SIGCONT to each of these. -/
def contAll (pids : List Int) (s : SchedSys) : SchedSys :=
  { s.signalAll .cont pids with woken := s.woken ++ pids.filter (pausedPid s.mgr.list) }

end SchedSys

/-! ## `sched on` and `sched off` -/

/-- The pids of the RUNNING containers. -/
def runningPids (list : List Container) : List Int :=
  (list.filter fun c => c.state = .running ∧ 0 < c.pid).map Container.pid

/-- Whom `container_scheduler_refresh_targets` stops and whom it continues. -/
def refreshSignals (enabled : Bool) : List Int → List Int × List Int
  | [] => ([], [])
  | first :: rest =>
    if enabled then ((first :: rest).filter (· ≠ first), [first]) else ([], first :: rest)

/-- `container_scheduler_refresh_targets`. -/
def containerSchedulerRefreshTargets (realloc : Int → Bool) (s : SchedSys) : SchedSys :=
  let running := runningPids s.mgr.list
  let sched := running.foldl (fun sched pid => schedulerAddTarget (realloc pid) pid sched)
    (schedulerClearTargets s.mgr.world.sched)
  let (stops, conts) := refreshSignals s.mgr.world.sched.enabled running
  ((s.setSched sched).signalAll .stop stops).contAll conts

theorem signalAll_sched (sig : Signal) (pids : List Int) (s : SchedSys) :
    (s.signalAll sig pids).mgr.world.sched = s.mgr.world.sched := by
  show (pids.foldl (fun w pid => w.emit (.signal pid sig)) s.mgr.world).sched = _
  induction pids generalizing s with
  | nil => rfl
  | cons pid pids ih => exact ih (s.signalAll sig [pid])

theorem sched_contAll (pids : List Int) (s : SchedSys) :
    (s.contAll pids).mgr.world.sched = s.mgr.world.sched := signalAll_sched .cont pids s

theorem refreshTargets_sched (realloc : Int → Bool) (s : SchedSys) :
    (containerSchedulerRefreshTargets realloc s).mgr.world.sched =
      (runningPids s.mgr.list).foldl (fun s p => schedulerAddTarget (realloc p) p s)
        (schedulerClearTargets s.mgr.world.sched) := by
  unfold containerSchedulerRefreshTargets
  rw [sched_contAll, signalAll_sched]
  rfl

/-- `sched on` up to `scheduler_start`. -/
def beginOn (create : Bool) (s : SchedSys) : SchedSys :=
  let sched := s.mgr.world.sched
  let slice := if sched.timeSliceMs = 0 then 200 else sched.timeSliceMs
  let (sched', rc) := schedulerStart slice create sched
  if rc ≠ 0 then s.setSched sched'
  else
    { s.setSched sched' with
      thread := if sched.threadStarted then s.thread else .top
      cmd := .enable }

/-- `sched off` up to its refresh. -/
def beginOff (s : SchedSys) : SchedSys :=
  { s.setSched (schedulerSetEnabled false s.mgr.world.sched) with cmd := .refresh }

def cmdStep (realloc : Int → Bool) (s : SchedSys) : Option SchedSys :=
  match s.cmd with
  | .idle => none
  | .enable => some { s.setSched (schedulerSetEnabled true s.mgr.world.sched) with cmd := .refresh }
  | .refresh => some { containerSchedulerRefreshTargets realloc s with cmd := .idle }

/-! ## The thread -/

/-- A step of `scheduler_thread_main`. -/
def threadStep (alive : Int → Bool) (s : SchedSys) : Option SchedSys :=
  match s.thread with
  | .off => none
  | .top =>
    if s.mgr.world.sched.stopRequested then some { s with thread := .off }
    else
      match schedulerLocked alive s.mgr.world.sched with
      | (sched, .resumeAll pids) => some ((s.setSched sched).contAll pids)
      | (sched, .rotate current next) => some { s.setSched sched with thread := .stop current next }
  | .stop current next =>
    some { s.signalAll .stop (if 0 < current then [current] else []) with thread := .cont next }
  | .cont next => some { s.contAll (if 0 < next then [next] else []) with thread := .top }

inductive SchedAction where
  | life (a : LifeAction)
  | on (create : Bool)
  | off
  | slice (ms : Nat)
  | cmd (realloc : Int → Bool)
  | thread (alive : Int → Bool)

/-- The command line takes up one command after the other. -/
def schedStep (s : SchedSys) : SchedAction → Option SchedSys
  | .life a => if s.cmd = .idle then (lifeStep s.mgr a).map fun m => { s with mgr := m } else none
  | .on create => if s.cmd = .idle then some (beginOn create s) else none
  | .off => if s.cmd = .idle then some (beginOff s) else none
  | .slice ms =>
    if s.cmd = .idle then some (s.setSched (schedulerSetTimeSliceMs ms s.mgr.world.sched).1)
    else none
  | .cmd realloc => cmdStep realloc s
  | .thread alive => threadStep alive s

/-- `clone` hands out unused pids. -/
def SchedAction.fresh (s : SchedSys) : SchedAction → Prop
  | .life a => pidFresh s.mgr a
  | _ => True

instance (s : SchedSys) (a : SchedAction) : Decidable (a.fresh s) := by
  cases a <;> unfold SchedAction.fresh <;> infer_instance

end ContainerSim.Sched
