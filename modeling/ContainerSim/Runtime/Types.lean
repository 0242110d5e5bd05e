import ContainerSim.Lib.Decimal
import ContainerSim.Sched.Scheduler

/-!
# The container manager: data

The records of `container.h`, the process-wide state the manager works on, and
the answers of the operating system. Every system call whose result the code
looks at is a field of an outcome record handed to the operation, so an
operation is a function and "any outcome of the system calls" is a quantifier
over these records.

A `Container *` is the number `ptr`: `calloc` hands out a fresh one each time.
Fields that only feed console output (the stack pointer) are left out, and
`network_error`, which only the web API reads back, comes with the record there.
-/

namespace ContainerSim.Runtime

open Lib Sched

def idLen : Nat := 64
def nameLen : Nat := 64
def hostnameLen : Nat := 64
def rootfsLen : Nat := 512
def commandLen : Nat := 256
def logPathLen : Nat := 256
def imageRefLen : Nat := 98
def imagePathLen : Nat := 512
def maxPortMaps : Nat := 8

inductive ContainerState where
  | created | running | paused | stopped
  deriving DecidableEq, Repr

structure ResourceConfig where
  cpuSeconds : UInt32
  memoryMb : UInt32
  maxProcesses : UInt32
  deriving DecidableEq, Repr

structure SecurityConfig where
  privileged : Int
  readonlyRootfs : Int
  capKeep : UInt64
  seccompEnabled : Int
  deriving DecidableEq, Repr

/-- `SECURITY_CAP_DEFAULT_KEEP`: the capability numbers kept by default. -/
def capDefaultKeepBits : List Nat := [0, 1, 3, 4, 5, 6, 7, 8, 10, 13, 18, 27, 29, 31]

def capDefaultKeep : UInt64 :=
  capDefaultKeepBits.foldl (fun mask n => mask ||| (1 <<< UInt64.ofNat n)) 0

def securityConfigDefault : SecurityConfig :=
  { privileged := 0, readonlyRootfs := 0, capKeep := capDefaultKeep, seccompEnabled := 1 }

/-- The `SecurityConfig` a `memset` to zero leaves. -/
def SecurityConfig.zero : SecurityConfig :=
  { privileged := 0, readonlyRootfs := 0, capKeep := 0, seccompEnabled := 0 }

structure PortMapping where
  hostPort : UInt16
  containerPort : UInt16
  proto : Bytes
  deriving DecidableEq, Repr

/-- A creation request; `none` is a NULL pointer. -/
structure ContainerSpec where
  name : Option Bytes
  hostname : Option Bytes
  rootfs : Option Bytes
  commandLine : Option Bytes
  resourceLimits : ResourceConfig
  security : SecurityConfig
  portMaps : List PortMapping
  deriving DecidableEq, Repr

/-- The `ContainerSpec` a `memset` to zero leaves. -/
def ContainerSpec.zero : ContainerSpec :=
  { name := none, hostname := none, rootfs := none, commandLine := none
    resourceLimits := ⟨0, 0, 0⟩, security := .zero, portMaps := [] }

structure Container where
  /-- the address of the record -/
  ptr : Nat
  id : Bytes
  name : Bytes
  pid : Int
  hostname : Bytes
  rootfs : Bytes
  commandLine : Bytes
  logPath : Bytes
  imageRef : Bytes
  resourceLimits : ResourceConfig
  ipAddress : Bytes
  vethHost : Bytes
  portMaps : List PortMapping
  security : SecurityConfig
  state : ContainerState
  startedAt : Int
  stoppedAt : Int
  exitCode : Int
  oomKillCount : Int
  deriving DecidableEq, Repr

/-! ## The world outside the list -/

inductive Signal where
  | term | kill | stop | cont
  deriving DecidableEq, Repr

inductive EventType where
  | created | started | stopped | deleted | paused | unpaused | oomKill | securityProfile
  deriving DecidableEq, Repr

/-- What the manager does to the rest of the system, in order. -/
inductive Effect where
  /-- `namespace_start_container` returned this process for the container -/
  | started (id : Bytes) (pid : Int)
  /-- `waitpid` returned the process -/
  | reaped (pid : Int)
  /-- the manager was told that the process is gone or no child of it -/
  | foundDead (pid : Int)
  | signal (pid : Int) (sig : Signal)
  | event (type : EventType) (id detail : Bytes) (value : Int)
  | setupVeth (host : Bytes)
  | teardownVeth (host : Bytes)
  | addPortForward (pm : PortMapping) (ip : Bytes)
  | delPortForward (pm : PortMapping) (ip : Bytes)
  | save (ok : Bool)
  deriving DecidableEq, Repr

structure World where
  sched : SchedulerState
  /-- `g_next_ip_host` of the bridge -/
  nextIpHost : Int
  trace : List Effect
  deriving DecidableEq, Repr

def World.emit (w : World) (e : Effect) : World := { w with trace := w.trace ++ [e] }

def World.init : World := { sched := .init, nextIpHost := 2, trace := [] }

/-- `head .. tail`, `next_sequence`, the allocator and the rest. -/
structure Manager where
  list : List Container
  nextSequence : Nat
  heap : Nat
  world : World
  deriving DecidableEq, Repr

def Manager.init : Manager := { list := [], nextSequence := 1, heap := 0, world := .init }

/-! ## Answers of the system -/

/-- A process id as `clone` returns it to the parent. -/
structure Pid where
  val : Int
  pos : 0 < val

def Pid.ofNat (n : Nat) : Pid := ⟨max n 1, by omega⟩

inductive WaitStatus where
  | exited (code : Nat)
  | signaled (sig : Nat)
  deriving DecidableEq, Repr

/-- Result of a `waitpid` call: the process, `0`, or an error. -/
inductive WaitRes where
  | reaped (status : WaitStatus)
  | nothing
  | echild
  | eintr
  | error
  deriving DecidableEq, Repr

inductive KillRes where
  | ok | esrch | error
  deriving DecidableEq, Repr

/-- For one record in `poll_states`. -/
structure SyncOutcome where
  wait : WaitRes
  alive : Bool
  now : Int
  oom : Int
  rssMb : Int

/-- For one `poll_states`: the answers for each record, by address, and the
final save. -/
structure PollOutcome where
  sync : Nat → SyncOutcome
  save : Bool

/-- For one `stop_container_process`. -/
structure StopOutcome where
  cont : Bool
  term : Bool
  /-- the `k`-th `WNOHANG` poll of the grace period -/
  graceWait : Nat → WaitRes
  kill : KillRes
  finalWait : WaitRes
  now : Int
  save : Bool

/-- For one `container_net_setup`. -/
structure NetOutcome where
  bridgeUp : Bool
  preflight : Bool
  setupVeth : Bool

/-- For one `namespace_start_container`. -/
inductive NsOutcome where
  /-- pipes, `clone` or the user namespace failed, before network set-up -/
  | failBefore
  /-- the child was set up no further after network set-up -/
  | failAfter
  | ok (pid : Pid)

/-- For one `start_container_by_id` after its poll. -/
structure StartOutcome where
  malloc : Bool
  ns : NsOutcome
  net : NetOutcome
  /-- the `i`-th `bridge_add_port_forward` -/
  portForward : Nat → Bool
  save : Bool
  trigger : Bool
  now : Int
  elapsedMs : Nat
  /-- `realloc` in `scheduler_add_target` -/
  schedRealloc : Bool
  /-- the stop on the error paths -/
  stop : StopOutcome

/-- For one `container_create`. -/
structure CreateOutcome where
  calloc : Bool
  imageResolve : Bytes → Option Bytes
  prepareRootfs : Bytes → Option Bytes
  save : Bool

/-- What one `move_terminal_foreground` comes upon. -/
inductive TerminalRes where
  /-- stdin is no terminal; `isatty` has set `errno` -/
  | noTty
  /-- `tcsetpgrp` worked -/
  | moved
  /-- `tcsetpgrp` failed and has set `errno` -/
  | refused
  deriving DecidableEq, Repr

/-- It returns 0. -/
def TerminalRes.done : TerminalRes → Bool
  | .noTty | .moved => true
  | .refused => false

/-- It leaves `errno` as it was. -/
def TerminalRes.keepsErrno : TerminalRes → Bool
  | .moved => true
  | .noTty | .refused => false

/-- For one `wait_for_container_process`. -/
structure WaitOutcome where
  /-- the terminal goes to the container -/
  toContainer : TerminalRes
  wait : WaitRes
  /-- and back to the shell -/
  toShell : TerminalRes
  alive : Bool
  now : Int
  save : Bool

end ContainerSim.Runtime
