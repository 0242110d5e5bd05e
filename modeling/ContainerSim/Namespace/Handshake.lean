import ContainerSim.Lib.Bytes
import ContainerSim.Lib.Pipe
import ContainerSim.Lib.Run
import Mathlib.Data.Fintype.Basic

/-!
# The startup handshake

`namespace_start_container` and `namespace_trigger_exec` in the parent,
`namespace_child` in the child, one system call at a time, over the four pipes.
What a call may answer is the label of the step: any set-up step may fail, any
read or write may come back early, be interrupted or fail, and either process
may die at any point. `log` keeps the milestones in the order in which they are
passed.

`errno`, the log descriptor and the terminal are left out. A signal sent to the
child is no step of its own: it shows when the child dies.
-/

namespace ContainerSim.Namespace

open Lib

inductive Party where
  | parent | child
  deriving DecidableEq, Repr

instance : Fintype Party := ⟨{.parent, .child}, fun p => by cases p <;> simp⟩

/-! ## What goes over the pipes -/

structure NetConfig where
  peerVeth : Vector UInt8 16
  ip : Vector UInt8 16
  gateway : Vector UInt8 16
  deriving DecidableEq

/-- The bytes of a `ContinueToken`. -/
def continueToken (ok : UInt8) (net : NetConfig) : Bytes :=
  ok :: (net.peerVeth.toList ++ (net.ip.toList ++ net.gateway.toList))

/-- `sizeof(ContinueToken)`. -/
def tokenSize : Nat := 49

@[simp] theorem continueToken_length (ok : UInt8) (net : NetConfig) :
    (continueToken ok net).length = tokenSize := by
  simp [continueToken, tokenSize]

/-- The bytes of an `int`. -/
def intBytes (x : UInt32) : Bytes :=
  [x.toUInt8, (x >>> 8).toUInt8, (x >>> 16).toUInt8, (x >>> 24).toUInt8]

/-- The bytes of a `NamespaceStatus`. -/
def statusBytes (ready errorNumber namespacePid : UInt32) : Bytes :=
  intBytes ready ++ (intBytes errorNumber ++ intBytes namespacePid)

/-- `sizeof(NamespaceStatus)`. -/
def statusSize : Nat := 12

@[simp] theorem statusBytes_length (ready errorNumber namespacePid : UInt32) :
    (statusBytes ready errorNumber namespacePid).length = statusSize := rfl

/-- `status.ready == 0`: an `int` is zero when its bytes are. -/
def NotReady (status : Bytes) : Prop := status.take 4 = [0, 0, 0, 0]

instance (status : Bytes) : Decidable (NotReady status) := by unfold NotReady; infer_instance

/-- The byte `'1'`. -/
def yes : UInt8 := 49

def EPROTO : UInt32 := 71

/-! ## The two programs -/

/-- The set-up steps of the child that can fail, in order. -/
inductive SetupStep where
  | credentials | hostname | rootfs | procMount | loopback | argv | limits | processGroup
  deriving DecidableEq, Repr

def setupSteps : List SetupStep :=
  [.credentials, .hostname, .rootfs, .procMount, .loopback, .argv, .limits, .processGroup]

/-- `RESOURCE_ERROR_BASE`. -/
def resourceErrorBase : UInt32 := 10000

/-- The `error_number` for a failed step. -/
def SetupStep.error (step : SetupStep) (errno : UInt32) : UInt32 :=
  if step = .limits then resourceErrorBase + errno else errno

inductive ParentPc where
  /-- up to `clone` -/
  | opening
  /-- closes its copies of the child's ends -/
  | closing
  | mapping
  | networking
  /-- in the loop that writes the token -/
  | sending (net : NetConfig) (total : Nat)
  | sent
  /-- in the loop of `read_status` -/
  | receiving (got : Bytes)
  /-- no status, or not ready -/
  | abandoning
  /-- at `fail_kill` -/
  | killing
  | waiting
  /-- returned -1 without a child -/
  | refused
  /-- returned -1 after `clone` -/
  | failed
  /-- returned 0 -/
  | started
  /-- in `read_exec_status` -/
  | checking
  /-- `namespace_trigger_exec` returned -/
  | triggered (rc : Int)
  | dead
  deriving DecidableEq

inductive ChildPc where
  | unborn
  /-- in the loop that reads the token -/
  | reading (got : Bytes)
  | setup (todo : List SetupStep)
  /-- about to write a status with this error -/
  | reporting (errorNumber : UInt32)
  /-- about to write the ready status -/
  | announcing
  /-- reads the trigger -/
  | awaiting
  /-- about to call `execvp` -/
  | launching
  /-- `execvp` has failed -/
  | execFailed (errno : UInt32)
  | exiting
  /-- `execvp` has succeeded -/
  | command
  | zombie
  | reaped
  deriving DecidableEq

/-- The milestones of a start. -/
inductive Milestone where
  /-- `net_setup` returned 0, or there is none -/
  | network
  /-- all of a token with `ok = '1'` is written -/
  | token
  /-- the child has written its ready status -/
  | announced
  /-- the parent has read it -/
  | ready
  /-- the trigger byte is written -/
  | trigger
  /-- the child calls `execvp` -/
  | execvp
  /-- and it succeeds -/
  | executed
  deriving DecidableEq, Repr

structure Handshake where
  parent : ParentPc
  child : ChildPc
  status : Pipe Party UInt8
  exec : Pipe Party UInt8
  cont : Pipe Party UInt8
  trig : Pipe Party UInt8
  log : List Milestone

namespace Handshake

def init : Handshake :=
  { parent := .opening, child := .unborn, status := .fresh .parent, exec := .fresh .parent
    cont := .fresh .parent, trig := .fresh .parent, log := [] }

def reach (s : Handshake) (e : Milestone) : Handshake := { s with log := s.log ++ [e] }

/-- A process has ended. -/
def leave (s : Handshake) (i : Party) : Handshake :=
  { s with
    status := s.status.leave i, exec := s.exec.leave i, cont := s.cont.leave i
    trig := s.trig.leave i }

/-- The child's copy of the descriptors. -/
def fork (s : Handshake) : Handshake :=
  { s with
    status := s.status.fork .parent .child, exec := s.exec.fork .parent .child
    cont := s.cont.fork .parent .child, trig := s.trig.fork .parent .child }

end Handshake

/-! ## Steps -/

inductive ParentAct where
  /-- the call succeeds -/
  | ok
  | fail
  /-- a signal handler has run -/
  | intr
  /-- `net_setup` returns 0 with `cfg` filled -/
  | net (cfg : NetConfig)
  /-- a read or write of this many bytes -/
  | io (k : Nat)
  | eof
  | die

def parentStep (s : Handshake) (a : ParentAct) : Option Handshake :=
  match s.parent, a with
  | .opening, .ok => some { s.fork with parent := .closing, child := .reading [] }
  | .opening, .fail => some { s.leave .parent with parent := .refused }
  | .closing, .ok =>
    some
      { s with
        exec := s.exec.closeWrite .parent, status := s.status.closeWrite .parent
        cont := s.cont.closeRead .parent, trig := s.trig.closeRead .parent, parent := .mapping }
  | .mapping, .ok => some { s with parent := .networking }
  | .mapping, .fail => some { s with parent := .killing }
  | .networking, .net cfg => some { s.reach .network with parent := .sending cfg 0 }
  | .networking, .fail => some { s with parent := .killing }
  | .sending net total, .io k =>
    if 0 < k ∧ total + k ≤ tokenSize ∧ s.cont.HasReader then
      let s := { s with cont := s.cont.write (((continueToken yes net).drop total).take k) }
      if total + k = tokenSize then some { s.reach .token with parent := .sent }
      else some { s with parent := .sending net (total + k) }
    else none
  | .sending _ _, .fail => some { s with parent := .killing }
  | .sending _ _, .intr => some s
  | .sent, .ok => some { s with cont := s.cont.closeWrite .parent, parent := .receiving [] }
  | .receiving got, .io k =>
    if 0 < k ∧ k ≤ statusSize - got.length ∧ k ≤ s.status.buf.length then
      let (xs, status) := s.status.read k
      let got := got ++ xs
      if got.length < statusSize then some { s with status, parent := .receiving got }
      else if NotReady got then some { s with status, parent := .abandoning }
      else some { s.reach .ready with status := status.closeRead .parent, parent := .started }
    else none
  | .receiving _, .eof => if s.status.AtEof then some { s with parent := .abandoning } else none
  | .receiving _, .fail => some { s with parent := .abandoning }
  | .receiving _, .intr => some s
  | .abandoning, .ok =>
    some
      { s with
        status := s.status.closeRead .parent, trig := s.trig.closeWrite .parent
        exec := s.exec.closeRead .parent, parent := .waiting }
  | .killing, .ok =>
    some
      { s with
        cont := s.cont.closeWrite .parent, trig := s.trig.closeWrite .parent
        exec := s.exec.closeRead .parent, status := s.status.closeRead .parent
        parent := .waiting }
  | .waiting, .ok =>
    if s.child = .zombie then some { s with child := .reaped, parent := .failed } else none
  -- the result of `waitpid` is not looked at
  | .waiting, .intr => some { s with parent := .failed }
  | .started, .ok =>
    if s.trig.HasReader then
      some { s.reach .trigger with trig := (s.trig.write [yes]).closeWrite .parent, parent := .checking }
    else none
  | .started, .fail | .started, .intr =>
    some
      { s with
        trig := s.trig.closeWrite .parent, exec := s.exec.closeRead .parent
        parent := .triggered (-1) }
  | .checking, .io k =>
    if 0 < k ∧ k ≤ 4 ∧ k ≤ s.exec.buf.length then
      some { s with exec := (s.exec.read k).2.closeRead .parent, parent := .triggered (-1) }
    else none
  | .checking, .eof =>
    if s.exec.AtEof then some { s with exec := s.exec.closeRead .parent, parent := .triggered 0 }
    else none
  | .checking, .fail => some { s with exec := s.exec.closeRead .parent, parent := .triggered (-1) }
  | .checking, .intr => some s
  | .dead, .die => none
  | _, .die => some { s.leave .parent with parent := .dead }
  | _, _ => none

inductive ChildAct where
  | ok
  | fail (errno : UInt32)
  | intr
  | io (k : Nat)
  | eof
  | die

/-- The child has ended, or there is none. -/
def ChildPc.Gone : ChildPc → Prop
  | .unborn | .zombie | .reaped => True
  | _ => False

instance (pc : ChildPc) : Decidable pc.Gone := by
  unfold ChildPc.Gone; cases pc <;> infer_instance

def childStep (s : Handshake) (a : ChildAct) : Option Handshake :=
  match s.child, a with
  | .reading got, .io k =>
    if 0 < k ∧ k ≤ tokenSize - got.length ∧ k ≤ s.cont.buf.length then
      let (xs, cont) := s.cont.read k
      let got := got ++ xs
      if got.length < tokenSize then some { s with cont, child := .reading got }
      else
        some
          { s with
            cont := cont.closeRead .child
            child := if got.head? = some yes then .setup setupSteps else .reporting EPROTO }
    else none
  | .reading _, .eof =>
    if s.cont.AtEof then
      some { s with cont := s.cont.closeRead .child, child := .reporting EPROTO }
    else none
  | .reading _, .fail _ =>
    some { s with cont := s.cont.closeRead .child, child := .reporting EPROTO }
  | .reading _, .intr => some s
  | .setup (_ :: todo), .ok => some { s with child := .setup todo }
  | .setup (step :: _), .fail errno => some { s with child := .reporting (step.error errno) }
  | .setup [], .ok => some { s with child := .announcing }
  | .reporting e, .io k =>
    if 0 < k ∧ k ≤ statusSize ∧ s.status.HasReader then
      let msg := statusBytes 0 e (-1)
      some { s with status := (s.status.write (msg.take k)).closeWrite .child, child := .exiting }
    else none
  | .reporting _, .fail _ =>
    some { s with status := s.status.closeWrite .child, child := .exiting }
  | .announcing, .io k =>
    if 0 < k ∧ k ≤ statusSize ∧ s.status.HasReader then
      let msg := statusBytes 1 0 1
      let s := { s with status := (s.status.write (msg.take k)).closeWrite .child, child := .awaiting }
      some (if k = statusSize then s.reach .announced else s)
    else none
  | .announcing, .fail _ =>
    some { s with status := s.status.closeWrite .child, child := .awaiting }
  | .awaiting, .io k =>
    if k = 1 ∧ k ≤ s.trig.buf.length then
      let (xs, trig) := s.trig.read k
      some
        { s with
          trig := trig.closeRead .child, child := if xs = [yes] then .launching else .exiting }
    else none
  | .awaiting, .eof =>
    if s.trig.AtEof then some { s with trig := s.trig.closeRead .child, child := .exiting }
    else none
  | .awaiting, .fail _ => some { s with trig := s.trig.closeRead .child, child := .exiting }
  | .awaiting, .intr => some s
  -- `exec_pipe[1]` is closed on a successful `execvp`
  | .launching, .ok =>
    some
      { (s.reach .execvp).reach .executed with
        exec := s.exec.closeWrite .child, child := .command }
  | .launching, .fail errno => some { s.reach .execvp with child := .execFailed errno }
  | .execFailed errno, .io k =>
    if 0 < k ∧ k ≤ 4 ∧ s.exec.HasReader then
      let msg := intBytes errno
      some { s with exec := (s.exec.write (msg.take k)).closeWrite .child, child := .exiting }
    else none
  | .execFailed _, .fail _ =>
    some { s with exec := s.exec.closeWrite .child, child := .exiting }
  | .exiting, .ok => some { s.leave .child with child := .zombie }
  | pc, .die => if pc.Gone then none else some { s.leave .child with child := .zombie }
  | _, _ => none

inductive Act where
  | parent (a : ParentAct)
  | child (a : ChildAct)

def handshakeStep (s : Handshake) : Act → Option Handshake
  | .parent a => parentStep s a
  | .child a => childStep s a

end ContainerSim.Namespace
