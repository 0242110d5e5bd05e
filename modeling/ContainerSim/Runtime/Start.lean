import ContainerSim.Runtime.Appends

/-!
# The ways through a start

`start_container_by_id` on a record: refused by its guards, without a process,
or with one, and then either published, saved and triggered or stopped again.
The two relations have one constructor for each way.
-/

namespace ContainerSim.Runtime

open Lib Sched

/-- The record as `namespace_start_container` gets it. -/
def Container.cleared (capture : Bool) (c : Container) : Container :=
  { (if capture then ensureContainerLogPath c else c) with ipAddress := [], vethHost := [] }

/-- The record with its new process. -/
def Container.launched (o : StartOutcome) (pid : Pid) (c : Container) : Container :=
  { c with pid := pid.val, state := .running, startedAt := o.now, exitCode := -1 }

/-- The port-forward loop of a start; it has nothing to do without an address. -/
def publish (o : StartOutcome) (c : Container) (w : World) : World × Bool :=
  if c.ipAddress ≠ [] then addPortForwards o.portForward c.ipAddress 0 c.portMaps w else (w, true)

theorem publish_appends (o : StartOutcome) (c : Container) (w : World) :
    Appends Effect.OfNetwork w (publish o c w).1 := by
  unfold publish
  split
  · exact addPortForwards_appends _ _ _ _ w
  · exact .refl w

/-- The start is taken back: its process is stopped. -/
def takenBack (o : StartOutcome) (c : Container) (w : World) : Container × World × Int :=
  ((stopContainerProcess o.stop 0 c w).1, (stopContainerProcess o.stop 0 c w).2.1, -1)

/-- The world after a start that goes through. -/
def announced (o : StartOutcome) (schedule : Bool) (c : Container) (w : World) : World :=
  let w := (w.emit (.event .started c.id c.commandLine o.elapsedMs)).emit
    (.event .securityProfile c.id [] (capDropCount c.security))
  if schedule then w.schedAdd o.schedRealloc c.pid else w

theorem announced_trace (o : StartOutcome) (schedule : Bool) (c : Container) (w : World) :
    (announced o schedule c w).trace =
      ((w.emit (.event .started c.id c.commandLine o.elapsedMs)).emit
        (.event .securityProfile c.id [] (capDropCount c.security))).trace := by
  unfold announced
  cases schedule <;> rfl

inductive FinishMove (o : StartOutcome) (schedule : Bool) (c : Container) (w : World) :
    Container × World × Int → Prop where
  | unpublished (hpub : (publish o c w).2 = false) :
      FinishMove o schedule c w (takenBack o c (publish o c w).1)
  | undone (hfail : o.save = false ∨ o.trigger = false) :
      FinishMove o schedule c w (takenBack o c ((publish o c w).1.emit (.save o.save)))
  | done (hpub : (publish o c w).2 = true) (hsave : o.save = true) (htrigger : o.trigger = true) :
      FinishMove o schedule c w
        (c, announced o schedule c ((publish o c w).1.emit (.save o.save)), 0)

theorem finishStart_move (o : StartOutcome) (schedule : Bool) (c : Container) (w : World) :
    FinishMove o schedule c w (finishStart o schedule c w) := by
  have hpublish : (if c.ipAddress ≠ [] then
      addPortForwards o.portForward c.ipAddress 0 c.portMaps w else (w, true)) =
        publish o c w := rfl
  unfold finishStart
  simp only
  rw [hpublish]
  split
  · rename_i hpub
    exact .unpublished (by simpa using hpub)
  rename_i hpub
  split
  · rename_i hsave
    exact .undone (.inl (by simpa using hsave))
  rename_i hsave
  split
  · rename_i htrigger
    exact .undone (.inr (by simpa using htrigger))
  · rename_i htrigger
    exact .done (by simpa using hpub) (by simpa using hsave) (by simpa using htrigger)

inductive StartMove (o : StartOutcome) (schedule capture : Bool) (c : Container) (w : World) :
    Container × World × Int → Prop where
  /-- RUNNING already, or no memory -/
  | refused : StartMove o schedule capture c w (c, w, -1)
  | noProcess {r : Container × World × Option Pid} (hstate : c.state ≠ .running)
      (hmalloc : o.malloc = true)
      (hns : namespaceStartContainer o.ns o.net (c.cleared capture) w = r) (hnone : r.2.2 = none) :
      StartMove o schedule capture c w (r.1, r.2.1, -1)
  | finish {r : Container × World × Option Pid} {pid : Pid} (hstate : c.state ≠ .running)
      (hmalloc : o.malloc = true)
      (hns : namespaceStartContainer o.ns o.net (c.cleared capture) w = r)
      (hpid : r.2.2 = some pid) :
      StartMove o schedule capture c w (finishStart o schedule (r.1.launched o pid) r.2.1)

theorem startContainer_move (o : StartOutcome) (schedule capture : Bool) (c : Container)
    (w : World) :
    StartMove o schedule capture c w (startContainer o schedule capture c w) := by
  unfold startContainer
  split
  · exact .refused
  rename_i hstate
  split
  · exact .refused
  rename_i hmalloc
  have hmalloc : o.malloc = true := by simpa using hmalloc
  simp only
  generalize hns : namespaceStartContainer o.ns o.net
    { (if capture then ensureContainerLogPath c else c) with ipAddress := [], vethHost := [] } w = r
  cases hr : r.2.2 with
  | none => exact .noProcess hstate hmalloc hns hr
  | some pid => exact .finish hstate hmalloc hns hr

/-- Past the guards. -/
theorem startContainer_eq (o : StartOutcome) (schedule capture : Bool) {c : Container} (w : World)
    (hstate : c.state ≠ .running) (hmalloc : o.malloc = true) :
    startContainer o schedule capture c w =
      match (namespaceStartContainer o.ns o.net (c.cleared capture) w).2.2 with
      | none =>
        ((namespaceStartContainer o.ns o.net (c.cleared capture) w).1,
          (namespaceStartContainer o.ns o.net (c.cleared capture) w).2.1, -1)
      | some pid =>
        finishStart o schedule
          ((namespaceStartContainer o.ns o.net (c.cleared capture) w).1.launched o pid)
          (namespaceStartContainer o.ns o.net (c.cleared capture) w).2.1 := by
  unfold startContainer
  rw [if_neg hstate, if_neg (by simp [hmalloc])]
  rfl

end ContainerSim.Runtime
