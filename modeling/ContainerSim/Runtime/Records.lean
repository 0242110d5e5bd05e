import ContainerSim.Runtime.Lists
import ContainerSim.Runtime.Start

/-!
# What the operations do to a record

A process that `namespace_start_container` handed out stays on the books
(`outstanding`) until the manager reaps it or finds it dead. Every operation
on a record is described once, by `RecStep`: which fields it keeps, that state
and pid still agree, and that a process it leaves on the books is still the
pid of the record. The list level and the runs only use that description.
-/

namespace ContainerSim.Runtime

open Lib Sched

/-! ## The books -/

/-- Effect on the list of processes still to be accounted for. -/
def outstandingStep (out : List (Bytes × Int)) : Effect → List (Bytes × Int)
  | .started id pid => out ++ [(id, pid)]
  | .reaped pid => out.filter fun p => p.2 ≠ pid
  | .foundDead pid => out.filter fun p => p.2 ≠ pid
  | _ => out

/-- The processes handed out and since then neither reaped nor found dead, with
the id of their container. -/
def outstanding (trace : List Effect) : List (Bytes × Int) :=
  trace.foldl outstandingStep []

@[simp] theorem outstanding_emit (w : World) (e : Effect) :
    outstanding (w.emit e).trace = outstandingStep (outstanding w.trace) e := by
  simp [outstanding, World.emit]

@[simp] theorem trace_schedRemove (w : World) (pid : Int) :
    (w.schedRemove pid).trace = w.trace := rfl

@[simp] theorem trace_schedAdd (w : World) (r : Bool) (pid : Int) :
    (w.schedAdd r pid).trace = w.trace := rfl

/-- State and pid agree. -/
def PidOk (c : Container) : Prop :=
  ((c.state = .running ∨ c.state = .paused) → 0 < c.pid) ∧
  ((c.state = .created ∨ c.state = .stopped) → c.pid = -1)

/-- The record stands for a process. -/
def Live (c : Container) : Prop := c.state = .running ∨ c.state = .paused

instance (c : Container) : Decidable (Live c) := by unfold Live; infer_instance

/-- The fields that no operation on an existing record changes. -/
structure Same (c c' : Container) : Prop where
  ptr : c'.ptr = c.ptr
  id : c'.id = c.id
  name : c'.name = c.name
  hostname : c'.hostname = c.hostname
  rootfs : c'.rootfs = c.rootfs
  commandLine : c'.commandLine = c.commandLine
  imageRef : c'.imageRef = c.imageRef
  resourceLimits : c'.resourceLimits = c.resourceLimits
  portMaps : c'.portMaps = c.portMaps
  security : c'.security = c.security

theorem Same.refl (c : Container) : Same c c := by constructor <;> rfl

theorem Same.trans {c c' c'' : Container} (h : Same c c') (h' : Same c' c'') : Same c c'' := by
  constructor
  · exact h'.ptr.trans h.ptr
  · exact h'.id.trans h.id
  · exact h'.name.trans h.name
  · exact h'.hostname.trans h.hostname
  · exact h'.rootfs.trans h.rootfs
  · exact h'.commandLine.trans h.commandLine
  · exact h'.imageRef.trans h.imageRef
  · exact h'.resourceLimits.trans h.resourceLimits
  · exact h'.portMaps.trans h.portMaps
  · exact h'.security.trans h.security

/-- What an operation does to a record and to the books: a process it leaves on
the books was there before and is not one the record gave up, or it is the one
the record now holds. -/
structure RecStep (c : Container) (w : World) (c' : Container) (w' : World) : Prop where
  same : Same c c'
  pidOk : PidOk c → PidOk c'
  books : ∀ p ∈ outstanding w'.trace,
    (p ∈ outstanding w.trace ∧ (p.2 = c.pid → Live c → c'.pid = c.pid ∧ Live c')) ∨
    (p = (c'.id, c'.pid) ∧ Live c')

theorem RecStep.refl (c : Container) (w : World) : RecStep c w c w :=
  ⟨Same.refl c, id, fun _ hp => .inl ⟨hp, fun _ hl => ⟨rfl, hl⟩⟩⟩

theorem RecStep.trans {c c' c'' : Container} {w w' w'' : World} (h : RecStep c w c' w')
    (h' : RecStep c' w' c'' w'') : RecStep c w c'' w'' := by
  refine ⟨h.same.trans h'.same, fun hok => h'.pidOk (h.pidOk hok), fun p hp => ?_⟩
  rcases h'.books p hp with ⟨hp', hkeep'⟩ | hnew
  · rcases h.books p hp' with ⟨hp0, hkeep⟩ | ⟨rfl, hlive⟩
    · refine .inl ⟨hp0, fun heq hlive => ?_⟩
      obtain ⟨h1, h2⟩ := hkeep heq hlive
      obtain ⟨h3, h4⟩ := hkeep' (heq.trans h1.symm) h2
      exact ⟨h3.trans h1, h4⟩
    · obtain ⟨h1, h2⟩ := hkeep' rfl hlive
      refine .inr ⟨?_, h2⟩
      rw [h1, h'.same.id]
  · exact .inr hnew

/-- Effects that are neither a start nor an end leave the books. -/
theorem RecStep.of_books_eq {c c' : Container} {w w' : World} (hsame : Same c c')
    (hok : PidOk c → PidOk c') (hpid : c'.pid = c.pid) (hlive : Live c → Live c')
    (hbooks : outstanding w'.trace = outstanding w.trace) : RecStep c w c' w' :=
  ⟨hsame, hok, fun _ hp => .inl ⟨hbooks ▸ hp, fun _ hl => ⟨hpid, hlive hl⟩⟩⟩

/-- The record gives up its process after the process has left the books. -/
theorem RecStep.of_closed {c c' : Container} {w w' : World} (hsame : Same c c')
    (hok : PidOk c')
    (hbooks : outstanding w'.trace = (outstanding w.trace).filter fun p => p.2 ≠ c.pid) :
    RecStep c w c' w' := by
  refine ⟨hsame, fun _ => hok, fun p hp => .inl ?_⟩
  rw [hbooks, List.mem_filter] at hp
  exact ⟨hp.1, fun heq _ => absurd heq (by simpa using hp.2)⟩

/-! ## The operations on a record -/

/-- The network of the host is not on the books. -/
theorem outstanding_network {w w' : World} (h : Appends Effect.OfNetwork w w') :
    outstanding w'.trace = outstanding w.trace := by
  refine h.foldl_eq (fun out e he => ?_) []
  cases e with
  | setupVeth c => rfl
  | teardownVeth c => rfl
  | addPortForward pm ip => rfl
  | delPortForward pm ip => rfl
  | _ => exact absurd he id

theorem cleanupContainerNetwork_spec (c : Container) (w : World) :
    Same c (cleanupContainerNetwork c w).1 ∧
    (cleanupContainerNetwork c w).1.pid = c.pid ∧
    (cleanupContainerNetwork c w).1.state = c.state ∧
    outstanding (cleanupContainerNetwork c w).2.trace = outstanding w.trace := by
  have hbooks := outstanding_network (cleanupContainerNetwork_appends c w)
  suffices h : Same c (cleanupContainerNetwork c w).1 ∧
      (cleanupContainerNetwork c w).1.pid = c.pid ∧
      (cleanupContainerNetwork c w).1.state = c.state from ⟨h.1, h.2.1, h.2.2, hbooks⟩
  unfold cleanupContainerNetwork
  simp only
  split
  · exact ⟨by constructor <;> rfl, rfl, rfl⟩
  · exact ⟨Same.refl c, rfl, rfl⟩

theorem pidOk_stopped {c : Container} (hs : c.state = .stopped) (hp : c.pid = -1) : PidOk c := by
  constructor
  · intro h; rw [hs] at h; simp at h
  · intro _; exact hp

theorem syncContainerState_recStep (o : SyncOutcome) (c : Container) (w : World) :
    RecStep c w (syncContainerState o c w).1 (syncContainerState o c w).2.1 := by
  unfold syncContainerState
  split
  · exact RecStep.refl c w
  split
  · exact RecStep.refl c w
  cases o.wait with
  | reaped status =>
    obtain ⟨hsame, hpid, hstate, hout⟩ := cleanupContainerNetwork_spec
      { c with stoppedAt := o.now, exitCode := status.code, state := .stopped, pid := -1 }
      ((w.emit (.reaped c.pid)).schedRemove c.pid)
    refine RecStep.of_closed (Same.trans (by constructor <;> rfl) hsame)
      (pidOk_stopped hstate hpid) ?_
    rw [outstanding_emit]
    show outstanding _ = _
    rw [hout, trace_schedRemove, outstanding_emit]
    rfl
  | echild =>
    simp only
    split
    · exact RecStep.refl c w
    · obtain ⟨hsame, hpid, hstate, hout⟩ := cleanupContainerNetwork_spec
        { c with state := .stopped, pid := -1 } (w.emit (.foundDead c.pid))
      refine RecStep.of_closed (Same.trans (by constructor <;> rfl) hsame)
        (pidOk_stopped hstate hpid) ?_
      rw [outstanding_emit]
      show outstanding _ = _
      rw [hout, outstanding_emit]
      rfl
  | nothing => exact RecStep.refl c w
  | eintr => exact RecStep.refl c w
  | error => exact RecStep.refl c w

theorem pollRecord_recStep (o : SyncOutcome) (c : Container) (w : World) :
    RecStep c w (pollRecord o c w).1 (pollRecord o c w).2.1 := by
  unfold pollRecord
  split
  · refine RecStep.trans ?_ (syncContainerState_recStep o _ _)
    refine RecStep.of_books_eq (by constructor <;> rfl) id rfl id ?_
    rw [outstanding_emit]
    rfl
  · exact syncContainerState_recStep o c w

theorem outstanding_emit_if (p : Prop) [Decidable p] (w : World) (pid : Int) (sig : Signal) :
    outstanding (if p then w.emit (.signal pid sig) else w).trace = outstanding w.trace := by
  split
  · rw [outstanding_emit]; rfl
  · rfl

/-- Either the stop failed and the books are as they were, or the process is
off the books. -/
def StopBooks (pid : Int) (w : World) (r : World × StopResult) : Prop :=
  (r.2 = .failed ∧ outstanding r.1.trace = outstanding w.trace) ∨
  (r.2 ≠ .failed ∧ outstanding r.1.trace = (outstanding w.trace).filter fun p => p.2 ≠ pid)

theorem killPhase_books (o : StopOutcome) (pid : Int) (w : World) :
    StopBooks pid w (killPhase o pid w) := by
  have hkill := outstanding_emit_if (o.kill = .ok) w pid .kill
  unfold killPhase
  simp only
  generalize (if o.kill = .ok then w.emit (.signal pid .kill) else w) = w₁ at hkill ⊢
  split
  · exact .inl ⟨rfl, hkill⟩
  · cases o.finalWait with
    | reaped status =>
      refine .inr ⟨by simp, ?_⟩
      rw [outstanding_emit, hkill]
      rfl
    | echild =>
      refine .inr ⟨by simp, ?_⟩
      rw [outstanding_emit, hkill]
      rfl
    | nothing => exact .inl ⟨rfl, hkill⟩
    | eintr => exact .inl ⟨rfl, hkill⟩
    | error => exact .inl ⟨rfl, hkill⟩

theorem stopSignals_books (o : StopOutcome) (timeoutS pid : Int) (w : World) :
    StopBooks pid w (stopSignals o timeoutS pid w) := by
  have hterm := outstanding_emit_if o.term w pid .term
  unfold stopSignals
  simp only
  generalize (if o.term then w.emit (.signal pid .term) else w) = w₁ at hterm ⊢
  cases termPhase o timeoutS with
  | some status =>
    refine .inr ⟨by simp, ?_⟩
    rw [outstanding_emit, hterm]
    rfl
  | none =>
    have hbooks := killPhase_books o pid w₁
    unfold StopBooks at hbooks ⊢
    rwa [hterm] at hbooks

theorem stopContainerProcess_recStep (o : StopOutcome) (timeoutS : Int) (c : Container)
    (w : World) :
    RecStep c w (stopContainerProcess o timeoutS c w).1
      (stopContainerProcess o timeoutS c w).2.1 := by
  unfold stopContainerProcess
  split
  · exact RecStep.refl c w
  · simp only
    have hcont := outstanding_emit_if (c.state = .paused ∧ o.cont) w c.pid .cont
    generalize (if c.state = .paused ∧ o.cont then w.emit (.signal c.pid .cont) else w) = w₁
      at hcont ⊢
    have hsig := stopSignals_books o timeoutS c.pid w₁
    generalize stopSignals o timeoutS c.pid w₁ = r at hsig ⊢
    rcases hsig with ⟨hfail, hsig⟩ | ⟨hok, hsig⟩
    · rw [if_pos hfail]
      exact RecStep.of_books_eq (Same.refl c) id rfl id (hsig.trans hcont)
    · rw [if_neg hok]
      obtain ⟨hsame, -, -, hout⟩ := cleanupContainerNetwork_spec c (r.1.schedRemove c.pid)
      refine RecStep.of_closed (Same.trans hsame (by constructor <;> rfl))
        (pidOk_stopped rfl rfl) ?_
      rw [outstanding_emit, outstanding_emit]
      show outstanding _ = _
      rw [hout, trace_schedRemove, hsig, hcont]

theorem waitForContainerProcess_recStep (o : WaitOutcome) (c : Container) (w : World) :
    RecStep c w (waitForContainerProcess o c w).1 (waitForContainerProcess o c w).2.1 := by
  have hfinish : ∀ (status : WaitStatus) (w' : World),
      outstanding w'.trace = ((outstanding w.trace).filter fun p => p.2 ≠ c.pid) →
      ∀ r, r = cleanupContainerNetwork
        { c with stoppedAt := o.now, exitCode := status.code, pid := -1, state := .stopped }
        (w'.emit (.event .stopped c.id (formatWaitStatus status) status.code)) →
      RecStep c w r.1 (r.2.emit (.save o.save)) := by
    rintro status w' hw' r rfl
    obtain ⟨hsame, hpid, hstate, hout⟩ := cleanupContainerNetwork_spec
      { c with stoppedAt := o.now, exitCode := status.code, pid := -1, state := .stopped }
      (w'.emit (.event .stopped c.id (formatWaitStatus status) status.code))
    refine RecStep.of_closed (Same.trans (by constructor <;> rfl) hsame)
      (pidOk_stopped hstate hpid) ?_
    rw [outstanding_emit]
    show outstanding _ = _
    rw [hout, outstanding_emit]
    exact hw'
  unfold waitForContainerProcess
  split
  · exact RecStep.refl c w
  · cases o.wait with
    | reaped status => exact hfinish status _ (by rw [outstanding_emit]; rfl) _ rfl
    | echild =>
      simp only
      split
      · exact RecStep.refl c w
      · exact hfinish (.exited 0) _ (by rw [outstanding_emit]; rfl) _ rfl
    | nothing => exact RecStep.refl c w
    | eintr => exact RecStep.refl c w
    | error => exact RecStep.refl c w

/-- Pausing and unpausing swap the two live states. -/
theorem pidOk_live {c c' : Container} (hpid : c'.pid = c.pid) (hpos : 0 < c.pid)
    (hlive : c'.state = .running ∨ c'.state = .paused) : PidOk c' := by
  refine ⟨fun _ => hpid ▸ hpos, fun h => ?_⟩
  rcases hlive with h1 | h1 <;> rw [h1] at h <;> simp at h

theorem pauseContainer_recStep (kill save : Bool) (c : Container) (w : World) :
    RecStep c w (pauseContainer kill save c w).1 (pauseContainer kill save c w).2.1 := by
  unfold pauseContainer
  split
  · exact RecStep.refl c w
  split
  · exact RecStep.refl c w
  · rename_i hrun _
    push Not at hrun
    refine RecStep.of_books_eq (by constructor <;> rfl)
      (fun _ => pidOk_live (c := c) rfl hrun.2 (.inr rfl)) rfl (fun _ => .inr rfl) ?_
    rw [outstanding_emit, outstanding_emit, outstanding_emit]
    rfl

theorem unpauseContainer_recStep (kill save : Bool) (c : Container) (w : World) :
    RecStep c w (unpauseContainer kill save c w).1 (unpauseContainer kill save c w).2.1 := by
  unfold unpauseContainer
  split
  · exact RecStep.refl c w
  split
  · exact RecStep.refl c w
  · rename_i hrun _
    push Not at hrun
    refine RecStep.of_books_eq (by constructor <;> rfl)
      (fun _ => pidOk_live (c := c) rfl hrun.2 (.inl rfl)) rfl (fun _ => .inl rfl) ?_
    rw [outstanding_emit, outstanding_emit, outstanding_emit]
    rfl

theorem ensureContainerLogPath_spec (c : Container) :
    Same c (ensureContainerLogPath c) ∧ (ensureContainerLogPath c).pid = c.pid ∧
    (ensureContainerLogPath c).state = c.state := by
  unfold ensureContainerLogPath
  split
  · exact ⟨Same.refl c, rfl, rfl⟩
  · exact ⟨by constructor <;> rfl, rfl, rfl⟩

theorem containerNetSetup_spec (o : NetOutcome) (c : Container) (w : World) :
    Same c (containerNetSetup o c w).1 ∧ (containerNetSetup o c w).1.pid = c.pid ∧
    (containerNetSetup o c w).1.state = c.state ∧
    outstanding (containerNetSetup o c w).2.1.trace = outstanding w.trace := by
  have hbooks := outstanding_network (containerNetSetup_appends o c w)
  suffices h : Same c (containerNetSetup o c w).1 ∧ (containerNetSetup o c w).1.pid = c.pid ∧
      (containerNetSetup o c w).1.state = c.state from ⟨h.1, h.2.1, h.2.2, hbooks⟩
  unfold containerNetSetup
  simp only
  split
  · exact ⟨Same.refl c, rfl, rfl⟩
  split
  · exact ⟨Same.refl c, rfl, rfl⟩
  · cases bridgeAllocIp w with
    | none => exact ⟨Same.refl c, rfl, rfl⟩
    | some r =>
      simp only
      split
      · exact ⟨Same.refl c, rfl, rfl⟩
      · exact ⟨by constructor <;> rfl, rfl, rfl⟩

/-- A successful `namespace_start_container` puts its process on the books. -/
theorem namespaceStartContainer_spec (ns : NsOutcome) (net : NetOutcome) (c : Container)
    (w : World) :
    Same c (namespaceStartContainer ns net c w).1 ∧
    (namespaceStartContainer ns net c w).1.pid = c.pid ∧
    (namespaceStartContainer ns net c w).1.state = c.state ∧
    outstanding (namespaceStartContainer ns net c w).2.1.trace =
      match (namespaceStartContainer ns net c w).2.2 with
      | none => outstanding w.trace
      | some pid => outstanding w.trace ++ [(c.id, pid.val)] := by
  obtain ⟨hsame, hpid, hstate, hout⟩ := containerNetSetup_spec net c w
  unfold namespaceStartContainer
  split
  · exact ⟨Same.refl c, rfl, rfl, rfl⟩
  · cases ns with
    | failBefore => exact ⟨Same.refl c, rfl, rfl, rfl⟩
    | failAfter => exact ⟨hsame, hpid, hstate, hout⟩
    | ok pid =>
      simp only
      split
      · exact ⟨hsame, hpid, hstate, hout⟩
      · refine ⟨hsame, hpid, hstate, ?_⟩
        rw [outstanding_emit, hout, hsame.id]
        rfl

theorem Container.cleared_spec (capture : Bool) (c : Container) :
    Same c (c.cleared capture) ∧ (c.cleared capture).pid = c.pid ∧
    (c.cleared capture).state = c.state := by
  obtain ⟨hsame, hpid, hstate⟩ := ensureContainerLogPath_spec c
  cases capture with
  | true => exact ⟨hsame.trans (by constructor <;> rfl), hpid, hstate⟩
  | false => exact ⟨by constructor <;> rfl, rfl, rfl⟩

/-- What `namespace_start_container` leaves of the record to be started. -/
theorem startedRecord_spec {o : StartOutcome} {capture : Bool} {c : Container} {w : World}
    {r : Container × World × Option Pid}
    (hns : namespaceStartContainer o.ns o.net (c.cleared capture) w = r) :
    Same c r.1 ∧ r.1.pid = c.pid ∧ r.1.state = c.state ∧
    outstanding r.2.1.trace =
      match r.2.2 with
      | none => outstanding w.trace
      | some pid => outstanding w.trace ++ [(c.id, pid.val)] := by
  obtain ⟨hsame, hpid, hstate⟩ := c.cleared_spec capture
  obtain ⟨hsame', hpid', hstate', hbooks⟩ :=
    namespaceStartContainer_spec o.ns o.net (c.cleared capture) w
  rw [hns, hsame.id] at hbooks
  rw [hns] at hsame' hpid' hstate'
  exact ⟨hsame.trans hsame', hpid'.trans hpid, hstate'.trans hstate, hbooks⟩

theorem Container.launched_same (o : StartOutcome) (pid : Pid) (c : Container) :
    Same c (c.launched o pid) := by
  constructor <;> rfl

theorem Container.launched_pidOk (o : StartOutcome) (pid : Pid) (c : Container) :
    PidOk (c.launched o pid) :=
  pidOk_live (c := { c with pid := pid.val }) rfl pid.pos (.inl rfl)

theorem finishStart_recStep (o : StartOutcome) (schedule : Bool) (c : Container) (w : World) :
    RecStep c w (finishStart o schedule c w).1 (finishStart o schedule c w).2.1 := by
  have hstay : ∀ w' : World, outstanding w'.trace = outstanding w.trace → RecStep c w c w' :=
    fun w' hw' => RecStep.of_books_eq (Same.refl c) id rfl id hw'
  have hpub := outstanding_network (publish_appends o c w)
  have hsave : outstanding ((publish o c w).1.emit (.save o.save)).trace =
      outstanding w.trace := by
    rw [outstanding_emit]
    exact hpub
  have hmove := finishStart_move o schedule c w
  generalize finishStart o schedule c w = r at hmove ⊢
  cases hmove with
  | unpublished => exact (hstay _ hpub).trans (stopContainerProcess_recStep o.stop 0 c _)
  | undone => exact (hstay _ hsave).trans (stopContainerProcess_recStep o.stop 0 c _)
  | done =>
    refine hstay _ ?_
    rw [announced_trace, outstanding_emit, outstanding_emit]
    exact hsave

/-- Starting a record that is not paused. A paused one would give up a live
process here. -/
theorem startContainer_recStep (o : StartOutcome) (schedule capture : Bool) {c : Container}
    (w : World) (hnp : c.state ≠ .paused) :
    RecStep c w (startContainer o schedule capture c w).1
      (startContainer o schedule capture c w).2.1 := by
  have hmove := startContainer_move o schedule capture c w
  generalize startContainer o schedule capture c w = r at hmove ⊢
  cases hmove with
  | refused => exact RecStep.refl c w
  | noProcess hnr _ hns hnone =>
    obtain ⟨hsame, hpid, hstate, hbooks⟩ := startedRecord_spec hns
    rw [hnone] at hbooks
    refine RecStep.of_books_eq hsame (fun h => ?_) hpid (fun hl => ?_) hbooks
    · rw [PidOk, hstate, hpid]
      exact h
    · exact (hl.elim hnr hnp).elim
  | @finish r pid hnr _ hns hpid =>
    obtain ⟨hsame, -, -, hbooks⟩ := startedRecord_spec hns
    rw [hpid] at hbooks
    have hdead : ¬ Live c := fun hl => hl.elim hnr hnp
    refine RecStep.trans ?_ (finishStart_recStep o schedule (r.1.launched o pid) r.2.1)
    refine ⟨hsame.trans (r.1.launched_same o pid), fun _ => r.1.launched_pidOk o pid,
      fun p hp => ?_⟩
    rw [hbooks] at hp
    rcases List.mem_append.mp hp with hp | hp
    · exact .inl ⟨hp, fun _ hl => absurd hl hdead⟩
    · rw [List.mem_singleton] at hp
      refine .inr ⟨?_, .inl rfl⟩
      rw [hp, ← hsame.id]
      rfl

end ContainerSim.Runtime
