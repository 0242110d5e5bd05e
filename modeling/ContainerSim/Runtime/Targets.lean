import ContainerSim.Runtime.Signals
import ContainerSim.Sched.Lost

/-!
# The target table under the operations

An operation takes a pid out of the scheduler's table only when it stops the
record that holds it, and so far the live records keep their entries
(`Retains`). Only a start that is to be scheduled adds one.
-/

namespace ContainerSim.Runtime

open Lib Sched

/-! ## The table -/

theorem mem_schedulerRemoveTarget {s : SchedulerState} {pid q : Int} (hq : q ∈ s.targets)
    (hne : q ≠ pid) : q ∈ (schedulerRemoveTarget pid s).targets := by
  unfold schedulerRemoveTarget
  rw [clampIndex_targets]
  cases hfind : s.targets.findIdx? (· = pid) with
  | none => exact hq
  | some i =>
    obtain ⟨hi, hpid, -⟩ := List.findIdx?_eq_some_iff_getElem.mp hfind
    have hpid : s.targets[i] = pid := of_decide_eq_true hpid
    show q ∈ swapRemove i s.targets
    rw [(swapRemove_perm (List.getElem?_eq_getElem hi)).mem_iff, List.mem_eraseIdx_iff_getElem]
    obtain ⟨j, hj, rfl⟩ := List.getElem_of_mem hq
    exact ⟨j, hj, fun heq => hne (by subst heq; exact hpid), rfl⟩

theorem mem_of_schedulerRemoveTarget {s : SchedulerState} {pid q : Int}
    (hq : q ∈ (schedulerRemoveTarget pid s).targets) : q ∈ s.targets := by
  unfold schedulerRemoveTarget at hq
  rw [clampIndex_targets] at hq
  cases hfind : s.targets.findIdx? (· = pid) with
  | none =>
    rw [hfind] at hq
    exact hq
  | some i =>
    obtain ⟨hi, -, -⟩ := List.findIdx?_eq_some_iff_getElem.mp hfind
    rw [hfind] at hq
    change q ∈ swapRemove i s.targets at hq
    exact List.mem_of_mem_eraseIdx
      ((swapRemove_perm (List.getElem?_eq_getElem hi)).mem_iff.mp hq)

@[simp] theorem schedulerRemoveTarget_enabled (pid : Int) (s : SchedulerState) :
    (schedulerRemoveTarget pid s).enabled = s.enabled := by
  unfold schedulerRemoveTarget
  rw [clampIndex_enabled]
  split <;> rfl

theorem schedulerAddTarget_enabled (realloc : Bool) (pid : Int) (s : SchedulerState) :
    (schedulerAddTarget realloc pid s).enabled = s.enabled := by
  unfold schedulerAddTarget ensureCapacityLocked
  split
  · rfl
  · split
    · rename_i h
      split at h
      · cases h
        rfl
      · split at h
        · cases h
          rfl
        · cases h
    · rfl

theorem mem_schedulerAddTarget {realloc : Bool} {pid q : Int} {s : SchedulerState}
    (hq : q ∈ s.targets) : q ∈ (schedulerAddTarget realloc pid s).targets := by
  unfold schedulerAddTarget ensureCapacityLocked
  split
  · exact hq
  · split
    · rename_i h
      refine List.mem_append_left _ ?_
      split at h
      · cases h
        exact hq
      · split at h
        · cases h
          exact hq
        · cases h
    · exact hq

theorem mem_of_schedulerAddTarget {realloc : Bool} {pid q : Int} {s : SchedulerState}
    (hq : q ∈ (schedulerAddTarget realloc pid s).targets) : q = pid ∨ q ∈ s.targets := by
  unfold schedulerAddTarget ensureCapacityLocked at hq
  have happend : q ∈ s.targets ++ [pid] → q = pid ∨ q ∈ s.targets := by
    intro hq
    rw [List.mem_append, List.mem_singleton] at hq
    exact hq.symm
  split at hq
  · exact .inr hq
  · split at hq
    · rename_i h
      split at h
      · cases h
        exact happend hq
      · split at h
        · cases h
          exact happend hq
        · cases h
    · exact .inr hq

/-- With memory at hand the pid is in the table afterwards. -/
theorem mem_schedulerAddTarget_self {realloc : Bool} (hmem : realloc = true) (pid : Int)
    (s : SchedulerState) : pid ∈ (schedulerAddTarget realloc pid s).targets := by
  subst hmem
  unfold schedulerAddTarget ensureCapacityLocked
  split
  · assumption
  · split
    · exact List.mem_append_right _ List.mem_cons_self
    · rename_i h
      split at h
      · cases h
      · cases h

/-! ## Who leaves it alone -/

@[simp] theorem sched_emit (w : World) (e : Effect) : (w.emit e).sched = w.sched := rfl

theorem sched_delPortForwards (ip : Bytes) (pms : List PortMapping) (w : World) :
    (delPortForwards ip pms w).sched = w.sched := by
  unfold delPortForwards
  induction pms generalizing w with
  | nil => rfl
  | cons pm pms ih => exact ih (w.emit (.delPortForward pm ip))

theorem sched_cleanupContainerNetwork (c : Container) (w : World) :
    (cleanupContainerNetwork c w).2.sched = w.sched := by
  unfold cleanupContainerNetwork
  have hports : (if c.ipAddress ≠ [] then delPortForwards c.ipAddress c.portMaps w else w).sched =
      w.sched := by
    split
    · exact sched_delPortForwards _ _ w
    · rfl
  simp only
  split
  · exact hports
  · exact hports

theorem sched_stopSignals (o : StopOutcome) (timeoutS pid : Int) (w : World) :
    (stopSignals o timeoutS pid w).1.sched = w.sched := by
  have hkill : ∀ w : World, (killPhase o pid w).1.sched = w.sched := by
    intro w
    have hsignal : (if o.kill = .ok then w.emit (.signal pid .kill) else w).sched = w.sched := by
      split <;> rfl
    unfold killPhase
    simp only
    split
    · exact hsignal
    · cases o.finalWait <;> exact hsignal
  have hterm : (if o.term then w.emit (.signal pid .term) else w).sched = w.sched := by
    split <;> rfl
  unfold stopSignals
  simp only
  cases termPhase o timeoutS with
  | none => exact (hkill _).trans hterm
  | some status => exact hterm

theorem sched_addPortForwards (ok : Nat → Bool) (ip : Bytes) (i : Nat) (pms : List PortMapping)
    (w : World) : (addPortForwards ok ip i pms w).1.sched = w.sched := by
  induction pms generalizing i w with
  | nil => rfl
  | cons pm pms ih =>
    unfold addPortForwards
    split
    · exact ih (i + 1) _
    · rfl

theorem sched_publish (o : StartOutcome) (c : Container) (w : World) :
    (publish o c w).1.sched = w.sched := by
  unfold publish
  split
  · exact sched_addPortForwards _ _ _ _ w
  · rfl

theorem sched_containerNetSetup (o : NetOutcome) (c : Container) (w : World) :
    (containerNetSetup o c w).2.1.sched = w.sched := by
  have halloc : ∀ r, bridgeAllocIp w = some r → r.2.sched = w.sched := by
    intro r h
    unfold bridgeAllocIp at h
    split at h
    · cases h
    · cases h
      rfl
  unfold containerNetSetup
  simp only
  split
  · rfl
  split
  · rfl
  cases hip : bridgeAllocIp w with
  | none => rfl
  | some r =>
    simp only
    split
    · exact halloc r hip
    · exact halloc r hip

theorem sched_namespaceStartContainer (ns : NsOutcome) (net : NetOutcome) (c : Container)
    (w : World) : (namespaceStartContainer ns net c w).2.1.sched = w.sched := by
  have hnet := sched_containerNetSetup net c w
  unfold namespaceStartContainer
  split
  · rfl
  · cases ns with
    | failBefore => rfl
    | failAfter => exact hnet
    | ok pid =>
      simp only
      split
      · exact hnet
      · exact hnet

/-! ## One record -/

/-- A live `c'` is `c` with its process, not unpaused; at most the entry of a
process that has been stopped is gone, and none has come. -/
structure TableStep (c : Container) (w : World) (c' : Container) (w' : World) : Prop where
  keep : Keep c c'
  running : c'.state = .running → c.state = .running
  enabled : w'.sched.enabled = w.sched.enabled
  target : ∀ pid ∈ w.sched.targets,
    pid ∈ w'.sched.targets ∨ (Live c ∧ ¬ Live c' ∧ pid = c.pid)
  only : ∀ pid ∈ w'.sched.targets, pid ∈ w.sched.targets

theorem TableStep.of_sched {c c' : Container} {w w' : World} (hkeep : Keep c c')
    (hrunning : c'.state = .running → c.state = .running) (hsched : w'.sched = w.sched) :
    TableStep c w c' w' :=
  ⟨hkeep, hrunning, by rw [hsched], fun _ hpid => .inl (by rw [hsched]; exact hpid),
    fun _ hpid => hsched ▸ hpid⟩

theorem TableStep.refl (c : Container) (w : World) : TableStep c w c w :=
  .of_sched (Cool.refl c).toKeep id rfl

/-- The record is stopped and its pid taken out. -/
theorem TableStep.stopped {c c' : Container} {w w' : World} (hlive : Live c)
    (hptr : c'.ptr = c.ptr) (hstate : c'.state = .stopped)
    (hsched : w'.sched = schedulerRemoveTarget c.pid w.sched) : TableStep c w c' w' := by
  refine ⟨(Cool.of_stopped hptr hstate).toKeep, fun h => ?_, ?_, fun pid hpid => ?_,
    fun pid hpid => mem_of_schedulerRemoveTarget (hsched ▸ hpid)⟩
  · rw [hstate] at h
    cases h
  · rw [hsched, schedulerRemoveTarget_enabled]
  · by_cases heq : pid = c.pid
    · exact .inr ⟨hlive, not_live_stopped hstate, heq⟩
    · refine .inl ?_
      rw [hsched]
      exact mem_schedulerRemoveTarget hpid heq

theorem syncContainerState_tableStep (o : SyncOutcome) (c : Container) (w : World) :
    TableStep c w (syncContainerState o c w).1 (syncContainerState o c w).2.1 := by
  have hcool := syncContainerState_cool o c w
  unfold syncContainerState at hcool ⊢
  split
  · exact .refl c w
  rename_i hlive
  push Not at hlive
  split
  · exact .refl c w
  rename_i hpaused
  have hrunning : c.state = .running := by
    by_contra hne
    exact hpaused (hlive.1 hne)
  cases hwait : o.wait with
  | reaped status =>
    -- the entry goes with the process
    obtain ⟨hsame, -, hstate, -⟩ := cleanupContainerNetwork_spec
      { c with stoppedAt := o.now, exitCode := status.code, state := .stopped, pid := -1 }
      ((w.emit (.reaped c.pid)).schedRemove c.pid)
    refine .stopped (.inl hrunning) hsame.ptr hstate ?_
    simp only [sched_emit, sched_cleanupContainerNetwork]
    rfl
  | echild =>
    rw [if_neg (by push Not; exact hlive), if_neg hpaused, hwait] at hcool
    simp only at hcool ⊢
    split
    · exact .refl c w
    · -- somebody else has reaped it: the entry stays behind
      rename_i halive
      rw [if_neg halive] at hcool
      refine .of_sched hcool.toKeep (fun _ => hrunning) ?_
      simp only [sched_emit, sched_cleanupContainerNetwork]
  | nothing => exact .refl c w
  | eintr => exact .refl c w
  | error => exact .refl c w

theorem pollRecord_tableStep (o : SyncOutcome) (c : Container) (w : World) :
    TableStep c w (pollRecord o c w).1 (pollRecord o c w).2.1 := by
  unfold pollRecord
  split
  · -- the count of OOM kills is all that differs
    obtain ⟨⟨hptr, hlive⟩, hrunning, henabled, htarget, honly⟩ := syncContainerState_tableStep o
      { c with oomKillCount := o.oom } (w.emit (.event .oomKill c.id [] o.rssMb))
    exact ⟨⟨hptr, hlive⟩, hrunning, henabled, htarget, honly⟩
  · exact syncContainerState_tableStep o c w

theorem stopContainerProcess_tableStep (o : StopOutcome) (timeoutS : Int) (c : Container)
    (w : World) : TableStep c w (stopContainerProcess o timeoutS c w).1
      (stopContainerProcess o timeoutS c w).2.1 := by
  unfold stopContainerProcess
  split
  · exact .refl c w
  rename_i hlive
  push Not at hlive
  have hlive : Live c := by
    by_cases hrunning : c.state = .running
    · exact .inl hrunning
    · exact .inr (hlive.1 hrunning)
  have hcont : (if c.state = .paused ∧ o.cont then
      w.emit (.signal c.pid .cont) else w).sched = w.sched := by
    split <;> rfl
  simp only
  generalize (if c.state = .paused ∧ o.cont then w.emit (.signal c.pid .cont) else w) = w₁
    at hcont ⊢
  have hsignals := (sched_stopSignals o timeoutS c.pid w₁).trans hcont
  generalize stopSignals o timeoutS c.pid w₁ = r at hsignals ⊢
  split
  · -- it did not die
    exact .of_sched (Cool.refl c).toKeep id hsignals
  · obtain ⟨hsame, -, -, -⟩ := cleanupContainerNetwork_spec c (r.1.schedRemove c.pid)
    refine .stopped hlive hsame.ptr rfl ?_
    simp only [sched_emit, sched_cleanupContainerNetwork, World.schedRemove, hsignals]

theorem waitForContainerProcess_tableStep (o : WaitOutcome) (c : Container) (w : World) :
    TableStep c w (waitForContainerProcess o c w).1 (waitForContainerProcess o c w).2.1 := by
  refine .of_sched (waitForContainerProcess_cool o c w).toKeep ?_ ?_
  · rcases waitForContainerProcess_state o c w with heq | hst
    · rw [heq]
      exact id
    · rw [hst]
      intro h
      cases h
  · unfold waitForContainerProcess
    split
    · rfl
    · cases o.wait with
      | reaped status => simp only [sched_emit, sched_cleanupContainerNetwork]
      | echild =>
        simp only
        split
        · rfl
        · simp only [sched_emit, sched_cleanupContainerNetwork]
      | nothing => rfl
      | eintr => rfl
      | error => rfl

theorem pauseContainer_tableStep (kill save : Bool) (c : Container) (w : World) :
    TableStep c w (pauseContainer kill save c w).1 (pauseContainer kill save c w).2.1 := by
  have hkeep := pauseContainer_keep kill save c w
  unfold pauseContainer at hkeep ⊢
  split
  · exact .refl c w
  rename_i hrun
  rw [if_neg hrun] at hkeep
  split
  · exact .refl c w
  · rename_i hkill
    rw [if_neg hkill] at hkeep
    refine .of_sched hkeep (fun h => ?_) rfl
    cases h

theorem sched_unpauseContainer (kill save : Bool) (c : Container) (w : World) :
    (unpauseContainer kill save c w).2.1.sched = w.sched := by
  unfold unpauseContainer
  split
  · rfl
  split <;> rfl

/-! ## The list -/

/-- The live `c'` of `m'` is `c`, and still in the table if it was. -/
structure Retained (m : Manager) (c : Container) (m' : Manager) (c' : Container) : Prop where
  mem : c ∈ m.list
  live : Live c
  pid : c'.pid = c.pid
  running : c'.state = .running → c.state = .running
  target : c.pid ∈ m.world.sched.targets → c'.pid ∈ m'.world.sched.targets

/-- Every live record was live before, none has lost its entry, and the table
holds nobody new. -/
structure Retains (m m' : Manager) : Prop where
  enabled : m'.world.sched.enabled = m.world.sched.enabled
  records : ∀ c' ∈ m'.list, Live c' → ∃ c, Retained m c m' c'
  only : ∀ pid ∈ m'.world.sched.targets, pid ∈ m.world.sched.targets

theorem Retains.refl (m : Manager) : Retains m m :=
  ⟨rfl, fun c hc hl => ⟨c, hc, hl, rfl, id, id⟩, fun _ => id⟩

theorem Retains.trans {m m' m'' : Manager} (h : Retains m m') (h' : Retains m' m'') :
    Retains m m'' := by
  refine ⟨h'.enabled.trans h.enabled, fun c'' hc'' hl => ?_,
    fun pid hpid => h.only pid (h'.only pid hpid)⟩
  obtain ⟨c', hc'⟩ := h'.records c'' hc'' hl
  obtain ⟨c, hc⟩ := h.records c' hc'.mem hc'.live
  exact ⟨c, hc.mem, hc.live, hc'.pid.trans hc.pid, fun hr => hc.running (hc'.running hr),
    fun ht => hc'.target (hc.target ht)⟩

/-- The scheduler is left alone, and no record comes to life. -/
theorem Retains.of_sched {m m' : Manager} (hsched : m'.world.sched = m.world.sched)
    (hmem : ∀ c' ∈ m'.list, Live c' →
      ∃ c ∈ m.list, c'.pid = c.pid ∧ c'.state = c.state) : Retains m m' := by
  refine ⟨by rw [hsched], fun c' hc' hl => ?_, fun _ hpid => hsched ▸ hpid⟩
  obtain ⟨c, hc, hpid, hstate⟩ := hmem c' hc' hl
  refine ⟨c, hc, ?_, hpid, fun hr => hstate ▸ hr, fun ht => ?_⟩
  · rwa [Live, hstate] at hl
  · rw [hsched, hpid]
    exact ht

/-- An operation on one record. -/
theorem Retains.record {m : Manager} (hpids : LivePids m.list) {c c' : Container} {w' : World}
    (hc : c ∈ m.list) (h : TableStep c m.world c' w') :
    Retains m { m with list := setContainer m.list c', world := w' } := by
  refine ⟨h.enabled, fun d' hd' hl => ?_, h.only⟩
  rcases mem_setContainer.mp hd' with ⟨_, _, _, rfl⟩ | ⟨hd', hne⟩
  · obtain ⟨hlive, hpid⟩ := h.keep.live hl
    refine ⟨c, hc, hlive, hpid, h.running, fun ht => ?_⟩
    rcases h.target c.pid ht with hin | ⟨-, hnot, -⟩
    · rw [hpid]
      exact hin
    · exact absurd hl hnot
  · refine ⟨d', hd', hl, rfl, id, fun ht => ?_⟩
    rcases h.target d'.pid ht with hin | ⟨hlive, -, heq⟩
    · exact hin
    · -- it would share its pid with the record
      rw [h.keep.ptr] at hne
      exact absurd (hpids d' hd' c hc hl hlive heq) hne

/-- What `poll_states` takes out of the table belonged to a record it stops. -/
theorem pollList_target (sync : Nat → SyncOutcome) (l : List Container) (w : World) {pid : Int}
    (hpid : pid ∈ w.sched.targets) :
    pid ∈ (pollList sync l w).2.1.sched.targets ∨
    ∃ c ∈ l, Live c ∧ pid = c.pid ∧ ∃ c' ∈ (pollList sync l w).1, c'.ptr = c.ptr ∧ ¬ Live c' := by
  induction l generalizing w with
  | nil => exact .inl hpid
  | cons c cs ih =>
    have hstep := pollRecord_tableStep (sync c.ptr) c w
    rcases hstep.target pid hpid with hin | ⟨hlive, hnot, heq⟩
    · rcases ih _ hin with hin | ⟨d, hd, hlive, heq, d', hd', hptr, hnot⟩
      · exact .inl hin
      · exact .inr ⟨d, List.mem_cons_of_mem _ hd, hlive, heq, d', List.mem_cons_of_mem _ hd',
          hptr, hnot⟩
    · exact .inr ⟨c, List.mem_cons_self, hlive, heq, _, List.mem_cons_self, hstep.keep.ptr, hnot⟩

theorem pollList_tableStep (sync : Nat → SyncOutcome) (l : List Container) (w : World) :
    (pollList sync l w).2.1.sched.enabled = w.sched.enabled ∧
    (∀ pid ∈ (pollList sync l w).2.1.sched.targets, pid ∈ w.sched.targets) ∧
    List.Forall₂ (fun c c' => Keep c c' ∧ (c'.state = .running → c.state = .running)) l
      (pollList sync l w).1 := by
  induction l generalizing w with
  | nil => exact ⟨rfl, fun _ => id, .nil⟩
  | cons c cs ih =>
    have hstep := pollRecord_tableStep (sync c.ptr) c w
    obtain ⟨henabled, honly, hrest⟩ := ih (pollRecord (sync c.ptr) c w).2.1
    exact ⟨henabled.trans hstep.enabled, fun pid hpid => hstep.only pid (honly pid hpid),
      .cons ⟨hstep.keep, hstep.running⟩ hrest⟩

theorem pollStates_retains {m : Manager} (hptrs : PtrNodup m.list) (hpids : LivePids m.list)
    (o : PollOutcome) : Retains m (pollStates o m) := by
  have hsched : (pollStates o m).world.sched = (pollList o.sync m.list m.world).2.1.sched := by
    unfold pollStates
    simp only
    split <;> rfl
  have hptrs' : PtrNodup (pollStates o m).list := by
    rw [PtrNodup, pollStates_map_ptr]
    exact hptrs
  obtain ⟨henabled, honly, hrel⟩ := pollList_tableStep o.sync m.list m.world
  refine ⟨by rw [hsched, henabled], fun d' hd' hl => ?_, by rw [hsched]; exact honly⟩
  obtain ⟨d, hd, hkeep, hrunning⟩ := forall₂_mem_right hrel hd'
  obtain ⟨hlive, hpid⟩ := hkeep.live hl
  refine ⟨d, hd, hlive, hpid, hrunning, fun ht => ?_⟩
  rw [hsched, hpid]
  rcases pollList_target o.sync m.list m.world ht with hin | ⟨c, hc, hlc, heq, c', hc', hptr, hnot⟩
  · exact hin
  · -- the record that was stopped is this one
    have hsame := hpids d hd c hc hlive hlc heq
    have heq' : c' = d' := hptrs'.eq hd' hc' (by rw [hptr, ← hsame, hkeep.ptr])
    exact absurd (heq' ▸ hl) hnot

theorem withContainer_retains {m : Manager} (hptrs : PtrNodup m.list) (hpids : LivePids m.list)
    (poll : PollOutcome) (id : Bytes) {f : Container → World → Container × World × Int}
    (hf : ∀ c w, TableStep c w (f c w).1 (f c w).2.1) :
    Retains m (withContainer poll id f m).1 := by
  have hpoll := pollStates_retains hptrs hpids poll
  unfold withContainer
  split
  · exact .refl m
  · simp only
    cases hfind : findContainer (pollStates poll m).list id with
    | none => exact hpoll
    | some c =>
      exact hpoll.trans (.record (hpids.descends (pollStates_descends poll m).keep)
        (mem_of_findContainer hfind).1 (hf c _))

/-- The new record is not live yet. -/
theorem containerCreate_retains (o : CreateOutcome) (spec : ContainerSpec) (m : Manager) :
    Retains m (containerCreate o spec m).1 := by
  have hsched : (containerCreate o spec m).1.world.sched = m.world.sched := by
    unfold containerCreate
    split
    · rfl
    · simp only
      cases filesystemPrepareRootfs o (newContainer o spec m.heap m.nextSequence).2 with
      | none => rfl
      | some rootfs =>
        simp only
        split <;> rfl
  refine .of_sched hsched fun c' hc' hl => ?_
  rcases containerCreate_cases o spec m with ⟨-, hlist, -⟩ | ⟨rootfs, -, hlist, -⟩
  · exact ⟨c', hlist ▸ hc', rfl, rfl⟩
  · rw [hlist] at hc'
    rcases List.mem_append.mp hc' with hc' | hc'
    · exact ⟨c', hc', rfl, rfl⟩
    · rw [List.mem_singleton.mp hc'] at hl
      rcases hl with h | h <;> cases h

theorem recordLogPath_retains (save : Bool) (id : Bytes) (m : Manager) :
    Retains m (recordLogPath save id m) := by
  unfold recordLogPath
  cases hfind : findContainer m.list id with
  | none => exact .refl m
  | some c =>
    obtain ⟨-, hpid, hstate⟩ := ensureContainerLogPath_spec c
    refine .of_sched rfl fun d hd _ => ?_
    rcases mem_setContainer.mp hd with ⟨_, _, _, rfl⟩ | ⟨hd, -⟩
    · exact ⟨c, (mem_of_findContainer hfind).1, hpid, hstate⟩
    · exact ⟨d, hd, rfl, rfl⟩

theorem containerDelete_retains {m : Manager} (hptrs : PtrNodup m.list) (hpids : LivePids m.list)
    (poll : PollOutcome) (save : Bool) (id : Bytes) :
    Retains m (containerDelete poll save id m).1 := by
  have hpoll := pollStates_retains hptrs hpids poll
  unfold containerDelete
  split
  · exact .refl m
  · simp only
    cases hfind : findContainer (pollStates poll m).list id with
    | none => exact hpoll
    | some c =>
      have hsched := sched_cleanupContainerNetwork c (pollStates poll m).world
      obtain ⟨-, -, hstate, -⟩ := cleanupContainerNetwork_spec c (pollStates poll m).world
      simp only
      split
      · exact hpoll
      rename_i hidle
      split
      · -- the record goes back to the end; it is not live
        refine hpoll.trans (.of_sched hsched fun c' hc' hl => ?_)
        rcases List.mem_append.mp hc' with hc' | hc'
        · exact ⟨c', List.mem_of_mem_eraseP hc', rfl, rfl⟩
        · rw [List.mem_singleton.mp hc', Live, hstate] at hl
          exact absurd hl hidle
      · exact hpoll.trans (.of_sched hsched fun c' hc' _ =>
          ⟨c', List.mem_of_mem_eraseP hc', rfl, rfl⟩)

/-! ## Starts -/

/-- What a start has done to a record and the table, with `pid` for its process. -/
structure Launched (pid : Pid) (scheduled : Prop) (c : Container) (w : World) (c' : Container)
    (w' : World) : Prop where
  ptr : c'.ptr = c.ptr
  own : Live c' → c'.pid = pid.val
  enabled : w'.sched.enabled = w.sched.enabled
  target : ∀ q ∈ w.sched.targets, q ≠ pid.val → q ∈ w'.sched.targets
  only : ∀ q ∈ w'.sched.targets, q = pid.val ∨ q ∈ w.sched.targets
  added : scheduled → pid.val ∈ w'.sched.targets

/-- The process is stopped again, or left running. -/
theorem launched_takenBack (o : StartOutcome) (pid : Pid) (c : Container) (w w₁ : World)
    (hsched : w₁.sched = w.sched) :
    Launched pid False c w (takenBack o (c.launched o pid) w₁).1
      (takenBack o (c.launched o pid) w₁).2.1 := by
  have hstep := stopContainerProcess_tableStep o.stop 0 (c.launched o pid) w₁
  refine ⟨hstep.keep.ptr, fun hl => (hstep.keep.live hl).2, hstep.enabled.trans (by rw [hsched]),
    fun q hq hne => ?_, fun q hq => .inr (hsched ▸ hstep.only q hq), False.elim⟩
  rcases hstep.target q (hsched ▸ hq) with hin | ⟨-, -, heq⟩
  · exact hin
  · exact absurd heq hne

theorem finishStart_launched (o : StartOutcome) (schedule : Bool) (pid : Pid) (c : Container)
    (w : World) :
    Launched pid
      (schedule = true ∧ (finishStart o schedule (c.launched o pid) w).2.2 = 0 ∧
        o.schedRealloc = true) c w
      (finishStart o schedule (c.launched o pid) w).1
      (finishStart o schedule (c.launched o pid) w).2.1 := by
  have hpub := sched_publish o (c.launched o pid) w
  have hmove := finishStart_move o schedule (c.launched o pid) w
  generalize finishStart o schedule (c.launched o pid) w = r at hmove ⊢
  cases hmove with
  | unpublished =>
    have hback := launched_takenBack o pid c w _ hpub
    exact ⟨hback.ptr, hback.own, hback.enabled, hback.target, hback.only, fun h => by cases h.2.1⟩
  | undone =>
    have hback := launched_takenBack o pid c w
      ((publish o (c.launched o pid) w).1.emit (.save o.save)) hpub
    exact ⟨hback.ptr, hback.own, hback.enabled, hback.target, hback.only, fun h => by cases h.2.1⟩
  | done =>
    -- the last thing a start does is to add its process
    unfold announced
    refine ⟨rfl, fun _ => rfl, ?_, fun q hq _ => ?_, fun q hq => ?_, ?_⟩
    · cases schedule with
      | false => exact congrArg SchedulerState.enabled hpub
      | true =>
        exact (schedulerAddTarget_enabled _ _ _).trans (congrArg SchedulerState.enabled hpub)
    · rw [← hpub] at hq
      cases schedule with
      | false => exact hq
      | true => exact mem_schedulerAddTarget hq
    · rw [← hpub]
      cases schedule with
      | false => exact .inr hq
      | true => exact mem_of_schedulerAddTarget hq
    · rintro ⟨rfl, -, hmem⟩
      exact mem_schedulerAddTarget_self hmem _ _

/-- A start leaves record and table as they are, or has made a process. -/
theorem startContainer_table (o : StartOutcome) (schedule capture : Bool) (c : Container)
    (w : World) :
    TableStep c w (startContainer o schedule capture c w).1
      (startContainer o schedule capture c w).2.1 ∧
      (startContainer o schedule capture c w).2.2 ≠ 0 ∨
    ∃ pid, o.ns = .ok pid ∧
      Launched pid
        (schedule = true ∧ (startContainer o schedule capture c w).2.2 = 0 ∧
          o.schedRealloc = true) c w
        (startContainer o schedule capture c w).1
        (startContainer o schedule capture c w).2.1 := by
  have hmove := startContainer_move o schedule capture c w
  generalize startContainer o schedule capture c w = r at hmove ⊢
  have hsched := sched_namespaceStartContainer o.ns o.net (c.cleared capture) w
  cases hmove with
  | refused => exact .inl ⟨.refl c w, fun h => by cases h⟩
  | noProcess _ _ hns =>
    obtain ⟨hsame, hpid, hstate, -⟩ := startedRecord_spec hns
    rw [hns] at hsched
    refine .inl ⟨.of_sched (Cool.of_eq hsame.ptr hstate hpid).toKeep (fun h => ?_) hsched,
      fun h => by cases h⟩
    rw [← hstate]
    exact h
  | @finish r pid _ _ hns hpid =>
    obtain ⟨hsame, -, -, -⟩ := startedRecord_spec hns
    have h := finishStart_launched o schedule pid r.1 r.2.1
    rw [hns] at hsched
    exact .inr ⟨pid, namespaceStartContainer_ok (hns ▸ hpid), h.ptr.trans hsame.ptr, h.own,
      h.enabled.trans (by rw [hsched]), fun q hq => h.target q (by rw [hsched]; exact hq),
      fun q hq => hsched ▸ h.only q hq, h.added⟩

/-- The process `namespace_start_container` comes back with. -/
def NsOutcome.process : NsOutcome → Option Pid
  | .ok pid => some pid
  | _ => none

/-- Every live record is one of before with its entry, or has the new process,
which nobody else has; a scheduled start has entered it, and no PAUSED record
has become a target. -/
structure Starts (process : Option Pid) (scheduled : Prop) (m m' : Manager) : Prop where
  enabled : m'.world.sched.enabled = m.world.sched.enabled
  records : ∀ c' ∈ m'.list, Live c' →
    (∃ c, Retained m c m' c' ∧ ∀ pid, process = some pid → c'.pid ≠ pid.val) ∨
    ∃ pid, process = some pid ∧ c'.pid = pid.val ∧
      (scheduled → c'.pid ∈ m'.world.sched.targets)
  paused : ∀ c' ∈ m'.list, c'.state = .paused →
    c'.pid ∈ m'.world.sched.targets → c'.pid ∈ m.world.sched.targets

theorem Retained.trans {m m' m'' : Manager} {c c' c'' : Container} (h : Retained m c m' c')
    (h' : Retained m' c' m'' c'') : Retained m c m'' c'' :=
  ⟨h.mem, h.live, h'.pid.trans h.pid, fun hr => h.running (h'.running hr),
    fun ht => h'.target (h.target ht)⟩

/-- No process has been made, or the record that has it is gone. -/
theorem Retains.starts {process : Option Pid} {m m' : Manager} (h : Retains m m')
    (hother : ∀ d ∈ m.list, Live d → ∀ pid, process = some pid → d.pid ≠ pid.val)
    (scheduled : Prop) : Starts process scheduled m m' := by
  refine ⟨h.enabled, fun c' hc' hl => ?_, fun c' _ _ ht => h.only c'.pid ht⟩
  obtain ⟨c, hc⟩ := h.records c' hc' hl
  exact .inl ⟨c, hc, fun pid hp => by rw [hc.pid]; exact hother c hc.mem hc.live pid hp⟩

theorem Starts.after {process : Option Pid} {scheduled : Prop} {m m' m'' : Manager}
    (h : Retains m m') (h' : Starts process scheduled m' m'') : Starts process scheduled m m'' := by
  refine ⟨h'.enabled.trans h.enabled, fun c'' hc'' hl => ?_,
    fun c'' hc'' hp ht => h.only c''.pid (h'.paused c'' hc'' hp ht)⟩
  rcases h'.records c'' hc'' hl with ⟨c', hc', hne⟩ | hnew
  · obtain ⟨c, hc⟩ := h.records c' hc'.mem hc'.live
    exact .inl ⟨c, hc.trans hc', hne⟩
  · exact .inr hnew

theorem Starts.before {process : Option Pid} {scheduled : Prop} {m m' m'' : Manager}
    (h : Starts process scheduled m m') (h' : Retains m' m'') (hpaused : PausedFrom m' m'') :
    Starts process scheduled m m'' := by
  refine ⟨h'.enabled.trans h.enabled, fun c'' hc'' hl => ?_, fun c'' hc'' hp ht => ?_⟩
  · obtain ⟨c', hc'⟩ := h'.records c'' hc'' hl
    rcases h.records c' hc'.mem hc'.live with ⟨c, hc, hne⟩ | ⟨pid, hprocess, hpid, hsched⟩
    · exact .inl ⟨c, hc.trans hc', fun pid hp => by rw [hc'.pid]; exact hne pid hp⟩
    · exact .inr ⟨pid, hprocess, hc'.pid.trans hpid, fun hs => hc'.target (hsched hs)⟩
  · -- it was PAUSED before, with the same process
    obtain ⟨c', hc', hp', hpid⟩ := hpaused c'' hc'' hp
    rw [hpid] at ht ⊢
    exact h.paused c' hc' hp' (h'.only _ ht)

theorem startContainerById_starts {m : Manager} (hptrs : PtrNodup m.list)
    (hpids : LivePids m.list) (poll : PollOutcome) (o : StartOutcome) {id : Bytes}
    (schedule capture : Bool) (hid : id ≠ [])
    (hfresh : FreshPid (pollStates poll m).list o.ns) :
    Starts o.ns.process
      (schedule = true ∧ (startContainerById poll o id schedule capture m).2 = 0 ∧
        o.schedRealloc = true)
      m (startContainerById poll o id schedule capture m).1 := by
  have hpoll := pollStates_retains hptrs hpids poll
  have hpolled := hpids.descends (pollStates_descends poll m).keep
  -- a record that is live after the poll does not have the new pid
  have hother : ∀ d ∈ (pollStates poll m).list, Live d →
      ∀ pid, o.ns.process = some pid → d.pid ≠ pid.val := by
    intro d hd hl pid hpid
    cases hns : o.ns with
    | ok pid' =>
      rw [hns] at hpid
      cases hpid
      exact hfresh pid hns d hd hl
    | failBefore => rw [hns] at hpid; cases hpid
    | failAfter => rw [hns] at hpid; cases hpid
  refine .after hpoll ?_
  unfold startContainerById withContainer
  rw [if_neg hid]
  simp only
  cases hfind : findContainer (pollStates poll m).list id with
  | none => exact (Retains.refl _).starts hother _
  | some c =>
    have hc := (mem_of_findContainer hfind).1
    simp only
    rcases startContainer_table o schedule capture c (pollStates poll m).world with
      ⟨hstep, -⟩ | ⟨pid, hns, h⟩
    · exact (Retains.record hpolled hc hstep).starts hother _
    · have hprocess : o.ns.process = some pid := by rw [hns]; rfl
      refine ⟨h.enabled, fun d' hd' hl => ?_, fun d' hd' hp ht => ?_⟩
      · rcases mem_setContainer.mp hd' with ⟨_, _, _, rfl⟩ | ⟨hd', -⟩
        · refine .inr ⟨pid, hprocess, h.own hl, fun hs => ?_⟩
          rw [h.own hl]
          exact h.added hs
        · have hne := hother d' hd' hl pid hprocess
          refine .inl ⟨d', ⟨hd', hl, rfl, fun hr => hr, fun ht => h.target d'.pid ht hne⟩, ?_⟩
          exact hother d' hd' hl
      · -- whoever is PAUSED has been so since before the process was made
        rcases mem_setContainer.mp hd' with ⟨_, _, _, rfl⟩ | ⟨hd', -⟩
        · rcases startContainer_cool o schedule capture c (pollStates poll m).world with
            hcool | ⟨_, -, hst, -⟩
          · obtain ⟨hl, hpid⟩ := hcool.live (.inr hp)
            rw [hpid] at ht ⊢
            exact (h.only _ ht).resolve_left (hother c hc hl pid hprocess)
          · rw [hst] at hp
            cases hp
        · exact (h.only _ ht).resolve_left (hother d' hd' (.inr hp) pid hprocess)

/-! ## The operations -/

/-- The process an operation makes, if it comes as far as `clone`. -/
def LifeAction.process (m : Manager) : LifeAction → Option Pid
  | .start _ o id => if id = [] then none else o.ns.process
  | .run o spec | .runBackground o spec =>
    if (containerCreate o.create spec m).2.isSome then o.start.ns.process else none
  | _ => none

/-- `container_start` has returned 0, or `container_run_background` has. -/
def LifeAction.scheduled (m : Manager) : LifeAction → Bool
  | .start answers o id => (containerStart answers o id m).2 = 0
  | .runBackground o spec => (containerRunBackground o spec m).2.isSome
  | _ => false

/-- `realloc` in `scheduler_add_target`, should it be called. -/
def LifeAction.realloc : LifeAction → Bool
  | .start _ o _ => o.schedRealloc
  | .runBackground o _ => o.start.schedRealloc
  | _ => true

/-- `container_unpause`, the one operation that makes a record RUNNING without a
start. -/
def LifeAction.Resumes : LifeAction → Prop
  | .unpause _ _ _ _ => True
  | _ => False

theorem Starts.weaken {process : Option Pid} {scheduled scheduled' : Prop} {m m' : Manager}
    (h : Starts process scheduled m m') (himp : scheduled' → scheduled) :
    Starts process scheduled' m m' := by
  refine ⟨h.enabled, fun c' hc' hl => ?_, h.paused⟩
  rcases h.records c' hc' hl with hold | ⟨pid, hprocess, hpid, hsched⟩
  · exact .inl hold
  · exact .inr ⟨pid, hprocess, hpid, fun hs => hsched (himp hs)⟩

/-- The wait at the end of `container_run` stops the record without the scheduler. -/
theorem wait_retains (o : WaitOutcome) {id : Bytes} {m : Manager} {c : Container}
    (hpids : LivePids m.list) (hfind : findContainer m.list id = some c) :
    Retains m { m with
      list := setContainer m.list (waitForContainerProcess o c m.world).1
      world := (waitForContainerProcess o c m.world).2.1 } :=
  .record hpids (mem_of_findContainer hfind).1 (waitForContainerProcess_tableStep o c m.world)

theorem starts_run {m : Manager} (hwf : Wf m) (hpids : LivePids m.list) (o : RunOutcome)
    (spec : ContainerSpec) (hfresh : pidFresh m (.run o spec)) :
    Starts ((LifeAction.run o spec).process m) False m (containerRun o spec m).1 := by
  have hcreated := containerCreate_retains o.create spec m
  have hwf₁ : Wf (containerCreate o.create spec m).1 := hwf.grows (containerCreate_grows hwf _ spec)
  have hpids₁ := hpids.descends (containerCreate_descends o.create spec m).keep
  rw [pidFresh, LifeAction.atClone] at hfresh
  rw [LifeAction.process]
  unfold containerRun
  cases hcreate : containerCreate o.create spec m with
  | mk m₁ r =>
    rw [hcreate] at hcreated hwf₁ hpids₁ hfresh
    cases r with
    | none => exact hcreated.starts (fun _ _ _ _ hp => by cases hp) _
    | some id =>
      obtain ⟨rfl, -⟩ := containerCreate_new hcreate
      have hpids₂ := hpids₁.start o.poll o.start (containerId m.nextSequence) false false hfresh
      have hstart := Starts.after hcreated ((startContainerById_starts hwf₁.ptrs hpids₁ o.poll
        o.start false false (containerId_ne_nil m.nextSequence) hfresh).weaken False.elim)
      show Starts o.start.ns.process _ m _
      simp only
      generalize startContainerById o.poll o.start _ false false m₁ = r at hstart hpids₂ ⊢
      split
      · exact hstart
      · cases hfind : findContainer r.1.list (containerId m.nextSequence) with
        | none => exact hstart
        | some c =>
          exact hstart.before (wait_retains o.wait hpids₂ hfind)
            (setContainer_descends (mem_of_findContainer hfind).1
              (waitForContainerProcess_cool o.wait c r.1.world) _).pausedFrom

theorem starts_runBackground {m : Manager} (hwf : Wf m) (hpids : LivePids m.list)
    (o : RunOutcome) (spec : ContainerSpec) (hfresh : pidFresh m (.runBackground o spec)) :
    Starts ((LifeAction.runBackground o spec).process m)
      ((containerRunBackground o spec m).2.isSome = true ∧ o.start.schedRealloc = true) m
      (containerRunBackground o spec m).1 := by
  have hcreated := containerCreate_retains o.create spec m
  have hgrows := containerCreate_grows hwf o.create spec
  have hdesc := containerCreate_descends o.create spec m
  rw [pidFresh, LifeAction.atClone] at hfresh
  rw [LifeAction.process]
  unfold containerRunBackground
  cases hcreate : containerCreate o.create spec m with
  | mk m₁ r =>
    rw [hcreate] at hcreated hgrows hdesc hfresh
    cases r with
    | none => exact hcreated.starts (fun _ _ _ _ hp => by cases hp) _
    | some id =>
      obtain ⟨rfl, -⟩ := containerCreate_new hcreate
      have hlogged := hcreated.trans (recordLogPath_retains o.saveLogPath
        (containerId m.nextSequence) m₁)
      have hwf₂ := hwf.grows (recordLogPath_grows hgrows (hwf.grows hgrows) o.saveLogPath
        (containerId m.nextSequence))
      have hpids₂ := hpids.descends (hdesc.trans (recordLogPath_descends o.saveLogPath
        (containerId m.nextSequence) m₁)).keep
      have hstart := Starts.after hlogged (startContainerById_starts hwf₂.ptrs hpids₂ o.poll
        o.start true true (containerId_ne_nil m.nextSequence) hfresh)
      show Starts o.start.ns.process _ m _
      simp only
      split
      · exact hstart.weaken fun h => by cases h.1
      · rename_i hrc
        exact hstart.weaken fun h => ⟨rfl, not_not.mp hrc, h.2⟩

/-- `container_unpause` takes from the table what the poll before it does. -/
theorem containerUnpause_sched (poll : PollOutcome) (kill save : Bool) (id : Bytes) (m : Manager) :
    (containerUnpause poll kill save id m).1.world.sched = m.world.sched ∨
    (containerUnpause poll kill save id m).1.world.sched = (pollStates poll m).world.sched := by
  unfold containerUnpause withContainer
  split
  · exact .inl rfl
  simp only
  cases findContainer (pollStates poll m).list id with
  | none => exact .inr rfl
  | some c => exact .inr (sched_unpauseContainer kill save c _)

/-- What every operation but `container_unpause` does to the live records. -/
theorem starts_life {m m' : Manager} {a : LifeAction} (hwf : Wf m) (hpids : LivePids m.list)
    (hfresh : pidFresh m a) (hs : lifeStep m a = some m') (hresume : ¬ a.Resumes) :
    Starts (a.process m) (a.scheduled m = true ∧ a.realloc = true) m m' := by
  have hkept : ∀ {m'}, Retains m m' → ∀ scheduled, Starts none scheduled m m' :=
    fun h scheduled => h.starts (fun _ _ _ _ hp => by cases hp) scheduled
  cases a with
  | create o spec => cases hs; exact hkept (containerCreate_retains o spec m) _
  | start poll o id =>
    cases hs
    by_cases hid : id = []
    · -- the empty id finds no record
      have hnone : containerStart poll o id m = (m, -1) := by
        unfold containerStart startContainerById withContainer
        rw [if_pos hid]
      simp only [LifeAction.process, if_pos hid, hnone]
      exact hkept (.refl m) _
    · simp only [LifeAction.process, if_neg hid]
      exact (startContainerById_starts hwf.ptrs hpids poll o true true hid hfresh).weaken
        fun h => ⟨rfl, of_decide_eq_true h.1, h.2⟩
  | run o spec =>
    cases hs
    exact (starts_run hwf hpids o spec hfresh).weaken fun h => by cases h.1
  | runBackground o spec =>
    cases hs
    exact starts_runBackground hwf hpids o spec hfresh
  | stop poll o id timeoutS =>
    cases hs
    exact hkept (withContainer_retains hwf.ptrs hpids poll id
      (stopContainerProcess_tableStep o timeoutS)) _
  | pause poll kill save id =>
    cases hs
    exact hkept (withContainer_retains hwf.ptrs hpids poll id
      (pauseContainer_tableStep kill save)) _
  | unpause poll kill save id => exact absurd trivial hresume
  | delete poll save id =>
    cases hs
    exact hkept (containerDelete_retains hwf.ptrs hpids poll save id) _
  | poll o => cases hs; exact hkept (pollStates_retains hwf.ptrs hpids o) _

/-- **No operation makes a PAUSED container a target.** -/
theorem paused_targets_life {m m' : Manager} {a : LifeAction} (hwf : Wf m)
    (hpids : LivePids m.list) (hfresh : pidFresh m a) (hs : lifeStep m a = some m') :
    ∀ c' ∈ m'.list, c'.state = .paused →
      c'.pid ∈ m'.world.sched.targets → c'.pid ∈ m.world.sched.targets := by
  by_cases hresume : a.Resumes
  · cases a with
    | unpause poll kill save id =>
      cases hs
      intro c' _ _ ht
      rcases containerUnpause_sched poll kill save id m with hsched | hsched
      · rwa [hsched] at ht
      · rw [hsched] at ht
        exact (pollStates_retains hwf.ptrs hpids poll).only _ ht
    | _ => exact absurd hresume id
  · exact (starts_life hwf hpids hfresh hs hresume).paused

end ContainerSim.Runtime
