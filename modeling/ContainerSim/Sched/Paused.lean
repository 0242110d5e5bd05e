import ContainerSim.Runtime.Targets

/-!
# PAUSED containers and the thread

`container_pause` leaves the process it stops in the table, where the thread
finds it; the next rebuild of the table (`sched on`, `sched off`) drops it. No
other operation makes a target of a PAUSED container, so with these pauses
noticed in time the thread meets none.
-/

namespace ContainerSim.Sched

open Lib ContainerSim.Runtime

/-- The system with the pauses that the table does not show; they are not part
of the program. -/
structure PauseLog where
  sys : SchedSys
  /-- targets that `container_pause` was used on, still PAUSED, with no rebuild
  of the table since -/
  unseen : List Int

def PauseLog.init (m : Manager) : PauseLog := { sys := .init m, unseen := [] }

namespace PauseLog

/-- The target an operation pauses. -/
def pauses (s : PauseLog) (a : LifeAction) : Option Int :=
  (a.pauseTarget s.sys.mgr).filter (· ∈ s.sys.mgr.world.sched.targets)

/-- The pauses to notice after an operation that has led to `list`. -/
def record (s : PauseLog) (a : LifeAction) (list : List Container) : List Int :=
  ((s.pauses a).toList ++ s.unseen).filter (pausedPid list)

end PauseLog

def pauseLogStep (s : PauseLog) (a : SchedAction) : Option PauseLog :=
  (schedStep s.sys a).map fun sys =>
    match a with
    | .life a => { sys, unseen := s.record a sys.mgr.list }
    | .cmd _ => { sys, unseen := if s.sys.cmd = .refresh then [] else s.unseen }
    | _ => { s with sys }

/-- `container_pause` is not used on the process the thread has picked and not
yet continued, and the locked section of the thread waits until a target that
was paused is dropped or no longer PAUSED. -/
def Noticed (s : PauseLog) : SchedAction → Prop
  | .life a => s.sys.thread.picked = none ∨ a.pauseTarget s.sys.mgr ≠ s.sys.thread.picked
  | .thread _ => s.sys.thread = .top → s.unseen = []
  | _ => True

instance (s : PauseLog) : (a : SchedAction) → Decidable (Noticed s a)
  | .life a =>
    inferInstanceAs
      (Decidable (s.sys.thread.picked = none ∨ a.pauseTarget s.sys.mgr ≠ s.sys.thread.picked))
  | .thread _ => inferInstanceAs (Decidable (s.sys.thread = .top → s.unseen = []))
  | .on _ | .off | .slice _ | .cmd _ => inferInstanceAs (Decidable True)

/-! ## Signals leave the records alone -/

/-- Only the world outside the list has changed, and nothing was woken. -/
structure Still (s s' : SchedSys) : Prop where
  list : s'.mgr.list = s.mgr.list
  heap : s'.mgr.heap = s.mgr.heap
  seq : s'.mgr.nextSequence = s.mgr.nextSequence
  woken : s'.woken = s.woken

theorem Still.setSched (s : SchedSys) (sched : SchedulerState) : Still s (s.setSched sched) :=
  ⟨rfl, rfl, rfl, rfl⟩

theorem Still.contAll {s : SchedSys} {pids : List Int}
    (h : ∀ pid ∈ pids, pausedPid s.mgr.list pid = false) : Still s (s.contAll pids) := by
  refine ⟨rfl, rfl, rfl, ?_⟩
  have hnil : pids.filter (pausedPid s.mgr.list) = [] := by
    rw [List.filter_eq_nil_iff]
    intro pid hpid
    rw [h pid hpid]
    exact Bool.false_ne_true
  show s.woken ++ pids.filter (pausedPid s.mgr.list) = s.woken
  rw [hnil, List.append_nil]

theorem Still.trans {s s' s'' : SchedSys} (h : Still s s') (h' : Still s' s'') : Still s s'' :=
  ⟨h'.list.trans h.list, h'.heap.trans h.heap, h'.seq.trans h.seq, h'.woken.trans h.woken⟩

theorem pausedPid_eq_true {list : List Container} {pid : Int} :
    pausedPid list pid = true ↔ ∃ c ∈ list, c.state = .paused ∧ c.pid = pid := by
  simp [pausedPid]

theorem pausedPid_eq_false {list : List Container} {pid : Int} :
    pausedPid list pid = false ↔ ∀ c ∈ list, c.state = .paused → c.pid ≠ pid := by
  simp [pausedPid]

/-! ## The invariant -/

structure Undisturbed (s : PauseLog) : Prop where
  wf : Wf s.sys.mgr
  pids : LivePids s.sys.mgr.list
  /-- a PAUSED target is one by a pause that is still to be noticed -/
  targets : ∀ pid ∈ s.sys.mgr.world.sched.targets,
    pausedPid s.sys.mgr.list pid = true → pid ∈ s.unseen
  /-- whom the thread has picked is not PAUSED when it gets its SIGCONT -/
  picked : ∀ next, s.sys.thread.picked = some next → pausedPid s.sys.mgr.list next = false
  woken : s.sys.woken = []

theorem undisturbed_init {m : Manager} (hwf : Wf m) (hpids : LivePids m.list)
    (hempty : m.world.sched.targets = []) : Undisturbed (.init m) := by
  refine ⟨hwf, hpids, fun pid hpid => ?_, nofun, rfl⟩
  change pid ∈ m.world.sched.targets at hpid
  rw [hempty] at hpid
  cases hpid

/-- With no pause to be noticed no target is PAUSED. -/
theorem Undisturbed.not_paused {s : PauseLog} (h : Undisturbed s) (hnone : s.unseen = [])
    {pid : Int} (hpid : pid ∈ s.sys.mgr.world.sched.targets) :
    pausedPid s.sys.mgr.list pid = false := by
  rw [← Bool.not_eq_true]
  intro hpaused
  have hunseen := h.targets pid hpid hpaused
  rw [hnone] at hunseen
  cases hunseen

theorem Undisturbed.still {s : PauseLog} {sys : SchedSys} {unseen : List Int}
    (h : Undisturbed s) (hs : Still s.sys sys)
    (htargets : ∀ pid ∈ sys.mgr.world.sched.targets,
      pausedPid s.sys.mgr.list pid = true → pid ∈ unseen)
    (hpicked : ∀ next, sys.thread.picked = some next → pausedPid s.sys.mgr.list next = false) :
    Undisturbed { sys, unseen } := by
  refine ⟨?_, ?_, ?_, ?_, ?_⟩
  · obtain ⟨hptrs, hheap, hfresh⟩ := h.wf
    refine ⟨?_, ?_, ?_⟩
    · rw [hs.list]
      exact hptrs
    · rw [hs.list, hs.heap]
      exact hheap
    · rw [hs.list, hs.seq]
      exact hfresh
  · rw [hs.list]
    exact h.pids
  · rw [hs.list]
    exact htargets
  · rw [hs.list]
    exact hpicked
  · rw [hs.woken]
    exact h.woken

/-! ## The rebuild -/

/-- A RUNNING container does not share its pid with a PAUSED one. -/
theorem Undisturbed.running {s : PauseLog} (h : Undisturbed s) :
    ∀ pid ∈ runningPids s.sys.mgr.list, pausedPid s.sys.mgr.list pid = false := by
  intro pid hpid
  obtain ⟨c, hc, rfl⟩ := List.mem_map.mp hpid
  obtain ⟨hc, hrun⟩ := List.mem_filter.mp hc
  simp only [decide_eq_true_eq] at hrun
  rw [pausedPid_eq_false]
  intro d hd hpaused heq
  have hptr := h.pids d hd c hc (.inr hpaused) (.inl hrun.1) heq
  rw [h.wf.ptrs.eq hc hd hptr, hrun.1] at hpaused
  cases hpaused

theorem refreshSignals_conts (enabled : Bool) (running : List Int) :
    ∀ pid ∈ (refreshSignals enabled running).2, pid ∈ running := by
  intro pid hpid
  cases running with
  | nil => exact hpid
  | cons first rest =>
    cases enabled with
    | true =>
      have hfirst : pid ∈ [first] := hpid
      rw [List.mem_singleton.mp hfirst]
      exact List.mem_cons_self
    | false => exact hpid

theorem mem_of_addAll {realloc : Int → Bool} {pids : List Int} {s : SchedulerState} {pid : Int}
    (hpid : pid ∈ (pids.foldl (fun s p => schedulerAddTarget (realloc p) p s) s).targets) :
    pid ∈ pids ∨ pid ∈ s.targets := by
  induction pids generalizing s with
  | nil => exact .inr hpid
  | cons p pids ih =>
    rcases ih hpid with hpid | hpid
    · exact .inl (List.mem_cons_of_mem p hpid)
    · rcases mem_of_schedulerAddTarget hpid with rfl | hpid
      · exact .inl List.mem_cons_self
      · exact .inr hpid

/-- The rebuilt table holds RUNNING containers only, and so do the SIGCONTs. -/
theorem Undisturbed.refresh {s : PauseLog} (h : Undisturbed s) (realloc : Int → Bool) :
    Undisturbed { sys := { containerSchedulerRefreshTargets realloc s.sys with cmd := .idle }
                  unseen := [] } := by
  have hstill : Still s.sys (containerSchedulerRefreshTargets realloc s.sys) := by
    unfold containerSchedulerRefreshTargets
    simp only
    have hconts := refreshSignals_conts s.sys.mgr.world.sched.enabled (runningPids s.sys.mgr.list)
    generalize refreshSignals s.sys.mgr.world.sched.enabled (runningPids s.sys.mgr.list) = r
      at hconts ⊢
    generalize List.foldl _ _ _ = sched
    have hstop : Still s.sys ((s.sys.setSched sched).signalAll .stop r.1) := ⟨rfl, rfl, rfl, rfl⟩
    exact hstop.trans (.contAll fun pid hpid => h.running pid (hconts pid hpid))
  refine h.still ⟨hstill.list, hstill.heap, hstill.seq, hstill.woken⟩ (fun pid hpid hpaused => ?_)
    h.picked
  change pid ∈ (containerSchedulerRefreshTargets realloc s.sys).mgr.world.sched.targets at hpid
  rw [refreshTargets_sched] at hpid
  rcases mem_of_addAll hpid with hrunning | hcleared
  · rw [h.running pid hrunning] at hpaused
    cases hpaused
  · cases hcleared

/-! ## The thread -/

/-- The locked section drops dead processes and picks among the others. -/
theorem Undisturbed.locked {s : PauseLog} {alive : Int → Bool} {sys : SchedSys}
    (h : Undisturbed s) (htop : s.sys.thread = .top) (hnone : s.unseen = [])
    (hs : threadStep alive s.sys = some sys) : Undisturbed { s with sys } := by
  unfold threadStep at hs
  rw [htop] at hs
  simp only at hs
  split at hs
  · cases hs
    exact h.still ⟨rfl, rfl, rfl, rfl⟩ h.targets nofun
  · have htable := (schedulerLocked_table alive s.sys.mgr.world.sched).2
    cases hlocked : schedulerLocked alive s.sys.mgr.world.sched with
    | mk sched slice =>
      rw [hlocked] at hs htable
      have htargets : ∀ pid ∈ sched.targets, pausedPid s.sys.mgr.list pid = true →
          pid ∈ s.unseen := by
        intro pid hpid
        rw [htable] at hpid
        exact h.targets pid (mem_pruneDeadLocked.mp hpid).1
      cases slice with
      | resumeAll pids =>
        cases hs
        have hcont : ∀ pid ∈ pids, pausedPid s.sys.mgr.list pid = false :=
          fun pid hpid => h.not_paused hnone (schedulerLocked_resume_mem hlocked pid hpid)
        refine h.still ((Still.setSched s.sys sched).trans (.contAll hcont)) ?_ h.picked
        rw [sched_contAll]
        exact htargets
      | rotate current next =>
        cases hs
        refine h.still ⟨rfl, rfl, rfl, rfl⟩ htargets fun next' hnext => ?_
        rw [← Option.some.inj hnext]
        exact h.not_paused hnone (schedulerLocked_next_mem hlocked)

theorem Undisturbed.thread {s : PauseLog} {alive : Int → Bool} {sys : SchedSys}
    (h : Undisturbed s) (hnoticed : Noticed s (.thread alive))
    (hs : threadStep alive s.sys = some sys) : Undisturbed { s with sys } := by
  cases hpc : s.sys.thread with
  | off =>
    rw [threadStep, hpc] at hs
    cases hs
  | top => exact h.locked hpc (hnoticed hpc) hs
  | stop current next =>
    rw [threadStep, hpc] at hs
    cases hs
    refine h.still ⟨rfl, rfl, rfl, rfl⟩ ?_ fun next' hnext => ?_
    · rw [signalAll_sched]
      exact h.targets
    · exact h.picked next' (by rw [hpc]; exact hnext)
  | cont next =>
    rw [threadStep, hpc] at hs
    cases hs
    have hfree := h.picked next (by rw [hpc]; rfl)
    have hstill : Still s.sys (s.sys.contAll (if 0 < next then [next] else [])) := by
      refine .contAll fun pid hpid => ?_
      split at hpid
      · rw [List.mem_singleton.mp hpid]
        exact hfree
      · exact absurd hpid List.not_mem_nil
    refine h.still ⟨hstill.list, hstill.heap, hstill.seq, hstill.woken⟩ ?_ fun _ hnext => ?_
    · rw [sched_contAll]
      exact h.targets
    · cases hnext

/-! ## The operations -/

theorem Undisturbed.life {s : PauseLog} {a : LifeAction} {m' : Manager} (h : Undisturbed s)
    (hfresh : pidFresh s.sys.mgr a) (hnoticed : Noticed s (.life a))
    (hs : lifeStep s.sys.mgr a = some m') :
    Undisturbed { sys := { s.sys with mgr := m' }, unseen := s.record a m'.list } := by
  refine ⟨h.wf.life hs, h.pids.life hfresh hs, fun pid hpid hpaused => ?_, fun next hnext => ?_,
    h.woken⟩
  · refine List.mem_filter.mpr ⟨?_, hpaused⟩
    obtain ⟨c', hc', hp, rfl⟩ := pausedPid_eq_true.mp hpaused
    -- it was a target before, and PAUSED unless this is the pause
    have hbefore := paused_targets_life h.wf h.pids hfresh hs c' hc' hp hpid
    rcases paused_life hs c' hc' hp with ⟨c, hc, hpc, hpid⟩ | htarget
    · rw [hpid] at hbefore ⊢
      exact List.mem_append_right _ (h.targets _ hbefore (pausedPid_eq_true.mpr ⟨c, hc, hpc, rfl⟩))
    · refine List.mem_append_left _ ?_
      rw [PauseLog.pauses, htarget, Option.filter_some, if_pos (decide_eq_true hbefore)]
      exact List.mem_singleton_self _
  · have hfree := pausedPid_eq_false.mp (h.picked next hnext)
    rw [pausedPid_eq_false]
    intro c' hc' hpaused heq
    rcases paused_life hs c' hc' hpaused with ⟨c, hc, hp, hpid⟩ | htarget
    · exact hfree c hc hp (hpid.symm.trans heq)
    · -- it has been paused just now, although the thread had picked it
      have hnext' : s.sys.thread.picked = some next := hnext
      rw [heq] at htarget
      rcases hnoticed with hnobody | hother
      · rw [hnobody] at hnext'
        cases hnext'
      · exact hother (htarget.trans hnext'.symm)

theorem Undisturbed.beginOn {s : PauseLog} (h : Undisturbed s) (create : Bool) :
    Undisturbed { s with sys := beginOn create s.sys } := by
  unfold Sched.beginOn
  simp only
  generalize (if s.sys.mgr.world.sched.timeSliceMs = 0 then 200
    else s.sys.mgr.world.sched.timeSliceMs) = slice
  have htable := (schedulerStart_table slice create s.sys.mgr.world.sched).2
  have htargets : ∀ pid ∈ (schedulerStart slice create s.sys.mgr.world.sched).1.targets,
      pausedPid s.sys.mgr.list pid = true → pid ∈ s.unseen := by
    rw [htable]
    exact h.targets
  split
  · exact h.still ⟨rfl, rfl, rfl, rfl⟩ htargets h.picked
  · refine h.still ⟨rfl, rfl, rfl, rfl⟩ htargets fun next hnext => ?_
    -- a thread that has just been made has picked nobody
    change (if s.sys.mgr.world.sched.threadStarted then s.sys.thread else .top).picked = _ at hnext
    split at hnext
    · exact h.picked next hnext
    · cases hnext

/-- One case for each command of the scheduler and each turn of its thread. -/
theorem Undisturbed.step {s s' : PauseLog} {a : SchedAction} (h : Undisturbed s)
    (hfresh : a.fresh s.sys) (hnoticed : Noticed s a) (hs : pauseLogStep s a = some s') :
    Undisturbed s' := by
  obtain ⟨sys, hstep, rfl⟩ := Option.map_eq_some_iff.mp hs
  cases a with
  | life a =>
    simp only [schedStep] at hstep
    split at hstep
    · obtain ⟨m', hm', rfl⟩ := Option.map_eq_some_iff.mp hstep
      exact h.life hfresh hnoticed hm'
    · cases hstep
  | on create =>
    simp only [schedStep] at hstep
    split at hstep
    · cases hstep
      exact h.beginOn create
    · cases hstep
  | off =>
    simp only [schedStep] at hstep
    split at hstep
    · cases hstep
      exact h.still ⟨rfl, rfl, rfl, rfl⟩ h.targets h.picked
    · cases hstep
  | slice ms =>
    simp only [schedStep] at hstep
    split at hstep
    · cases hstep
      -- the length of a slice is not part of the table
      refine h.still (Still.setSched s.sys _) ?_ h.picked
      show ∀ pid ∈ (schedulerSetTimeSliceMs ms s.sys.mgr.world.sched).1.targets, _
      unfold schedulerSetTimeSliceMs
      split
      · exact h.targets
      · exact h.targets
    · cases hstep
  | cmd realloc =>
    simp only [schedStep] at hstep
    unfold cmdStep at hstep
    split at hstep
    · cases hstep
    · rename_i hcmd
      cases hstep
      simp only [hcmd, reduceCtorEq, if_false]
      exact h.still ⟨rfl, rfl, rfl, rfl⟩ h.targets h.picked
    · rename_i hcmd
      cases hstep
      simp only [hcmd, if_true]
      exact h.refresh realloc
  | thread alive => exact h.thread hnoticed hstep

/-- **A PAUSED container stays paused** in every run in which a target that
`container_pause` was used on is dropped by a rebuild of the table, or is no
longer PAUSED, before the thread looks at the table again, and the process that
the thread has just picked is not paused: neither the thread nor
`container_scheduler_refresh_targets` continues the process of a PAUSED
container, and of the operations only `container_unpause` and
`stop_container_process` do, on the container they work on. -/
theorem paused_stays_paused {m : Manager} (hwf : Wf m) (hpids : LivePids m.list)
    (hempty : m.world.sched.targets = []) {as : List SchedAction} {s : PauseLog}
    (hrun : RunOk pauseLogStep (fun s a => a.fresh s.sys ∧ Noticed s a) (.init m) as s) :
    s.sys.woken = [] ∧
    ∀ a m', lifeStep s.sys.mgr a = some m' →
      conts m'.world.trace = conts s.sys.mgr.world.trace ∨
      ∃ poll id c, a.resumes = some (poll, id) ∧
        findContainer (pollStates poll s.sys.mgr).list id = some c ∧ c.state = .paused ∧
        conts m'.world.trace = conts s.sys.mgr.world.trace ++ [c.pid] := by
  have hinv : Undisturbed s :=
    hrun.invariant (I := Undisturbed) (fun _ _ _ h hok hs => h.step hok.1 hok.2 hs)
      (undisturbed_init hwf hpids hempty)
  exact ⟨hinv.woken, fun a m' hs => conts_life hs⟩

/-- With `sched on` three containers run, and the thread is past its locked
section when a target is paused. `sched on` once more drops it, and the thread
goes through an iteration with the two others. -/
def pausedOutside : List SchedAction :=
  [.on true, .cmd fun _ => true, .cmd fun _ => true,
    .life (.runBackground (.clean (.ofNat 100)) .zero),
    .life (.runBackground (.clean (.ofNat 101)) .zero),
    .life (.runBackground (.clean (.ofNat 102)) .zero), .thread fun _ => true,
    .life (.pause .quiet true true (containerId 1)), .thread fun _ => true, .on true,
    .cmd fun _ => true, .cmd fun _ => true, .thread fun _ => true, .thread fun _ => true,
    .thread fun _ => true, .thread fun _ => true]

theorem paused_stays_paused_outside :
    ∃ s, RunOk pauseLogStep (fun s a => a.fresh s.sys ∧ Noticed s a) (.init .init) pausedOutside s ∧
      s.sys.mgr.list.map Container.state = [.paused, .running, .running] ∧
      s.sys.thread = .top ∧ s.sys.woken = [] := by
  obtain ⟨s, hrun, hstates, htop⟩ := exists_runOk_of_exec pauseLogStep
    (fun s a => a.fresh s.sys ∧ Noticed s a) (.init .init) pausedOutside
    (fun s => s.sys.mgr.list.map Container.state = [.paused, .running, .running] ∧
      s.sys.thread = .top) (by decide +kernel)
  exact ⟨s, hrun, hstates, htop,
    (paused_stays_paused wf_init (fun _ h => absurd h List.not_mem_nil) rfl hrun).1⟩

/-- With `sched on` a container is started and paused. -/
def pausedTarget : List SchedAction :=
  [.on true, .cmd fun _ => true, .cmd fun _ => true,
    .life (.runBackground (.clean (.ofNat 100)) .zero),
    .life (.pause .quiet true true (containerId 1)), .thread fun _ => true]

/-- The next iteration of the thread continues the paused process. -/
theorem paused_target_continued :
    ∃ s, RunOk schedStep (fun s a => a.fresh s) (.init .init) pausedTarget s ∧
      s.mgr.list.map (fun c => (c.state, c.pid)) = [(.paused, 100)] ∧ s.woken = [100] ∧
      ¬ s.woken = [] := by
  obtain ⟨s, hrun, h⟩ := exists_runOk_of_exec schedStep (fun s a => a.fresh s) (.init .init)
    pausedTarget
    (fun s => s.mgr.list.map (fun c => (c.state, c.pid)) = [(.paused, 100)] ∧ s.woken = [100] ∧
      ¬ s.woken = []) (by decide +kernel)
  exact ⟨s, hrun, h⟩

end ContainerSim.Sched
