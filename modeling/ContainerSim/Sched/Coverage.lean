import ContainerSim.Runtime.Targets

/-!
# Who is in the table

The table is rebuilt from the RUNNING containers by `sched on` and `sched off`,
and in between a start adds to it. `container_unpause` does not, so a container
that was PAUSED at the last `sched on` is RUNNING afterwards without being a
target. With that excluded every container the scheduler is to know is one.
-/

namespace ContainerSim.Sched

open Lib ContainerSim.Runtime

/-- The system with the history that says who is to be in the table; the
history is not part of the program. -/
structure Watched where
  sys : SchedSys
  /-- processes whose start with scheduling has returned 0 -/
  scheduled : List Int
  /-- processes of the containers RUNNING at the last `sched on` -/
  atOn : List Int
  /-- processes of the containers PAUSED at the last rebuild of the table -/
  missed : List Int

def Watched.init (m : Manager) : Watched :=
  { sys := .init m, scheduled := [], atOn := [], missed := [] }

def pausedPids (list : List Container) : List Int :=
  (list.filter fun c => c.state = .paused).map Container.pid

namespace Watched

abbrev enabled (s : Watched) : Bool := s.sys.mgr.world.sched.enabled

/-- A pid stands for a new process. -/
def launch (s : Watched) (process : Option Pid) (scheduled : Bool) : Watched :=
  match process with
  | none => s
  | some pid =>
    { s with
      scheduled := (if scheduled then [pid.val] else []) ++ s.scheduled.filter (· ≠ pid.val)
      atOn := s.atOn.filter (· ≠ pid.val), missed := s.missed.filter (· ≠ pid.val) }

/-- The table is rebuilt. -/
def rebuild (s : Watched) : Watched :=
  { s with
    atOn := if s.enabled then runningPids s.sys.mgr.list else s.atOn
    missed := pausedPids s.sys.mgr.list }

/-- The process is one the scheduler is to know. -/
def Owed (s : Watched) (pid : Int) : Prop := pid ∈ s.scheduled ∨ pid ∈ s.atOn

instance (s : Watched) (pid : Int) : Decidable (s.Owed pid) := by unfold Owed; infer_instance

end Watched

def watchedStep (s : Watched) (a : SchedAction) : Option Watched :=
  (schedStep s.sys a).map fun sys =>
    match a with
    | .life a => { s.launch (a.process s.sys.mgr) (a.scheduled s.sys.mgr) with sys }
    | .cmd _ => { (if s.sys.cmd = .refresh then s.rebuild else s) with sys }
    | _ => { s with sys }

/-- The process of the PAUSED container an unpause works on. -/
def resumed (m : Manager) : LifeAction → Option Int
  | .unpause answers _ _ id =>
    ((findContainer (pollStates answers m).list id).filter fun c => c.state = .paused).map
      Container.pid
  | _ => none

/-- With scheduling on, `container_unpause` is not used on a container the
scheduler is to know that was PAUSED at the last rebuild, `realloc` finds memory
for the table, and a process that has not been reaped is there for `kill`. -/
def Undropped (s : Watched) : SchedAction → Prop
  | .life a => s.enabled = true →
    a.realloc = true ∧ ∀ pid ∈ resumed s.sys.mgr a, s.Owed pid → pid ∉ s.missed
  | .cmd realloc => s.enabled = true → s.sys.cmd = .refresh →
    ∀ pid ∈ runningPids s.sys.mgr.list, realloc pid = true
  | .thread alive => s.enabled = true → s.sys.cmd = .idle → s.sys.thread = .top →
    ∀ c ∈ s.sys.mgr.list, Live c → s.Owed c.pid → alive c.pid = true
  | _ => True

instance (s : Watched) : (a : SchedAction) → Decidable (Undropped s a)
  | .life _ => by unfold Undropped; infer_instance
  | .cmd _ => by unfold Undropped; infer_instance
  | .thread _ => by unfold Undropped; infer_instance
  | .on _ | .off | .slice _ => .isTrue trivial

/-! ## The invariant -/

/-- Between the commands, with scheduling on, every live container the scheduler
is to know is a target, unless it has been PAUSED since before the table was
built. -/
def Covered (s : Watched) : Prop :=
  s.enabled = true → s.sys.cmd = .idle → ∀ c ∈ s.sys.mgr.list, Live c → s.Owed c.pid →
    c.pid ∉ s.missed ∨ c.state = .running → c.pid ∈ s.sys.mgr.world.sched.targets

structure Attended (s : Watched) : Prop where
  wf : Wf s.sys.mgr
  pids : LivePids s.sys.mgr.list
  pos : ∀ c ∈ s.sys.mgr.list, Live c → 0 < c.pid
  covered : Covered s

theorem attended_init {m : Manager} (hwf : Wf m) (hpids : LivePids m.list)
    (hpos : ∀ c ∈ m.list, Live c → 0 < c.pid) : Attended (.init m) := by
  refine ⟨hwf, hpids, hpos, fun _ _ c _ _ howed => ?_⟩
  rcases howed with h | h <;> cases h

section
variable {s : Watched} {process : Option Pid} {scheduled : Bool} {pid : Int}

@[simp] theorem launch_sys : (s.launch process scheduled).sys = s.sys := by
  unfold Watched.launch
  split <;> rfl

/-- What a start does to the history of another process. -/
theorem owed_launch (hne : ∀ p, process = some p → pid ≠ p.val) :
    (s.launch process scheduled).Owed pid ↔ s.Owed pid := by
  cases process with
  | none => rfl
  | some p =>
    have hne := hne p rfl
    cases scheduled <;> simp [Watched.launch, Watched.Owed, hne]

theorem missed_launch (hne : ∀ p, process = some p → pid ≠ p.val) :
    pid ∈ (s.launch process scheduled).missed ↔ pid ∈ s.missed := by
  cases process with
  | none => rfl
  | some p =>
    have hne := hne p rfl
    simp [Watched.launch, hne]

/-- The new process is owed only for its own start. -/
theorem owed_launch_self {p : Pid} (h : (s.launch (some p) scheduled).Owed p.val) :
    scheduled = true := by
  cases scheduled with
  | true => rfl
  | false => simp [Watched.launch, Watched.Owed] at h

end

/-! ## Operations -/

theorem Attended.starts {s : Watched} {m' : Manager} {process : Option Pid} {scheduled : Bool}
    {P : Prop} (h : Attended s) (hwf : Wf m') (hpids : LivePids m'.list)
    (hs : Starts process (scheduled = true ∧ P) s.sys.mgr m') (hP : s.enabled = true → P) :
    Attended { s.launch process scheduled with sys := { s.sys with mgr := m' } } := by
  refine ⟨hwf, hpids, fun c' hc' hl => ?_, fun henabled hidle c' hc' hl howed hseen => ?_⟩
  · rcases hs.records c' hc' hl with ⟨c, hc, -⟩ | ⟨p, -, hpid, -⟩
    · rw [hc.pid]
      exact h.pos c hc.mem hc.live
    · rw [hpid]
      exact p.pos
  · have henabled : s.enabled = true := hs.enabled.symm.trans henabled
    rcases hs.records c' hc' hl with ⟨c, hc, hne⟩ | ⟨p, hprocess, hpid, htarget⟩
    · refine hc.target (h.covered henabled hidle c hc.mem hc.live ?_ ?_)
      · rw [← hc.pid]
        exact (owed_launch hne).mp howed
      · rw [← hc.pid]
        refine hseen.imp (fun hm hin => hm ?_) hc.running
        exact (missed_launch hne).mpr hin
    · refine htarget ⟨?_, hP henabled⟩
      subst hprocess
      rw [hpid] at howed
      exact owed_launch_self howed

/-- An unpause: the record it names is the one that may become RUNNING. -/
theorem containerUnpause_records {m : Manager} (hptrs : PtrNodup m.list) (hpids : LivePids m.list)
    (poll : PollOutcome) (kill save : Bool) (id : Bytes) {c' : Container}
    (hc' : c' ∈ (containerUnpause poll kill save id m).1.list) (hl : Live c') :
    ∃ c ∈ m.list, Live c ∧ c'.pid = c.pid ∧
      (c.pid ∈ m.world.sched.targets →
        c'.pid ∈ (containerUnpause poll kill save id m).1.world.sched.targets) ∧
      (c'.state = .running →
        c.state = .running ∨ resumed m (.unpause poll kill save id) = some c.pid) := by
  have hpoll := pollStates_retains hptrs hpids poll
  -- without the record, or without an id, there is only the poll
  have hkept : ∀ {m'}, Retains m m' → c' ∈ m'.list → ∃ c ∈ m.list, Live c ∧ c'.pid = c.pid ∧
      (c.pid ∈ m.world.sched.targets → c'.pid ∈ m'.world.sched.targets) ∧
      (c'.state = .running →
        c.state = .running ∨ resumed m (.unpause poll kill save id) = some c.pid) := by
    intro m' hr hmem
    obtain ⟨c, hc⟩ := hr.records c' hmem hl
    exact ⟨c, hc.mem, hc.live, hc.pid, hc.target, fun h => .inl (hc.running h)⟩
  unfold containerUnpause withContainer at hc' ⊢
  split at hc'
  · rename_i hid
    rw [if_pos hid]
    exact hkept (.refl m) hc'
  rename_i hid
  rw [if_neg hid]
  simp only at hc' ⊢
  cases hfind : findContainer (pollStates poll m).list id with
  | none =>
    rw [hfind] at hc'
    exact hkept hpoll hc'
  | some c =>
    rw [hfind] at hc'
    simp only at hc' ⊢
    have hcool := unpauseContainer_cool kill save c (pollStates poll m).world
    have hsched := sched_unpauseContainer kill save c (pollStates poll m).world
    rcases mem_setContainer.mp hc' with ⟨_, _, _, rfl⟩ | ⟨hd, -⟩
    · -- the record itself
      obtain ⟨hlive, hpid⟩ := hcool.live hl
      obtain ⟨b, hb⟩ := hpoll.records c (mem_of_findContainer hfind).1 hlive
      refine ⟨b, hb.mem, hb.live, hpid.trans hb.pid, fun ht => ?_, fun _ => ?_⟩
      · rw [hsched, hpid]
        exact hb.target ht
      · rcases hlive with hrunning | hpaused
        · exact .inl (hb.running hrunning)
        · refine .inr ?_
          simp [resumed, hfind, hpaused, hb.pid]
    · obtain ⟨b, hb⟩ := hpoll.records c' hd hl
      refine ⟨b, hb.mem, hb.live, hb.pid, fun ht => ?_, fun h => .inl (hb.running h)⟩
      rw [hsched]
      exact hb.target ht

theorem containerUnpause_enabled (poll : PollOutcome) (kill save : Bool) (id : Bytes)
    {m : Manager} (hptrs : PtrNodup m.list) (hpids : LivePids m.list) :
    (containerUnpause poll kill save id m).1.world.sched.enabled = m.world.sched.enabled := by
  rcases containerUnpause_sched poll kill save id m with hsched | hsched
  · rw [hsched]
  · rw [hsched, (pollStates_retains hptrs hpids poll).enabled]

theorem Attended.life {s : Watched} {a : LifeAction} {m' : Manager} (h : Attended s)
    (hfresh : pidFresh s.sys.mgr a) (hok : Undropped s (.life a))
    (hs : lifeStep s.sys.mgr a = some m') :
    Attended { s.launch (a.process s.sys.mgr) (a.scheduled s.sys.mgr) with
      sys := { s.sys with mgr := m' } } := by
  have hwf := h.wf.life hs
  have hpids := h.pids.life hfresh hs
  by_cases hresumes : a.Resumes
  · cases a with
    | unpause poll kill save id =>
      cases hs
      have hrecords := fun c' (hc' : c' ∈ (containerUnpause poll kill save id s.sys.mgr).1.list) =>
        containerUnpause_records h.wf.ptrs h.pids poll kill save id hc'
      have henabled' := containerUnpause_enabled poll kill save id h.wf.ptrs h.pids
      refine ⟨hwf, hpids, fun c' hc' hl => ?_, fun henabled hidle c' hc' hl howed hseen => ?_⟩
      · obtain ⟨c, hc, hlive, hpid, -⟩ := hrecords c' hc' hl
        rw [hpid]
        exact h.pos c hc hlive
      · have henabled : s.enabled = true := henabled'.symm.trans henabled
        obtain ⟨c, hc, hlive, hpid, htarget, hrunning⟩ := hrecords c' hc' hl
        have howed : s.Owed c.pid := hpid ▸ howed
        refine htarget (h.covered henabled hidle c hc hlive howed ?_)
        rcases hseen with hnot | hrun
        · exact .inl (hpid ▸ hnot)
        · rcases hrunning hrun with hrun | hresumed
          · exact .inr hrun
          · exact .inl ((hok henabled).2 c.pid hresumed howed)
    | _ => exact absurd hresumes id
  · exact h.starts hwf hpids (starts_life h.wf h.pids hfresh hs hresumes) fun he => (hok he).1

/-! ## Commands and the thread -/

/-- The records stay, and so do the entries if the state is one to be covered. -/
theorem Attended.table {s : Watched} {sys : SchedSys} (h : Attended s)
    (hlist : sys.mgr.list = s.sys.mgr.list) (hwf : Wf sys.mgr)
    (hcovered : sys.mgr.world.sched.enabled = true → sys.cmd = .idle →
      s.enabled = true ∧ s.sys.cmd = .idle ∧
      ∀ c ∈ s.sys.mgr.list, Live c → s.Owed c.pid → c.pid ∈ s.sys.mgr.world.sched.targets →
        c.pid ∈ sys.mgr.world.sched.targets) : Attended { s with sys } := by
  refine ⟨hwf, hlist ▸ h.pids, hlist ▸ h.pos, fun henabled hidle c hc hl howed hseen => ?_⟩
  obtain ⟨henabled', hidle', htarget⟩ := hcovered henabled hidle
  have hc : c ∈ s.sys.mgr.list := hlist ▸ hc
  exact htarget c hc hl howed (h.covered henabled' hidle' c hc hl howed hseen)

/-- The loop that fills the table. -/
theorem mem_addAll {realloc : Int → Bool} {pids : List Int}
    (hmem : ∀ pid ∈ pids, realloc pid = true) (s : SchedulerState) {pid : Int}
    (hpid : pid ∈ pids ∨ pid ∈ s.targets) :
    pid ∈ (pids.foldl (fun s p => schedulerAddTarget (realloc p) p s) s).targets := by
  induction pids generalizing s with
  | nil => exact hpid.resolve_left List.not_mem_nil
  | cons p pids ih =>
    refine ih (fun q hq => hmem q (List.mem_cons_of_mem _ hq)) _ ?_
    rcases hpid with hpid | hpid
    · rcases List.mem_cons.mp hpid with rfl | hpid
      · exact .inr (mem_schedulerAddTarget_self (hmem pid List.mem_cons_self) pid s)
      · exact .inl hpid
    · exact .inr (mem_schedulerAddTarget hpid)

theorem enabled_addAll (realloc : Int → Bool) (pids : List Int) (s : SchedulerState) :
    (pids.foldl (fun s p => schedulerAddTarget (realloc p) p s) s).enabled = s.enabled := by
  induction pids generalizing s with
  | nil => rfl
  | cons p pids ih => exact (ih _).trans (schedulerAddTarget_enabled _ p s)

/-- After a rebuild the RUNNING containers are the targets. -/
theorem Attended.rebuild {s : Watched} {realloc : Int → Bool} (h : Attended s)
    (hcmd : s.sys.cmd = .refresh) (hok : Undropped s (.cmd realloc)) :
    Attended { s.rebuild with
      sys := { containerSchedulerRefreshTargets realloc s.sys with cmd := .idle } } := by
  refine ⟨h.wf.world _, h.pids, h.pos, ?_⟩
  intro henabled _ c hc hl _ hseen
  have henabled : s.enabled = true := by
    rw [← henabled]
    show _ = (containerSchedulerRefreshTargets realloc s.sys).mgr.world.sched.enabled
    rw [refreshTargets_sched, enabled_addAll]
    rfl
  have hrunning : c.state = .running := by
    rcases hl with hrunning | hpaused
    · exact hrunning
    · refine hseen.resolve_left fun hnot => hnot ?_
      exact List.mem_map_of_mem (List.mem_filter.mpr ⟨hc, by simp [hpaused]⟩)
  show c.pid ∈ (containerSchedulerRefreshTargets realloc s.sys).mgr.world.sched.targets
  rw [refreshTargets_sched]
  refine mem_addAll (hok henabled hcmd) _ (.inl ?_)
  exact List.mem_map_of_mem (List.mem_filter.mpr ⟨hc, by simp [hrunning, h.pos c hc hl]⟩)

/-- The thread drops nobody it is to keep. -/
theorem Attended.locked {s : Watched} {sys : SchedSys} {alive : Int → Bool} (h : Attended s)
    (hok : Undropped s (.thread alive)) (htop : s.sys.thread = .top)
    (hcmd : sys.cmd = s.sys.cmd) (hlist : sys.mgr.list = s.sys.mgr.list) (hwf : Wf sys.mgr)
    (hsched : sys.mgr.world.sched = (schedulerLocked alive s.sys.mgr.world.sched).1) :
    Attended { s with sys } := by
  obtain ⟨henabled', htargets⟩ := schedulerLocked_table alive s.sys.mgr.world.sched
  refine h.table hlist hwf fun henabled hidle => ?_
  rw [hsched] at henabled ⊢
  have henabled : s.enabled = true := henabled'.symm.trans henabled
  refine ⟨henabled, hcmd ▸ hidle, fun c hc hl howed htarget => ?_⟩
  rw [htargets]
  exact mem_pruneDeadLocked.mpr ⟨htarget, h.pos c hc hl,
    hok henabled (hcmd ▸ hidle) htop c hc hl howed⟩

/-- Nothing happens to records and table. -/
theorem Attended.still {s : Watched} {sys : SchedSys} (h : Attended s)
    (hlist : sys.mgr.list = s.sys.mgr.list) (hwf : Wf sys.mgr)
    (hcmd : sys.cmd = .idle → s.sys.cmd = .idle)
    (henabled : sys.mgr.world.sched.enabled = s.sys.mgr.world.sched.enabled)
    (htargets : sys.mgr.world.sched.targets = s.sys.mgr.world.sched.targets) :
    Attended { s with sys } :=
  h.table hlist hwf fun he hidle =>
    ⟨henabled.symm.trans he, hcmd hidle, fun _ _ _ _ ht => by rw [htargets]; exact ht⟩

theorem Attended.thread {s : Watched} {sys : SchedSys} {alive : Int → Bool} (h : Attended s)
    (hok : Undropped s (.thread alive)) (hs : threadStep alive s.sys = some sys) :
    Attended { s with sys } := by
  have hwf := h.wf
  unfold threadStep at hs
  cases hpc : s.sys.thread with
  | off =>
    rw [hpc] at hs
    cases hs
  | top =>
    rw [hpc] at hs
    simp only at hs
    split at hs
    · cases hs
      exact h.still rfl hwf id rfl rfl
    · cases hlocked : schedulerLocked alive s.sys.mgr.world.sched with
      | mk sched slice =>
        rw [hlocked] at hs
        cases slice with
        | resumeAll pids =>
          cases hs
          -- only the locked section changes the table
          refine h.locked hok hpc rfl rfl (hwf.world _) ?_
          rw [hlocked, sched_contAll]
          rfl
        | rotate current next =>
          cases hs
          refine h.locked hok hpc rfl rfl (hwf.world _) ?_
          rw [hlocked]
          rfl
  | stop current next =>
    rw [hpc] at hs
    cases hs
    have hsched := signalAll_sched .stop (if 0 < current then [current] else []) s.sys
    exact h.still rfl (hwf.world _) id (congrArg SchedulerState.enabled hsched)
      (congrArg SchedulerState.targets hsched)
  | cont next =>
    rw [hpc] at hs
    cases hs
    have hsched := sched_contAll (if 0 < next then [next] else []) s.sys
    exact h.still rfl (hwf.world _) id (congrArg SchedulerState.enabled hsched)
      (congrArg SchedulerState.targets hsched)

theorem Attended.beginOn {s : Watched} (h : Attended s) (create : Bool) :
    Attended { s with sys := beginOn create s.sys } := by
  have hwf := h.wf
  unfold Sched.beginOn
  simp only
  generalize (if s.sys.mgr.world.sched.timeSliceMs = 0 then 200
    else s.sys.mgr.world.sched.timeSliceMs) = slice
  obtain ⟨henabled, htargets⟩ := schedulerStart_table slice create s.sys.mgr.world.sched
  split
  · -- the thread could not be created
    exact h.still rfl (hwf.world _) id henabled htargets
  · -- in the middle of `sched on`
    exact h.table rfl (hwf.world _) fun _ hcmd => by cases hcmd

/-- One case for each command of the scheduler and each turn of its thread; only
the thread and the rebuild of the table need to know what was not dropped. -/
theorem Attended.step {s s' : Watched} {a : SchedAction} (h : Attended s)
    (hfresh : a.fresh s.sys) (hok : Undropped s a) (hs : watchedStep s a = some s') :
    Attended s' := by
  have hwf := h.wf
  obtain ⟨sys, hstep, rfl⟩ := Option.map_eq_some_iff.mp hs
  cases a with
  | life a =>
    simp only [schedStep] at hstep
    split at hstep
    · obtain ⟨m', hm', rfl⟩ := Option.map_eq_some_iff.mp hstep
      exact h.life hfresh hok hm'
    · cases hstep
  | on create =>
    simp only [schedStep] at hstep
    split at hstep
    · cases hstep
      exact h.beginOn create
    · cases hstep
  | off =>
    simp only [schedStep] at hstep
    split at hstep
    · cases hstep
      exact h.table rfl (hwf.world _) fun _ hcmd => by cases hcmd
    · cases hstep
  | slice ms =>
    simp only [schedStep] at hstep
    split at hstep
    · cases hstep
      -- the length of a slice is not part of the table
      refine h.still rfl (hwf.world _) id ?_ ?_
      · show (schedulerSetTimeSliceMs ms s.sys.mgr.world.sched).1.enabled = _
        unfold schedulerSetTimeSliceMs
        split <;> rfl
      · show (schedulerSetTimeSliceMs ms s.sys.mgr.world.sched).1.targets = _
        unfold schedulerSetTimeSliceMs
        split <;> rfl
    · cases hstep
  | cmd realloc =>
    simp only [schedStep] at hstep
    unfold cmdStep at hstep
    split at hstep
    · cases hstep
    · rename_i hcmd
      cases hstep
      simp only [hcmd]
      exact h.table rfl (hwf.world _) fun _ hcmd => by cases hcmd
    · rename_i hcmd
      cases hstep
      simp only [hcmd]
      exact h.rebuild hcmd hok
  | thread alive => exact h.thread hok hstep

/-- **No RUNNING container escapes the scheduler** along every run in which,
with scheduling on, no container that was PAUSED at the last rebuild of the
table is unpaused, memory for the table is found and no unreaped process is
taken for dead: between the commands, with scheduling on, the pid of every
RUNNING container that was started with scheduling, or was RUNNING at the last
`sched on`, is in the table. -/
theorem running_targeted {m : Manager} (hwf : Wf m) (hpids : LivePids m.list)
    (hpos : ∀ c ∈ m.list, Live c → 0 < c.pid) {as : List SchedAction} {s : Watched}
    (hrun : RunOk watchedStep (fun s a => a.fresh s.sys ∧ Undropped s a) (.init m) as s) :
    s.enabled = true → s.sys.cmd = .idle → ∀ c ∈ s.sys.mgr.list, c.state = .running →
      s.Owed c.pid → c.pid ∈ s.sys.mgr.world.sched.targets := by
  have hinv : Attended s :=
    hrun.invariant (I := Attended) (fun _ _ _ h hok hs => h.step hok.1 hok.2 hs)
      (attended_init hwf hpids hpos)
  exact fun henabled hidle c hc hr howed =>
    hinv.covered henabled hidle c hc (.inl hr) howed (.inr hr)

/-- One container runs when `sched on` comes, another is started afterwards; the
first is paused and unpaused, with the thread running in between. -/
def pausedAfterOn : List SchedAction :=
  [.life (.runBackground (.clean (.ofNat 100)) .zero), .on true, .cmd fun _ => true,
    .cmd fun _ => true, .life (.runBackground (.clean (.ofNat 101)) .zero),
    .thread fun _ => true, .life (.pause .quiet true true (containerId 1)),
    .thread fun _ => true, .thread fun _ => true,
    .life (.unpause .quiet true true (containerId 1))]

theorem running_targeted_pausedAfterOn :
    ∃ s, RunOk watchedStep (fun s a => a.fresh s.sys ∧ Undropped s a) (.init .init)
        pausedAfterOn s ∧
      s.enabled = true ∧ s.sys.cmd = .idle ∧
      s.sys.mgr.list.map (fun c => (c.state, c.pid)) = [(.running, 100), (.running, 101)] ∧
      s.Owed 100 ∧ s.Owed 101 ∧
      ∀ c ∈ s.sys.mgr.list, c.state = .running → s.Owed c.pid →
        c.pid ∈ s.sys.mgr.world.sched.targets := by
  obtain ⟨s, hrun, henabled, hidle, hlist, howed⟩ := exists_runOk_of_exec watchedStep
    (fun s a => a.fresh s.sys ∧ Undropped s a) (.init .init) pausedAfterOn
    (fun s => s.enabled = true ∧ s.sys.cmd = .idle ∧
      s.sys.mgr.list.map (fun c => (c.state, c.pid)) = [(.running, 100), (.running, 101)] ∧
      s.Owed 100 ∧ s.Owed 101) (by decide +kernel)
  refine ⟨s, hrun, henabled, hidle, hlist, howed.1, howed.2, ?_⟩
  exact running_targeted wf_init (fun _ h => absurd h List.not_mem_nil)
    (fun _ h => absurd h List.not_mem_nil) hrun henabled hidle

/-- A container is paused, `sched on` rebuilds the table without it, and it is
unpaused. -/
def pausedBeforeOn : List SchedAction :=
  [.life (.runBackground (.clean (.ofNat 100)) .zero),
    .life (.pause .quiet true true (containerId 1)), .on true, .cmd fun _ => true,
    .cmd fun _ => true, .life (.unpause .quiet true true (containerId 1))]

theorem unpaused_not_targeted :
    ∃ s, RunOk watchedStep (fun s a => a.fresh s.sys) (.init .init) pausedBeforeOn s ∧
      s.enabled = true ∧ s.sys.cmd = .idle ∧ s.Owed 100 ∧
      s.sys.mgr.list.map (fun c => (c.state, c.pid)) = [(.running, 100)] ∧
      s.sys.mgr.world.sched.targets = [] :=
  exists_runOk_of_exec watchedStep (fun s a => a.fresh s.sys) (.init .init) pausedBeforeOn
    (fun s => s.enabled = true ∧ s.sys.cmd = .idle ∧ s.Owed 100 ∧
      s.sys.mgr.list.map (fun c => (c.state, c.pid)) = [(.running, 100)] ∧
      s.sys.mgr.world.sched.targets = []) (by decide +kernel)

end ContainerSim.Sched
