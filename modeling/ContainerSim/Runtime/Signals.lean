import ContainerSim.Runtime.Lifecycle

/-!
# Pids and SIGCONT

Which records can come to share a pid, how a record gets PAUSED, and which
operations continue a process: only `container_unpause` and
`stop_container_process`, each the process of the PAUSED record it works on.
-/

namespace ContainerSim.Runtime

open Lib Sched

/-! ## What becomes of a live record -/

/-- A live `c'` is `c` with its process. -/
structure Keep (c c' : Container) : Prop where
  ptr : c'.ptr = c.ptr
  live : Live c' → Live c ∧ c'.pid = c.pid

/-- Moreover it has not been paused. -/
structure Cool (c c' : Container) : Prop extends Keep c c' where
  paused : c'.state = .paused → c.state = .paused

theorem Cool.refl (c : Container) : Cool c c := ⟨⟨rfl, fun h => ⟨h, rfl⟩⟩, id⟩

theorem Cool.trans_keep {c c' c'' : Container} (h : Cool c c') (h' : Keep c' c'') :
    Keep c c'' := by
  refine ⟨h'.ptr.trans h.ptr, fun hl => ?_⟩
  obtain ⟨hl', hpid'⟩ := h'.live hl
  obtain ⟨hl, hpid⟩ := h.live hl'
  exact ⟨hl, hpid'.trans hpid⟩

theorem Cool.trans {c c' c'' : Container} (h : Cool c c') (h' : Cool c' c'') : Cool c c'' :=
  ⟨h.trans_keep h'.toKeep, fun hp => h.paused (h'.paused hp)⟩

theorem Cool.of_eq {c c' : Container} (hptr : c'.ptr = c.ptr) (hstate : c'.state = c.state)
    (hpid : c'.pid = c.pid) : Cool c c' := by
  refine ⟨⟨hptr, fun hl => ⟨?_, hpid⟩⟩, fun hp => hstate ▸ hp⟩
  rwa [Live, hstate] at hl

theorem Cool.of_idle {c c' : Container} (hptr : c'.ptr = c.ptr) (h : ¬ Live c') : Cool c c' :=
  ⟨⟨hptr, fun hl => absurd hl h⟩, fun hp => absurd (.inr hp) h⟩

theorem Cool.of_stopped {c c' : Container} (hptr : c'.ptr = c.ptr) (h : c'.state = .stopped) :
    Cool c c' := .of_idle hptr (not_live_stopped h)

theorem syncContainerState_cool (o : SyncOutcome) (c : Container) (w : World) :
    Cool c (syncContainerState o c w).1 := by
  have hptr := (syncContainerState_recStep o c w).same.ptr
  unfold syncContainerState at hptr ⊢
  split
  · exact .refl c
  split
  · exact .refl c
  cases o.wait with
  | reaped status =>
    obtain ⟨hsame, -, hstate, -⟩ := cleanupContainerNetwork_spec
      { c with stoppedAt := o.now, exitCode := status.code, state := .stopped, pid := -1 }
      ((w.emit (.reaped c.pid)).schedRemove c.pid)
    exact .of_stopped hsame.ptr hstate
  | echild =>
    simp only
    split
    · exact .refl c
    · obtain ⟨hsame, -, hstate, -⟩ := cleanupContainerNetwork_spec
        { c with state := .stopped, pid := -1 } (w.emit (.foundDead c.pid))
      exact .of_stopped hsame.ptr hstate
  | nothing => exact .refl c
  | eintr => exact .refl c
  | error => exact .refl c

theorem pollRecord_cool (o : SyncOutcome) (c : Container) (w : World) :
    Cool c (pollRecord o c w).1 := by
  unfold pollRecord
  split
  · have hoom : Cool c { c with oomKillCount := o.oom } := .of_eq rfl rfl rfl
    exact hoom.trans (syncContainerState_cool o _ _)
  · exact syncContainerState_cool o c w

theorem stopContainerProcess_cool (o : StopOutcome) (timeoutS : Int) (c : Container) (w : World) :
    Cool c (stopContainerProcess o timeoutS c w).1 := by
  have hptr := (stopContainerProcess_recStep o timeoutS c w).same.ptr
  rcases stopContainerProcess_state o timeoutS c w with heq | hst
  · rw [heq]
    exact .refl c
  · exact .of_stopped hptr hst

theorem waitForContainerProcess_cool (o : WaitOutcome) (c : Container) (w : World) :
    Cool c (waitForContainerProcess o c w).1 := by
  have hptr := (waitForContainerProcess_recStep o c w).same.ptr
  rcases waitForContainerProcess_state o c w with heq | hst
  · rw [heq]
    exact .refl c
  · exact .of_stopped hptr hst

theorem unpauseContainer_cool (kill save : Bool) (c : Container) (w : World) :
    Cool c (unpauseContainer kill save c w).1 := by
  unfold unpauseContainer
  split
  · exact .refl c
  rename_i hpaused
  push Not at hpaused
  split
  · exact .refl c
  · exact ⟨⟨rfl, fun _ => ⟨.inr hpaused.1, rfl⟩⟩, nofun⟩

theorem pauseContainer_keep (kill save : Bool) (c : Container) (w : World) :
    Keep c (pauseContainer kill save c w).1 := by
  unfold pauseContainer
  split
  · exact (Cool.refl c).toKeep
  rename_i hrun
  push Not at hrun
  split
  · exact (Cool.refl c).toKeep
  · exact ⟨rfl, fun _ => ⟨.inl hrun.1, rfl⟩⟩

/-- The end of a start keeps the record or stops it. -/
theorem finishStart_state (o : StartOutcome) (schedule : Bool) (c : Container) (w : World) :
    (finishStart o schedule c w).1 = c ∨ (finishStart o schedule c w).1.state = .stopped := by
  have hmove := finishStart_move o schedule c w
  generalize finishStart o schedule c w = r at hmove ⊢
  cases hmove with
  | unpublished => exact stopContainerProcess_state o.stop 0 c _
  | undone => exact stopContainerProcess_state o.stop 0 c _
  | done => exact .inl rfl

/-- The process of a start is the one the system has given. -/
theorem namespaceStartContainer_ok {ns : NsOutcome} {net : NetOutcome} {c : Container}
    {w : World} {pid : Pid} (h : (namespaceStartContainer ns net c w).2.2 = some pid) :
    ns = .ok pid := by
  unfold namespaceStartContainer at h
  split at h
  · cases h
  · cases ns with
    | failBefore => cases h
    | failAfter => cases h
    | ok pid' =>
      simp only at h
      split at h
      · cases h
      · rw [Option.some.inj h]

/-- After a start the record is RUNNING with the new process, or it is as
before, or stopped. -/
theorem startContainer_cool (o : StartOutcome) (schedule capture : Bool) (c : Container)
    (w : World) : Cool c (startContainer o schedule capture c w).1 ∨
      ∃ pid, o.ns = .ok pid ∧ (startContainer o schedule capture c w).1.state = .running ∧
        (startContainer o schedule capture c w).1.pid = pid.val := by
  have hptr := (startContainer_same o schedule capture c w).ptr
  have hmove := startContainer_move o schedule capture c w
  generalize startContainer o schedule capture c w = r at hmove hptr ⊢
  cases hmove with
  | refused => exact .inl (.refl c)
  | noProcess _ _ hns =>
    obtain ⟨-, hpid, hstate, -⟩ := startedRecord_spec hns
    exact .inl (.of_eq hptr hstate hpid)
  | @finish r pid _ _ hns hpid =>
    rcases finishStart_state o schedule (r.1.launched o pid) r.2.1 with heq | hst
    · refine .inr ⟨pid, namespaceStartContainer_ok (hns ▸ hpid), ?_, ?_⟩
      · rw [heq]
        rfl
      · rw [heq]
        rfl
    · exact .inl (.of_stopped hptr hst)

/-! ## The list -/

/-- Every live record comes from one of before. -/
def Descends (R : Container → Container → Prop) (m m' : Manager) : Prop :=
  ∀ c' ∈ m'.list, Live c' → ∃ c ∈ m.list, R c c'

theorem Descends.refl (m : Manager) : Descends Cool m m := fun c hc _ => ⟨c, hc, .refl c⟩

theorem Descends.trans {m m' m'' : Manager} (h : Descends Cool m m')
    (h' : Descends Cool m' m'') : Descends Cool m m'' := by
  intro c'' hc'' hl
  obtain ⟨c', hc', hcool'⟩ := h' c'' hc'' hl
  obtain ⟨c, hc, hcool⟩ := h c' hc' (hcool'.live hl).1
  exact ⟨c, hc, hcool.trans hcool'⟩

theorem Descends.keep {m m' : Manager} (h : Descends Cool m m') : Descends Keep m m' := by
  intro c' hc' hl
  obtain ⟨c, hc, hcool⟩ := h c' hc' hl
  exact ⟨c, hc, hcool.toKeep⟩

theorem pollStates_cool (o : PollOutcome) (m : Manager) :
    List.Forall₂ Cool m.list (pollStates o m).list := by
  have hlist : ∀ (l : List Container) (w : World),
      List.Forall₂ Cool l (pollList o.sync l w).1 := by
    intro l
    induction l with
    | nil => exact fun _ => .nil
    | cons c cs ih => exact fun w => .cons (pollRecord_cool _ c w) (ih _)
  exact hlist m.list m.world

theorem pollStates_descends (o : PollOutcome) (m : Manager) :
    Descends Cool m (pollStates o m) :=
  fun _ hc' _ => forall₂_mem_right (pollStates_cool o m) hc'

theorem withContainer_descends {R : Container → Container → Prop} {m : Manager}
    (hrefl : ∀ c, R c c) (hcomp : ∀ b c c', Cool b c → R c c' → R b c')
    (poll : PollOutcome) (id : Bytes) {f : Container → World → Container × World × Int}
    (hf : ∀ c w, R c (f c w).1) : Descends R m (withContainer poll id f m).1 := by
  intro c' hc' _
  rcases mem_withContainer poll id hc' with hc' | hc' | ⟨c, hfind, rfl⟩
  · exact ⟨c', hc', hrefl c'⟩
  · obtain ⟨b, hb, hcool⟩ := forall₂_mem_right (pollStates_cool poll m) hc'
    exact ⟨b, hb, hcomp _ _ _ hcool (hrefl c')⟩
  · obtain ⟨b, hb, hcool⟩ :=
      forall₂_mem_right (pollStates_cool poll m) (mem_of_findContainer hfind).1
    exact ⟨b, hb, hcomp _ _ _ hcool (hf c _)⟩

theorem withContainer_cool {m : Manager} (poll : PollOutcome) (id : Bytes)
    {f : Container → World → Container × World × Int} (hf : ∀ c w, Cool c (f c w).1) :
    Descends Cool m (withContainer poll id f m).1 :=
  withContainer_descends Cool.refl (fun _ _ _ => Cool.trans) poll id hf

theorem setContainer_descends {m : Manager} {c c' : Container} (hc : c ∈ m.list)
    (hcool : Cool c c') (w : World) :
    Descends Cool m { m with list := setContainer m.list c', world := w } := by
  intro d hd _
  rcases mem_setContainer.mp hd with ⟨_, _, _, rfl⟩ | ⟨hd, -⟩
  · exact ⟨c, hc, hcool⟩
  · exact ⟨d, hd, .refl d⟩

/-- The new record is not live yet. -/
theorem containerCreate_descends (o : CreateOutcome) (spec : ContainerSpec) (m : Manager) :
    Descends Cool m (containerCreate o spec m).1 := by
  intro c' hc' hl
  rcases containerCreate_cases o spec m with ⟨-, hlist, -⟩ | ⟨rootfs, -, hlist, -⟩
  · rw [hlist] at hc'
    exact ⟨c', hc', .refl c'⟩
  · rw [hlist] at hc'
    rcases List.mem_append.mp hc' with hc' | hc'
    · exact ⟨c', hc', .refl c'⟩
    · rw [List.mem_singleton.mp hc'] at hl
      exact hl.elim nofun nofun

theorem recordLogPath_descends (save : Bool) (id : Bytes) (m : Manager) :
    Descends Cool m (recordLogPath save id m) := by
  unfold recordLogPath
  cases hfind : findContainer m.list id with
  | none => exact .refl m
  | some c =>
    obtain ⟨hsame, hpid, hstate⟩ := ensureContainerLogPath_spec c
    exact setContainer_descends (mem_of_findContainer hfind).1 (.of_eq hsame.ptr hstate hpid) _

theorem containerDelete_descends (poll : PollOutcome) (save : Bool) (id : Bytes) (m : Manager) :
    Descends Cool m (containerDelete poll save id m).1 := by
  have hpoll := pollStates_descends poll m
  unfold containerDelete
  split
  · exact .refl m
  · simp only
    cases hfind : findContainer (pollStates poll m).list id with
    | none => exact hpoll
    | some c =>
      simp only
      split
      · exact hpoll
      · rename_i hidle
        obtain ⟨-, -, hstate, -⟩ := cleanupContainerNetwork_spec c (pollStates poll m).world
        have hrest : ∀ c' ∈ removeContainer (pollStates poll m).list
            (cleanupContainerNetwork c (pollStates poll m).world).1.ptr, Live c' →
            ∃ b ∈ m.list, Cool b c' :=
          fun c' hc' hl => hpoll c' (List.mem_of_mem_eraseP hc') hl
        split
        · intro c' hc' hl
          rcases List.mem_append.mp hc' with hc' | hc'
          · exact hrest c' hc' hl
          · rw [List.mem_singleton.mp hc', Live, hstate] at hl
            exact absurd hl hidle
        · exact hrest

/-! ## Distinct pids -/

/-- No two live records hold the same pid. -/
def LivePids (list : List Container) : Prop :=
  ∀ c ∈ list, ∀ d ∈ list, Live c → Live d → c.pid = d.pid → c.ptr = d.ptr

theorem LivePids.descends {m m' : Manager} (h : LivePids m.list) (hd : Descends Keep m m') :
    LivePids m'.list := by
  intro c' hc' d' hd' hlc hld heq
  obtain ⟨c, hc, hkc⟩ := hd c' hc' hlc
  obtain ⟨d, hd, hkd⟩ := hd d' hd' hld
  obtain ⟨hlc, hpc⟩ := hkc.live hlc
  obtain ⟨hld, hpd⟩ := hkd.live hld
  rw [hkc.ptr, hkd.ptr]
  exact h c hc d hd hlc hld (hpc.symm.trans (heq.trans hpd))

/-- `clone` hands out a pid that no live record holds. -/
def FreshPid (list : List Container) (ns : NsOutcome) : Prop :=
  ∀ pid, ns = .ok pid → ∀ c ∈ list, Live c → c.pid ≠ pid.val

instance (list : List Container) (ns : NsOutcome) : Decidable (FreshPid list ns) :=
  match ns with
  | .failBefore => isTrue fun _ h => nomatch h
  | .failAfter => isTrue fun _ h => nomatch h
  | .ok pid =>
    decidable_of_iff (∀ c ∈ list, (c.state = .running ∨ c.state = .paused) → c.pid ≠ pid.val)
      ⟨fun h _ hp => by cases hp; exact h, fun h => h pid rfl⟩

/-- A record after a start, against the list the process was handed out in. -/
theorem mem_startContainerById {m : Manager} (poll : PollOutcome) (o : StartOutcome) (id : Bytes)
    (schedule capture : Bool) {c' : Container}
    (hc' : c' ∈ (startContainerById poll o id schedule capture m).1.list) (hid : id ≠ []) :
    (∃ c ∈ (pollStates poll m).list, Cool c c') ∨
    (∃ c pid, findContainer (pollStates poll m).list id = some c ∧ o.ns = .ok pid ∧
      c'.ptr = c.ptr ∧ c'.state = .running ∧ c'.pid = pid.val) := by
  unfold startContainerById withContainer at hc'
  rw [if_neg hid] at hc'
  simp only at hc'
  cases hfind : findContainer (pollStates poll m).list id with
  | none =>
    rw [hfind] at hc'
    exact .inl ⟨c', hc', .refl c'⟩
  | some c =>
    rw [hfind] at hc'
    rcases mem_setContainer.mp hc' with ⟨_, _, _, rfl⟩ | ⟨hc', -⟩
    · rcases startContainer_cool o schedule capture c (pollStates poll m).world with hcool |
        ⟨pid, hns, hst, hpid⟩
      · exact .inl ⟨c, (mem_of_findContainer hfind).1, hcool⟩
      · exact .inr ⟨c, pid, rfl, hns, (startContainer_same o schedule capture c _).ptr, hst, hpid⟩
    · exact .inl ⟨c', hc', .refl c'⟩

theorem LivePids.start {m : Manager} (h : LivePids m.list) (poll : PollOutcome)
    (o : StartOutcome) (id : Bytes) (schedule capture : Bool)
    (hfresh : FreshPid (pollStates poll m).list o.ns) :
    LivePids (startContainerById poll o id schedule capture m).1.list := by
  have hp := h.descends (pollStates_descends poll m).keep
  by_cases hid : id = []
  · have hnone : startContainerById poll o id schedule capture m = (m, -1) := by
      unfold startContainerById withContainer
      rw [if_pos hid]
    rw [hnone]
    exact h
  intro c' hc' d' hd' hlc hld heq
  rcases mem_startContainerById poll o id schedule capture hc' hid with ⟨c, hc, hcool⟩ |
    ⟨c, pid, hfind, hns, hptr, -, hpid⟩
  · obtain ⟨hlc, hpc⟩ := hcool.live hlc
    rcases mem_startContainerById poll o id schedule capture hd' hid with ⟨d, hd, hcool'⟩ |
      ⟨d, pid, -, hns, -, -, hpid⟩
    · obtain ⟨hld, hpd⟩ := hcool'.live hld
      rw [hcool.ptr, hcool'.ptr]
      exact hp c hc d hd hlc hld (hpc.symm.trans (heq.trans hpd))
    · exact absurd (hpc.symm.trans (heq.trans hpid)) (hfresh pid hns c hc hlc)
  · rcases mem_startContainerById poll o id schedule capture hd' hid with ⟨d, hd, hcool'⟩ |
      ⟨d, pid', hfind', -, hptr', -, -⟩
    · obtain ⟨hld, hpd⟩ := hcool'.live hld
      exact absurd (hpd.symm.trans (heq.symm.trans hpid)) (hfresh pid hns d hd hld)
    · rw [hfind] at hfind'
      rw [hptr, hptr', Option.some.inj hfind']

/-- Every PAUSED record was PAUSED before, with the same process. -/
def PausedFrom (m m' : Manager) : Prop :=
  ∀ c' ∈ m'.list, c'.state = .paused → ∃ c ∈ m.list, c.state = .paused ∧ c'.pid = c.pid

theorem PausedFrom.trans {m m' m'' : Manager} (h : PausedFrom m m') (h' : PausedFrom m' m'') :
    PausedFrom m m'' := by
  intro c'' hc'' hp
  obtain ⟨c', hc', hp', hpid'⟩ := h' c'' hc'' hp
  obtain ⟨c, hc, hp, hpid⟩ := h c' hc' hp'
  exact ⟨c, hc, hp, hpid'.trans hpid⟩

theorem Descends.pausedFrom {m m' : Manager} (h : Descends Cool m m') : PausedFrom m m' := by
  intro c' hc' hp
  obtain ⟨c, hc, hcool⟩ := h c' hc' (.inr hp)
  exact ⟨c, hc, hcool.paused hp, (hcool.live (.inr hp)).2⟩

theorem startContainerById_pausedFrom {m : Manager} (poll : PollOutcome) (o : StartOutcome)
    (id : Bytes) (schedule capture : Bool) :
    PausedFrom m (startContainerById poll o id schedule capture m).1 := by
  by_cases hid : id = []
  · have hnone : startContainerById poll o id schedule capture m = (m, -1) := by
      unfold startContainerById withContainer
      rw [if_pos hid]
    rw [hnone]
    exact (Descends.refl m).pausedFrom
  refine (pollStates_descends poll m).pausedFrom.trans fun c' hc' hp => ?_
  rcases mem_startContainerById poll o id schedule capture hc' hid with ⟨c, hc, hcool⟩ |
    ⟨c, pid, -, -, -, hst, -⟩
  · exact ⟨c, hc, hcool.paused hp, (hcool.live (.inr hp)).2⟩
  · rw [hst] at hp
    cases hp

/-! ## The operations -/

/-- The records while the operation calls `clone`, with its outcome. -/
def LifeAction.atClone (m : Manager) : LifeAction → List Container × NsOutcome
  | .start answers o _ => ((pollStates answers m).list, o.ns)
  | .run o spec => ((pollStates o.poll (containerCreate o.create spec m).1).list, o.start.ns)
  | .runBackground o spec =>
    ((pollStates o.poll (recordLogPath o.saveLogPath (containerId m.nextSequence)
      (containerCreate o.create spec m).1)).list, o.start.ns)
  | _ => ([], .failBefore)

def pidFresh (m : Manager) (a : LifeAction) : Prop := FreshPid (a.atClone m).1 (a.atClone m).2

instance (m : Manager) (a : LifeAction) : Decidable (pidFresh m a) := by
  unfold pidFresh; infer_instance

/-- The process of the RUNNING container a `container_pause` works on. -/
def LifeAction.pauseTarget (m : Manager) : LifeAction → Option Int
  | .pause answers _ _ id =>
    ((findContainer (pollStates answers m).list id).filter fun c => c.state = .running).map
      Container.pid
  | _ => none

theorem containerRun_wait_descends (o : WaitOutcome) (id : Bytes) (m : Manager) :
    Descends Cool m (match findContainer m.list id with
      | none => m
      | some c =>
        { m with
          list := setContainer m.list (waitForContainerProcess o c m.world).1
          world := (waitForContainerProcess o c m.world).2.1 }) := by
  cases hfind : findContainer m.list id with
  | none => exact .refl m
  | some c =>
    exact setContainer_descends (mem_of_findContainer hfind).1
      (waitForContainerProcess_cool o c m.world) _

/-- The stages of `container_run` and `container_run_background` up to the
start, and what follows it. -/
theorem launch_stages {m m' : Manager} {a : LifeAction} (hs : lifeStep m a = some m')
    (ha : (∃ o spec, a = .run o spec) ∨ ∃ o spec, a = .runBackground o spec) :
    Descends Cool m m' ∨
    ∃ m₁ m₂ poll o schedule capture, Descends Cool m m₁ ∧
      a.atClone m = ((pollStates poll m₁).list, o.ns) ∧
      m₂ = (startContainerById poll o (containerId m.nextSequence) schedule capture m₁).1 ∧
      Descends Cool m₂ m' := by
  -- both create, start and then wait or note the path of the log
  rcases ha with ⟨o, spec, rfl⟩ | ⟨o, spec, rfl⟩
  · cases hs
    have hc := containerCreate_descends o.create spec m
    cases hcreate : containerCreate o.create spec m with
    | mk m₁ r =>
      rw [hcreate] at hc
      cases r with
      | none =>
        refine .inl ?_
        simp only [containerRun, hcreate]
        exact hc
      | some id =>
        obtain ⟨rfl, -⟩ := containerCreate_new hcreate
        refine .inr ⟨m₁, _, o.poll, o.start, false, false, hc, ?_, rfl, ?_⟩
        · simp only [LifeAction.atClone, hcreate]
        · simp only [containerRun, hcreate]
          generalize startContainerById o.poll o.start _ false false m₁ = r
          split
          · exact .refl r.1
          · have hw := containerRun_wait_descends o.wait (containerId m.nextSequence) r.1
            cases hfind : findContainer r.1.list (containerId m.nextSequence) with
            | none => exact .refl r.1
            | some c =>
              rw [hfind] at hw
              exact hw
  · cases hs
    have hc := containerCreate_descends o.create spec m
    cases hcreate : containerCreate o.create spec m with
    | mk m₁ r =>
      rw [hcreate] at hc
      cases r with
      | none =>
        refine .inl ?_
        simp only [containerRunBackground, hcreate]
        exact hc
      | some id =>
        obtain ⟨rfl, -⟩ := containerCreate_new hcreate
        refine .inr ⟨_, _, o.poll, o.start, true, true,
          hc.trans (recordLogPath_descends o.saveLogPath (containerId m.nextSequence) m₁), ?_, rfl, ?_⟩
        · simp only [LifeAction.atClone, hcreate]
        · simp only [containerRunBackground, hcreate]
          split
          · exact .refl _
          · exact .refl _

theorem LivePids.life {m m' : Manager} {a : LifeAction} (h : LivePids m.list)
    (hfresh : pidFresh m a) (hs : lifeStep m a = some m') : LivePids m'.list := by
  have hlaunch : ((∃ o spec, a = .run o spec) ∨ ∃ o spec, a = .runBackground o spec) →
      LivePids m'.list := by
    intro ha
    rcases launch_stages hs ha with hd | ⟨m₁, m₂, poll, o, schedule, capture, hd, hclone, rfl, hd'⟩
    · exact h.descends hd.keep
    · rw [pidFresh, hclone] at hfresh
      exact ((h.descends hd.keep).start poll o _ schedule capture hfresh).descends hd'.keep
  cases a with
  | create o spec => cases hs; exact h.descends (containerCreate_descends o spec m).keep
  | start poll o id => cases hs; exact h.start poll o id true true hfresh
  | run o spec => exact hlaunch (.inl ⟨o, spec, rfl⟩)
  | runBackground o spec => exact hlaunch (.inr ⟨o, spec, rfl⟩)
  | stop poll o id timeoutS =>
    cases hs
    exact h.descends
      (withContainer_cool poll id fun c w => stopContainerProcess_cool o timeoutS c w).keep
  | pause poll kill save id =>
    cases hs
    exact h.descends (withContainer_descends (fun c => (Cool.refl c).toKeep)
      (fun _ _ _ => Cool.trans_keep) poll id fun c w => pauseContainer_keep kill save c w)
  | unpause poll kill save id =>
    cases hs
    exact h.descends
      (withContainer_cool poll id fun c w => unpauseContainer_cool kill save c w).keep
  | delete poll save id => cases hs; exact h.descends (containerDelete_descends poll save id m).keep
  | poll o => cases hs; exact h.descends (pollStates_descends o m).keep

/-- A PAUSED record after an operation was PAUSED before, or is the one a
`container_pause` has worked on. -/
theorem paused_life {m m' : Manager} {a : LifeAction} (hs : lifeStep m a = some m') :
    ∀ c' ∈ m'.list, c'.state = .paused →
      (∃ c ∈ m.list, c.state = .paused ∧ c'.pid = c.pid) ∨ a.pauseTarget m = some c'.pid := by
  have hfrom : PausedFrom m m' → ∀ c' ∈ m'.list, c'.state = .paused →
      (∃ c ∈ m.list, c.state = .paused ∧ c'.pid = c.pid) ∨ a.pauseTarget m = some c'.pid :=
    fun h c' hc' hp => .inl (h c' hc' hp)
  -- a start makes no PAUSED record
  have hlaunch : ((∃ o spec, a = .run o spec) ∨ ∃ o spec, a = .runBackground o spec) →
      PausedFrom m m' := by
    intro ha
    rcases launch_stages hs ha with hd | ⟨m₁, m₂, poll, o, schedule, capture, hd, -, rfl, hd'⟩
    · exact hd.pausedFrom
    · exact (hd.pausedFrom.trans (startContainerById_pausedFrom poll o _ schedule capture)).trans
        hd'.pausedFrom
  cases a with
  | create o spec => cases hs; exact hfrom (containerCreate_descends o spec m).pausedFrom
  | start poll o id => cases hs; exact hfrom (startContainerById_pausedFrom poll o id true true)
  | run o spec => exact hfrom (hlaunch (.inl ⟨o, spec, rfl⟩))
  | runBackground o spec => exact hfrom (hlaunch (.inr ⟨o, spec, rfl⟩))
  | stop poll o id timeoutS =>
    cases hs
    exact hfrom (withContainer_cool poll id fun c w =>
      stopContainerProcess_cool o timeoutS c w).pausedFrom
  | pause poll kill save id =>
    cases hs
    intro c' hc' hp
    rcases mem_withContainer poll id hc' with hc' | hc' | ⟨c, hfind, rfl⟩
    · exact .inl ⟨c', hc', hp, rfl⟩
    · exact .inl ((pollStates_descends poll m).pausedFrom c' hc' hp)
    · have hpid := ((pauseContainer_keep kill save c (pollStates poll m).world).live (.inr hp)).2
      by_cases hrun : c.state = .running
      · refine .inr ?_
        simp [LifeAction.pauseTarget, hfind, hrun, hpid]
      · -- it is left as it was
        have hsame : (pauseContainer kill save c (pollStates poll m).world).1 = c := by
          rw [pauseContainer, if_pos (.inl hrun)]
        rw [hsame] at hp ⊢
        exact .inl ((pollStates_descends poll m).pausedFrom c (mem_of_findContainer hfind).1 hp)
  | unpause poll kill save id =>
    cases hs
    exact hfrom (withContainer_cool poll id fun c w =>
      unpauseContainer_cool kill save c w).pausedFrom
  | delete poll save id => cases hs; exact hfrom (containerDelete_descends poll save id m).pausedFrom
  | poll o => cases hs; exact hfrom (pollStates_descends o m).pausedFrom

/-! ## SIGCONT -/

def contOf : Effect → Option Int
  | .signal pid .cont => some pid
  | _ => none

/-- The processes that were sent SIGCONT. -/
def conts (trace : List Effect) : List Int := trace.filterMap contOf

@[simp] theorem conts_emit (w : World) (e : Effect) :
    conts (w.emit e).trace = conts w.trace ++ (contOf e).toList := by
  rw [conts, World.emit, List.filterMap_append]
  cases h : contOf e <;> simp [conts, h]

/-- The network of the host takes no signal. -/
theorem conts_network {w w' : World} (h : Appends Effect.OfNetwork w w') :
    conts w'.trace = conts w.trace := by
  refine h.filterMap_eq fun e he => ?_
  cases e with
  | signal pid sig => exact absurd he id
  | _ => rfl

/-- The signals that end a process do not continue it. -/
theorem conts_ending {pid : Int} {w w' : World} (h : Appends (Effect.OfEnding pid) w w') :
    conts w'.trace = conts w.trace := by
  refine h.filterMap_eq fun e he => ?_
  cases e with
  | signal p sig =>
    obtain ⟨-, rfl | rfl⟩ := he
    · rfl
    · rfl
  | _ => rfl

theorem conts_cleanupContainerNetwork (c : Container) (w : World) :
    conts (cleanupContainerNetwork c w).2.trace = conts w.trace :=
  conts_network (cleanupContainerNetwork_appends c w)

theorem conts_syncContainerState (o : SyncOutcome) (c : Container) (w : World) :
    conts (syncContainerState o c w).2.1.trace = conts w.trace := by
  unfold syncContainerState
  split
  · rfl
  split
  · rfl
  cases o.wait with
  | reaped status =>
    simp only [conts_emit, conts_cleanupContainerNetwork, trace_schedRemove]
    simp [contOf]
  | echild =>
    simp only
    split
    · rfl
    · simp only [conts_emit, conts_cleanupContainerNetwork]
      simp [contOf]
  | nothing => rfl
  | eintr => rfl
  | error => rfl

theorem conts_pollStates (o : PollOutcome) (m : Manager) :
    conts (pollStates o m).world.trace = conts m.world.trace := by
  have hrec : ∀ (s : SyncOutcome) (c : Container) (w : World),
      conts (pollRecord s c w).2.1.trace = conts w.trace := by
    intro s c w
    unfold pollRecord
    split
    · rw [conts_syncContainerState, conts_emit]
      exact List.append_nil _
    · exact conts_syncContainerState s c w
  have hlist : ∀ (l : List Container) (w : World),
      conts (pollList o.sync l w).2.1.trace = conts w.trace := by
    intro l
    induction l with
    | nil => exact fun _ => rfl
    | cons c cs ih => exact fun w => (ih _).trans (hrec _ c w)
  unfold pollStates
  simp only
  split
  · rw [conts_emit, hlist]
    exact List.append_nil _
  · exact hlist m.list m.world

/-- `stop_container_process` continues the process it works on, if it is
PAUSED, and no other. -/
theorem conts_stopContainerProcess (o : StopOutcome) (timeoutS : Int) (c : Container) (w : World) :
    conts (stopContainerProcess o timeoutS c w).2.1.trace = conts w.trace ∨
    (c.state = .paused ∧
      conts (stopContainerProcess o timeoutS c w).2.1.trace = conts w.trace ++ [c.pid]) := by
  have hcont : conts (if c.state = .paused ∧ o.cont then
        w.emit (.signal c.pid .cont) else w).trace = conts w.trace ∨
      (c.state = .paused ∧ conts (if c.state = .paused ∧ o.cont then
        w.emit (.signal c.pid .cont) else w).trace = conts w.trace ++ [c.pid]) := by
    split
    · rename_i h
      exact .inr ⟨h.1, conts_emit w _⟩
    · exact .inl rfl
  unfold stopContainerProcess
  split
  · exact .inl rfl
  · simp only
    generalize (if c.state = .paused ∧ o.cont then w.emit (.signal c.pid .cont) else w) = w₁
      at hcont ⊢
    have hsig := conts_ending (stopSignals_appends o timeoutS c.pid w₁)
    generalize stopSignals o timeoutS c.pid w₁ = r at hsig ⊢
    rw [← hsig] at hcont
    split
    · exact hcont
    · rw [conts_emit, conts_emit, conts_cleanupContainerNetwork, trace_schedRemove]
      simpa [contOf] using hcont

theorem conts_waitForContainerProcess (o : WaitOutcome) (c : Container) (w : World) :
    conts (waitForContainerProcess o c w).2.1.trace = conts w.trace := by
  unfold waitForContainerProcess
  split
  · rfl
  · cases o.wait with
    | reaped status =>
      simp only [conts_emit, conts_cleanupContainerNetwork]
      simp [contOf]
    | echild =>
      simp only
      split
      · rfl
      · simp only [conts_emit, conts_cleanupContainerNetwork]
        simp [contOf]
    | nothing => rfl
    | eintr => rfl
    | error => rfl

theorem conts_namespaceStartContainer (ns : NsOutcome) (net : NetOutcome) (c : Container)
    (w : World) : conts (namespaceStartContainer ns net c w).2.1.trace = conts w.trace := by
  have hnet := conts_network (containerNetSetup_appends net c w)
  unfold namespaceStartContainer
  split
  · rfl
  · cases ns with
    | failBefore => rfl
    | failAfter => exact hnet
    | ok pid =>
      simp only
      split
      · exact hnet
      · rw [conts_emit, hnet]
        exact List.append_nil _

theorem conts_finishStart (o : StartOutcome) (schedule : Bool) {c : Container} (w : World)
    (hc : c.state ≠ .paused) : conts (finishStart o schedule c w).2.1.trace = conts w.trace := by
  have hfail : ∀ w', conts (stopContainerProcess o.stop 0 c w').2.1.trace = conts w'.trace :=
    fun w' => (conts_stopContainerProcess o.stop 0 c w').resolve_right fun h => hc h.1
  have hpub := conts_network (publish_appends o c w)
  have hsave : conts ((publish o c w).1.emit (.save o.save)).trace = conts w.trace := by
    rw [conts_emit, hpub]
    exact List.append_nil _
  have hmove := finishStart_move o schedule c w
  generalize finishStart o schedule c w = r at hmove ⊢
  cases hmove with
  | unpublished => exact (hfail _).trans hpub
  | undone => exact (hfail _).trans hsave
  | done =>
    rw [announced_trace, conts_emit, conts_emit, hsave]
    simp [contOf]

theorem conts_startContainer (o : StartOutcome) (schedule capture : Bool) (c : Container)
    (w : World) : conts (startContainer o schedule capture c w).2.1.trace = conts w.trace := by
  have hmove := startContainer_move o schedule capture c w
  generalize startContainer o schedule capture c w = r at hmove ⊢
  have hns := conts_namespaceStartContainer o.ns o.net (c.cleared capture) w
  cases hmove with
  | refused => rfl
  | noProcess _ _ heq =>
    rw [heq] at hns
    exact hns
  | @finish r pid _ _ heq =>
    rw [heq] at hns
    have hrunning : (r.1.launched o pid).state ≠ .paused := by simp [Container.launched]
    exact (conts_finishStart o schedule r.2.1 hrunning).trans hns

theorem conts_unpauseContainer (kill save : Bool) (c : Container) (w : World) :
    conts (unpauseContainer kill save c w).2.1.trace = conts w.trace ∨
    (c.state = .paused ∧
      conts (unpauseContainer kill save c w).2.1.trace = conts w.trace ++ [c.pid]) := by
  unfold unpauseContainer
  split
  · exact .inl rfl
  rename_i hp
  push Not at hp
  split
  · exact .inl rfl
  · refine .inr ⟨hp.1, ?_⟩
    rw [conts_emit, conts_emit, conts_emit]
    simp [contOf]

/-- What `withContainer` sends is what its operation sends for the record found. -/
theorem conts_withContainer (poll : PollOutcome) (id : Bytes)
    (f : Container → World → Container × World × Int) (m : Manager) :
    conts (withContainer poll id f m).1.world.trace = conts m.world.trace ∨
    ∃ c w, findContainer (pollStates poll m).list id = some c ∧
      conts w.trace = conts m.world.trace ∧
      conts (withContainer poll id f m).1.world.trace = conts (f c w).2.1.trace := by
  have hpoll := conts_pollStates poll m
  unfold withContainer
  split
  · exact .inl rfl
  · simp only
    cases hfind : findContainer (pollStates poll m).list id with
    | none => exact .inl hpoll
    | some c => exact .inr ⟨c, _, rfl, hpoll, rfl⟩

theorem conts_startContainerById (poll : PollOutcome) (o : StartOutcome) (id : Bytes)
    (schedule capture : Bool) (m : Manager) :
    conts (startContainerById poll o id schedule capture m).1.world.trace =
      conts m.world.trace := by
  rcases conts_withContainer poll id (startContainer o schedule capture) m with
    h | ⟨c, w, -, hw, h⟩
  · exact h
  · rw [startContainerById, h, conts_startContainer, hw]

theorem conts_containerCreate (o : CreateOutcome) (spec : ContainerSpec) (m : Manager) :
    conts (containerCreate o spec m).1.world.trace = conts m.world.trace := by
  unfold containerCreate
  split
  · rfl
  simp only
  cases filesystemPrepareRootfs o (newContainer o spec m.heap m.nextSequence).2 with
  | none => rfl
  | some rootfs =>
    simp only
    split
    · rw [conts_emit]
      exact List.append_nil _
    · rw [conts_emit, conts_emit]
      simp [contOf]

theorem conts_containerRun (o : RunOutcome) (spec : ContainerSpec) (m : Manager) :
    conts (containerRun o spec m).1.world.trace = conts m.world.trace := by
  have hc := conts_containerCreate o.create spec m
  unfold containerRun
  cases hcreate : containerCreate o.create spec m with
  | mk m₁ r =>
    rw [hcreate] at hc
    cases r with
    | none => exact hc
    | some id =>
      have hs := (conts_startContainerById o.poll o.start id false false m₁).trans hc
      simp only
      generalize startContainerById o.poll o.start id false false m₁ = r at hs ⊢
      split
      · exact hs
      · cases findContainer r.1.list id with
        | none => exact hs
        | some c => exact (conts_waitForContainerProcess o.wait c r.1.world).trans hs

theorem conts_containerRunBackground (o : RunOutcome) (spec : ContainerSpec) (m : Manager) :
    conts (containerRunBackground o spec m).1.world.trace = conts m.world.trace := by
  have hc := conts_containerCreate o.create spec m
  unfold containerRunBackground
  cases hcreate : containerCreate o.create spec m with
  | mk m₁ r =>
    rw [hcreate] at hc
    cases r with
    | none => exact hc
    | some id =>
      have hlog : conts (recordLogPath o.saveLogPath id m₁).world.trace = conts m₁.world.trace := by
        unfold recordLogPath
        cases findContainer m₁.list id with
        | none => rfl
        | some c => rw [conts_emit]; exact List.append_nil _
      have hs := (conts_startContainerById o.poll o.start id true true _).trans (hlog.trans hc)
      simp only
      split
      · exact hs
      · exact hs

theorem conts_containerDelete (poll : PollOutcome) (save : Bool) (id : Bytes) (m : Manager) :
    conts (containerDelete poll save id m).1.world.trace = conts m.world.trace := by
  have hpoll := conts_pollStates poll m
  unfold containerDelete
  split
  · rfl
  · simp only
    cases findContainer (pollStates poll m).list id with
    | none => exact hpoll
    | some c =>
      have hclean := (conts_cleanupContainerNetwork c (pollStates poll m).world).trans hpoll
      simp only
      split
      · exact hpoll
      split
      · rw [conts_emit, hclean]
        exact List.append_nil _
      · rw [conts_emit, conts_emit, hclean]
        simp [contOf]

/-- The operations that may continue a process, with the container they name. -/
def LifeAction.resumes : LifeAction → Option (PollOutcome × Bytes)
  | .stop answers _ id _ => some (answers, id)
  | .unpause answers _ _ id => some (answers, id)
  | _ => none

/-- An operation sends no SIGCONT, or it is a stop or an unpause and sends one
to the process of the PAUSED container it works on. -/
theorem conts_life {m m' : Manager} {a : LifeAction} (hs : lifeStep m a = some m') :
    conts m'.world.trace = conts m.world.trace ∨
    ∃ poll id c, a.resumes = some (poll, id) ∧
      findContainer (pollStates poll m).list id = some c ∧ c.state = .paused ∧
      conts m'.world.trace = conts m.world.trace ++ [c.pid] := by
  cases a with
  | create o spec => cases hs; exact .inl (conts_containerCreate o spec m)
  | start poll o id => cases hs; exact .inl (conts_startContainerById poll o id true true m)
  | run o spec => cases hs; exact .inl (conts_containerRun o spec m)
  | runBackground o spec => cases hs; exact .inl (conts_containerRunBackground o spec m)
  | stop poll o id timeoutS =>
    cases hs
    rcases conts_withContainer poll id (stopContainerProcess o timeoutS) m with
      h | ⟨c, w, hfind, hw, h⟩
    · exact .inl h
    · rcases conts_stopContainerProcess o timeoutS c w with hc | ⟨hp, hc⟩
      · exact .inl (h.trans (hc.trans hw))
      · exact .inr ⟨poll, id, c, rfl, hfind, hp, h.trans (hc.trans (by rw [hw]))⟩
  | pause poll kill save id =>
    cases hs
    rcases conts_withContainer poll id (pauseContainer kill save) m with h | ⟨c, w, hfind, hw, h⟩
    · exact .inl h
    · refine .inl (h.trans ?_)
      -- a pause sends a SIGSTOP
      unfold pauseContainer
      split
      · exact hw
      split
      · exact hw
      · rw [conts_emit, conts_emit, conts_emit, hw]
        simp [contOf]
  | unpause poll kill save id =>
    cases hs
    rcases conts_withContainer poll id (unpauseContainer kill save) m with
      h | ⟨c, w, hfind, hw, h⟩
    · exact .inl h
    · rcases conts_unpauseContainer kill save c w with hc | ⟨hp, hc⟩
      · exact .inl (h.trans (hc.trans hw))
      · exact .inr ⟨poll, id, c, rfl, hfind, hp, h.trans (hc.trans (by rw [hw]))⟩
  | delete poll save id => cases hs; exact .inl (conts_containerDelete poll save id m)
  | poll o => cases hs; exact .inl (conts_pollStates o m)

end ContainerSim.Runtime
