import ContainerSim.Runtime.Evolution
import ContainerSim.Lib.Run

/-!
# No process is lost

The lifecycle operations keep every process on the books in the `pid` field of
its record (`Books`), as long as `container_start` is not used on a PAUSED
container: the guard of `start_container_by_id` only knows RUNNING, and
starting a paused container overwrites the pid of a live process.
-/

namespace ContainerSim.Runtime

open Lib Sched

/-! ## The list against the books -/

/-- Every process on the books is the pid of its container's live record. -/
def Held (w : World) (list : List Container) : Prop :=
  ∀ p ∈ outstanding w.trace, ∃ c ∈ list, c.id = p.1 ∧ c.pid = p.2 ∧ Live c

/-- One record changes as `RecStep` says. -/
theorem Held.record {w w' : World} {pre post : List Container} {c c' : Container}
    (h : Held w (pre ++ c :: post)) (hstep : RecStep c w c' w') :
    Held w' (pre ++ c' :: post) := by
  intro p hp
  have hmem : c' ∈ pre ++ c' :: post := by simp
  rcases hstep.books p hp with ⟨hp0, hkeep⟩ | ⟨rfl, hlive⟩
  · obtain ⟨d, hd, hid, hpid, hlive⟩ := h p hp0
    rcases List.mem_append.mp hd with hd | hd
    · exact ⟨d, List.mem_append_left _ hd, hid, hpid, hlive⟩
    · rcases List.mem_cons.mp hd with rfl | hd
      · obtain ⟨hpid', hlive'⟩ := hkeep hpid.symm hlive
        exact ⟨c', hmem, hstep.same.id.trans hid, hpid'.trans hpid, hlive'⟩
      · exact ⟨d, by simp [hd], hid, hpid, hlive⟩
  · exact ⟨c', hmem, rfl, rfl, hlive⟩

theorem Held.pollList (sync : Nat → SyncOutcome) (pre : List Container) {l : List Container}
    {w : World} (h : Held w (pre ++ l)) :
    Held (Runtime.pollList sync l w).2.1 (pre ++ (Runtime.pollList sync l w).1) := by
  induction l generalizing pre w with
  | nil => exact h
  | cons c cs ih =>
    have hstep := pollRecord_recStep (sync c.ptr) c w
    have hnext : Held (pollRecord (sync c.ptr) c w).2.1
        ((pre ++ [(pollRecord (sync c.ptr) c w).1]) ++ cs) := by
      rw [List.append_assoc]
      exact h.record hstep
    have := ih _ hnext
    rw [List.append_assoc] at this
    exact this

/-- Writing through a pointer replaces one record. -/
theorem setContainer_split {list : List Container} {c c' : Container} (hnd : PtrNodup list)
    (hc : c ∈ list) (hp : c'.ptr = c.ptr) :
    ∃ pre post, list = pre ++ c :: post ∧ setContainer list c' = pre ++ c' :: post := by
  obtain ⟨pre, post, rfl⟩ := List.append_of_mem hc
  refine ⟨pre, post, rfl, ?_⟩
  rw [PtrNodup, List.map_append, List.map_cons, List.nodup_append] at hnd
  obtain ⟨-, hpost, hdis⟩ := hnd
  rw [List.nodup_cons] at hpost
  have hkeep : ∀ l : List Container, (∀ d ∈ l, d.ptr ≠ c.ptr) → setContainer l c' = l := by
    intro l hl
    rw [setContainer, List.map_congr_left (g := id), List.map_id]
    intro d hd
    rw [if_neg (by rw [hp]; exact hl d hd)]
    rfl
  have happ : setContainer (pre ++ c :: post) c' =
      setContainer pre c' ++ c' :: setContainer post c' := by
    simp [setContainer, hp]
  rw [happ, hkeep pre, hkeep post]
  · intro d hd hdp
    exact hpost.1 (hdp ▸ List.mem_map_of_mem hd)
  · intro d hd hdp
    exact hdis d.ptr (List.mem_map_of_mem hd) c.ptr List.mem_cons_self hdp

/-- The invariant of the manager: nothing is lost. -/
structure Books (m : Manager) : Prop extends Wf m where
  held : Held m.world m.list

/-- A manager as a fresh process has it, with whatever records it restored: no
process has been handed out yet. -/
structure Restored (m : Manager) : Prop extends Wf m where
  nothing : outstanding m.world.trace = []

theorem Restored.books {m : Manager} (h : Restored m) : Books m := by
  refine ⟨h.toWf, fun p hp => ?_⟩
  rw [h.nothing] at hp
  exact absurd hp List.not_mem_nil

theorem wf_init : Wf Manager.init where
  ptrs := by simp [PtrNodup, Manager.init]
  heap := by simp [Manager.init]
  fresh := by simp [Manager.init]

theorem restored_init : Restored Manager.init := ⟨wf_init, rfl⟩

theorem Books.poll {m : Manager} (h : Books m) (o : PollOutcome) : Books (pollStates o m) := by
  refine ⟨h.toWf.quiet (pollStates_quiet o m), ?_⟩
  have hlist := Held.pollList o.sync [] h.held
  unfold pollStates
  simp only
  intro p hp
  refine hlist p ?_
  split at hp
  · rw [outstanding_emit] at hp
    exact hp
  · exact hp

/-- A record operation, written back. -/
theorem Books.record {m : Manager} (h : Books m) {c c' : Container} {w' : World}
    (hc : c ∈ m.list) (hstep : RecStep c m.world c' w') :
    Books { m with list := setContainer m.list c', world := w' } := by
  refine ⟨h.toWf.of_subperm ?_ (Nat.le_refl _) (Nat.le_refl _), ?_⟩
  · rw [idents_setContainer h.ptrs hc hstep.same]
  · obtain ⟨pre, post, hlist, hset⟩ := setContainer_split h.ptrs hc hstep.same.ptr
    show Held w' (setContainer m.list c')
    rw [hset]
    exact Held.record (hlist ▸ h.held) hstep

/-- An operation through `withContainer` keeps the books when the record
operation does on the record it is given. -/
theorem Books.withContainer {m : Manager} (h : Books m) (poll : PollOutcome) (id : Bytes)
    {f : Container → World → Container × World × Int}
    (hf : ∀ c, findContainer (pollStates poll m).list id = some c →
      ∀ w, RecStep c w (f c w).1 (f c w).2.1) :
    Books (Runtime.withContainer poll id f m).1 := by
  unfold Runtime.withContainer
  split
  · exact h
  · have hp := h.poll poll
    simp only
    cases hfind : findContainer (pollStates poll m).list id with
    | none => exact hp
    | some c =>
      have hc := (mem_of_findContainer hfind).1
      exact hp.record hc (hf c hfind _)

theorem Books.create {m : Manager} (h : Books m) (o : CreateOutcome) (spec : ContainerSpec) :
    Books (containerCreate o spec m).1 := by
  refine ⟨h.toWf.grows (containerCreate_grows h.toWf o spec), fun p hp => ?_⟩
  rcases containerCreate_cases o spec m with ⟨-, hlist, -, -, hout⟩ | ⟨rootfs, -, hlist, -, -, hout⟩
  · rw [hlist]
    exact h.held p (hout ▸ hp)
  · obtain ⟨c, hc, hid⟩ := h.held p (hout ▸ hp)
    refine ⟨c, ?_, hid⟩
    rw [hlist]
    exact List.mem_append_left _ hc

/-- Starting a container that has just been created. -/
theorem Books.startJustCreated {m : Manager} (h : Books m) {id : Bytes}
    (hnew : JustCreated m.list id) (poll : PollOutcome) (o : StartOutcome)
    (schedule capture : Bool) : Books (startContainerById poll o id schedule capture m).1 := by
  refine h.withContainer poll id fun c hfind w => ?_
  have hpolled := hnew.poll poll
  have hst := hpolled.2 c (mem_of_findContainer hfind).1 (findContainer_id hpolled.1 hfind)
  exact startContainer_recStep o schedule capture w (by simp [hst])

theorem Books.run {m : Manager} (h : Books m) (o : RunOutcome) (spec : ContainerSpec) :
    Books (containerRun o spec m).1 := by
  have hc := h.create o.create spec
  unfold containerRun
  cases hcreate : containerCreate o.create spec m with
  | mk m₁ r =>
    rw [hcreate] at hc
    cases r with
    | none => exact hc
    | some id =>
      have hnew := justCreated_create h.toWf hcreate
      have hs := hc.startJustCreated hnew o.poll o.start false false
      simp only
      generalize startContainerById o.poll o.start id false false m₁ = r at hs ⊢
      split
      · exact hs
      · cases hfind : findContainer r.1.list id with
        | none => exact hs
        | some c =>
          exact hs.record (mem_of_findContainer hfind).1
            (waitForContainerProcess_recStep o.wait c r.1.world)

theorem Books.recordLogPath {m : Manager} (h : Books m) (save : Bool) (id : Bytes) :
    Books (Runtime.recordLogPath save id m) := by
  unfold Runtime.recordLogPath
  cases hfind : findContainer m.list id with
  | none => exact h
  | some c =>
    obtain ⟨hsame, hpid, hstate⟩ := ensureContainerLogPath_spec c
    refine h.record (mem_of_findContainer hfind).1 (RecStep.of_books_eq hsame ?_ hpid ?_ ?_)
    · intro hok
      rw [PidOk, hstate, hpid]
      exact hok
    · rw [Live, Live, hstate]
      exact fun hl => hl
    · rw [outstanding_emit]
      rfl

theorem Books.runBackground {m : Manager} (h : Books m) (o : RunOutcome) (spec : ContainerSpec) :
    Books (containerRunBackground o spec m).1 := by
  have hc := h.create o.create spec
  unfold containerRunBackground
  cases hcreate : containerCreate o.create spec m with
  | mk m₁ r =>
    rw [hcreate] at hc
    cases r with
    | none => exact hc
    | some id =>
      have hnew := justCreated_create h.toWf hcreate
      have hs := (hc.recordLogPath o.saveLogPath id).startJustCreated
        (hnew.recordLogPath o.saveLogPath) o.poll o.start true true
      simp only
      split
      · exact hs
      · exact hs

theorem Books.delete {m : Manager} (h : Books m) (poll : PollOutcome) (save : Bool) (id : Bytes) :
    Books (containerDelete poll save id m).1 := by
  refine ⟨h.toWf.quiet (containerDelete_quiet h.toWf poll save id), ?_⟩
  unfold containerDelete
  split
  · exact h.held
  · have hp := h.poll poll
    simp only
    cases hfind : findContainer (pollStates poll m).list id with
    | none => exact hp.held
    | some c =>
      simp only
      split
      · exact hp.held
      · rename_i hidle
        have hc := (mem_of_findContainer hfind).1
        obtain ⟨hsame, hpid, hstate, hout⟩ :=
          cleanupContainerNetwork_spec c (pollStates poll m).world
        generalize cleanupContainerNetwork c (pollStates poll m).world = r
          at hsame hpid hstate hout ⊢
        -- a process on the books has a live record, so not this one
        have hheld : ∀ w', outstanding w'.trace = outstanding (pollStates poll m).world.trace →
            Held w' (removeContainer (pollStates poll m).list r.1.ptr) := by
          intro w' hw' p hpm
          obtain ⟨d, hd, hdid, hdpid, hdlive⟩ := hp.held p (hw' ▸ hpm)
          refine ⟨d, (mem_removeContainer hp.ptrs).mpr ⟨hd, fun hdp => ?_⟩, hdid, hdpid, hdlive⟩
          have hdc : d = c := hp.ptrs.eq hc hd (hdp.trans hsame.ptr)
          exact hidle (hdc ▸ hdlive)
        split
        · intro p hpm
          obtain ⟨d, hd, hdd⟩ := hheld (r.2.emit (.save save))
            (by rw [outstanding_emit]; exact hout) p hpm
          exact ⟨d, List.mem_append_left _ hd, hdd⟩
        · refine hheld _ ?_
          rw [outstanding_emit, outstanding_emit]
          exact hout

/-! ## Runs of the lifecycle operations -/

/-- A lifecycle operation with the answers of the system to it. -/
inductive LifeAction where
  | create (o : CreateOutcome) (spec : ContainerSpec)
  | start (poll : PollOutcome) (o : StartOutcome) (id : Bytes)
  | run (o : RunOutcome) (spec : ContainerSpec)
  | runBackground (o : RunOutcome) (spec : ContainerSpec)
  | stop (poll : PollOutcome) (o : StopOutcome) (id : Bytes) (timeoutS : Int)
  | pause (poll : PollOutcome) (kill save : Bool) (id : Bytes)
  | unpause (poll : PollOutcome) (kill save : Bool) (id : Bytes)
  | delete (poll : PollOutcome) (save : Bool) (id : Bytes)
  | poll (o : PollOutcome)

def lifeStep (m : Manager) : LifeAction → Option Manager
  | .create o spec => some (containerCreate o spec m).1
  | .start poll o id => some (containerStart poll o id m).1
  | .run o spec => some (containerRun o spec m).1
  | .runBackground o spec => some (containerRunBackground o spec m).1
  | .stop poll o id timeoutS => some (containerStop poll o id timeoutS m).1
  | .pause poll kill save id => some (containerPause poll kill save id m).1
  | .unpause poll kill save id => some (containerUnpause poll kill save id m).1
  | .delete poll save id => some (containerDelete poll save id m).1
  | .poll o => some (pollStates o m)

theorem Wf.life {m m' : Manager} {a : LifeAction} (h : Wf m) (hs : lifeStep m a = some m') :
    Wf m' := by
  cases a with
  | create o spec => cases hs; exact h.grows (containerCreate_grows h o spec)
  | start poll o id =>
    cases hs
    obtain ⟨hseq, hheap⟩ := withContainer_counters poll id (startContainer o true true) m
    refine h.of_subperm ?_ (Nat.le_of_eq hseq.symm) (Nat.le_of_eq hheap.symm)
    exact idents_withContainer h poll id (startContainer_same o true true) ▸ List.Subperm.refl _
  | run o spec => cases hs; exact h.grows (containerRun_grows h o spec)
  | runBackground o spec => cases hs; exact h.grows (containerRunBackground_grows h o spec)
  | stop poll o id timeoutS => cases hs; exact h.quiet (containerStop_quiet h poll o id timeoutS)
  | pause poll kill save id => cases hs; exact h.quiet (containerPause_quiet h poll kill save id)
  | unpause poll kill save id =>
    cases hs; exact h.quiet (containerUnpause_quiet h poll kill save id)
  | delete poll save id => cases hs; exact h.quiet (containerDelete_quiet h poll save id)
  | poll o => cases hs; exact h.quiet (pollStates_quiet o m)

/-- Everything a user can do to the list. -/
inductive UserOp where
  | life (a : LifeAction)
  | prune (poll : PollOutcome) (save : Bool)

def userStep (op : UserOp) (m : Manager) : Option Manager :=
  match op with
  | .life a => lifeStep m a
  | .prune poll save => some (containerPruneAll poll save m)

/-- The request with which an operation creates a container. -/
def UserOp.creates : UserOp → Option ContainerSpec
  | .life (.create _ spec) => some spec
  | .life (.run _ spec) => some spec
  | .life (.runBackground _ spec) => some spec
  | _ => none

theorem Wf.userStep {m m' : Manager} {op : UserOp} (h : Wf m) (hs : userStep op m = some m') :
    Wf m' := by
  cases op with
  | life a => exact h.life hs
  | prune poll save => cases hs; exact containerPruneAll_wf h poll save

/-- The operation is a `container_start` that finds a PAUSED container. -/
def startsPaused (m : Manager) : LifeAction → Bool
  | .start poll _ id => (findContainer (pollStates poll m).list id).any (·.state = .paused)
  | _ => false

theorem Books.step {m m' : Manager} {a : LifeAction} (h : Books m)
    (hok : startsPaused m a = false) (hstep : lifeStep m a = some m') : Books m' := by
  cases a with
  | create o spec => cases hstep; exact h.create o spec
  | start poll o id =>
    cases hstep
    refine h.withContainer poll id fun c hfind w => ?_
    refine startContainer_recStep o true true w fun hpaused => ?_
    simp [startsPaused, hfind, hpaused] at hok
  | run o spec => cases hstep; exact h.run o spec
  | runBackground o spec => cases hstep; exact h.runBackground o spec
  | stop poll o id timeoutS =>
    cases hstep
    exact h.withContainer poll id fun c _ w => stopContainerProcess_recStep o timeoutS c w
  | pause poll kill save id =>
    cases hstep
    exact h.withContainer poll id fun c _ w => pauseContainer_recStep kill save c w
  | unpause poll kill save id =>
    cases hstep
    exact h.withContainer poll id fun c _ w => unpauseContainer_recStep kill save c w
  | delete poll save id => cases hstep; exact h.delete poll save id
  | poll o => cases hstep; exact h.poll o

/-- No process handed out is lost: it has been reaped or found dead, or it is
the pid of its container's record. -/
def NoneLost (m : Manager) : Prop :=
  ∀ p ∈ outstanding m.world.trace, ∃ c ∈ m.list, c.id = p.1 ∧ c.pid = p.2

instance (m : Manager) : Decidable (NoneLost m) := by
  unfold NoneLost; infer_instance

/-- **No process is lost** along a run of lifecycle operations in which no
`container_start` finds a PAUSED container. -/
theorem noneLost_of_no_paused_start {m₀ m : Manager} {as : List LifeAction}
    (h₀ : Restored m₀)
    (hrun : RunOk lifeStep (fun m a => startsPaused m a = false) m₀ as m) : NoneLost m := by
  have hbooks : Books m := hrun.invariant (fun _ _ _ h hok hs => h.step hok hs) h₀.books
  intro p hp
  obtain ⟨c, hc, hid, hpid, -⟩ := hbooks.held p hp
  exact ⟨c, hc, hid, hpid⟩

/-- Runs a container in the background, pauses and unpauses it, stops it and
starts it again. -/
def pauseCycle : List LifeAction :=
  [.runBackground (.clean (.ofNat 100)) .zero,
    .pause .quiet true true (containerId 1), .unpause .quiet true true (containerId 1),
    .stop .quiet .clean (containerId 1) 0,
    .start .quiet (.clean (.ofNat 101)) (containerId 1)]

theorem noneLost_pauseCycle :
    ∃ m, RunOk lifeStep (fun m a => startsPaused m a = false) .init pauseCycle m ∧
      outstanding m.world.trace = [(containerId 1, 101)] ∧ NoneLost m := by
  obtain ⟨m, hrun, hout⟩ := exists_runOk_of_exec lifeStep (fun m a => startsPaused m a = false)
    .init pauseCycle
    (fun m => outstanding m.world.trace = [(containerId 1, 101)]) (by decide +kernel)
  exact ⟨m, hrun, hout, noneLost_of_no_paused_start restored_init hrun⟩

/-- Starting a paused container loses its process: `container-0001` now holds
101, and nothing refers to 100 any more. -/
theorem paused_start_loses_process :
    ∃ m as, Runs lifeStep .init as m ∧ (containerId 1, 100) ∈ outstanding m.world.trace ∧
      (∀ c ∈ m.list, c.pid ≠ 100) ∧ ¬ NoneLost m := by
  obtain ⟨m, hrun, h⟩ := exists_runOk_of_exec lifeStep (fun _ _ => True) .init
    [.runBackground (.clean (.ofNat 100)) .zero,
      .pause .quiet true true (containerId 1),
      .start .quiet (.clean (.ofNat 101)) (containerId 1)]
    (fun m => (containerId 1, 100) ∈ outstanding m.world.trace ∧ (∀ c ∈ m.list, c.pid ≠ 100) ∧
      ¬ NoneLost m) (by decide +kernel)
  exact ⟨m, _, hrun, h⟩

end ContainerSim.Runtime
