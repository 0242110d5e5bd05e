import ContainerSim.Lib.Rotation
import ContainerSim.Sched.Thread

/-!
# Iterations of the scheduler thread

What one iteration of `scheduler_thread_main` after the other does to the
processes of the table. While no target comes, goes or dies an iteration is one
turn around the circle of the targets, whatever the processes were doing
before.
-/

namespace ContainerSim.Sched

open Lib ContainerSim.Runtime

/-- The table, and which processes are stopped. -/
structure Sliced where
  sched : SchedulerState
  stopped : Int → Bool

/-- What a process does with a signal. -/
def takeSignal (stopped : Int → Bool) (pid : Int) : Signal → Int → Bool
  | .stop => Function.update stopped pid true
  | .cont => Function.update stopped pid false
  | _ => stopped

def deliver (stopped : Int → Bool) (signals : List (Int × Signal)) : Int → Bool :=
  signals.foldl (fun stopped x => takeSignal stopped x.1 x.2) stopped

/-- The signals of an iteration, in order. -/
def Slice.signals : Slice → List (Int × Signal)
  | .resumeAll pids => pids.map (·, .cont)
  | .rotate current next =>
    (if 0 < current then [(current, .stop)] else []) ++ if 0 < next then [(next, .cont)] else []

def Slice.continued (slice : Slice) : List Int :=
  (slice.signals.filter (·.2 = .cont)).map Prod.fst

/-- One iteration of `scheduler_thread_main`. -/
def schedulerIterate (alive : Int → Bool) (s : Sliced) : Sliced :=
  { sched := (schedulerLocked alive s.sched).1
    stopped := deliver s.stopped (schedulerLocked alive s.sched).2.signals }

/-- `k` iterations; `alive l` is what `pid_is_alive` answers in the `l`-th. -/
def schedulerIterations (alive : Nat → Int → Bool) : Nat → Sliced → Sliced
  | 0, s => s
  | k + 1, s => schedulerIterate (alive k) (schedulerIterations alive k s)

/-- Whom iteration `k` continues. -/
def continuedAt (alive : Nat → Int → Bool) (s : Sliced) (k : Nat) : List Int :=
  (schedulerLocked (alive k) (schedulerIterations alive k s).sched).2.continued

/-- Whom the iterations `j .. j + n - 1` continue. -/
def continuedIn (alive : Nat → Int → Bool) (s : Sliced) (j n : Nat) : List Int :=
  (List.range n).flatMap fun l => continuedAt alive s (j + l)

/-! ## The thread takes these iterations -/

/-- With `resumeAll` an iteration is one step of the thread, otherwise three. -/
def iterationSteps (alive : Int → Bool) (s : SchedSys) : Option SchedSys :=
  (threadStep alive s).bind fun s' =>
    if s'.thread = .top then some s'
    else (threadStep alive s').bind fun s'' => threadStep alive s''

theorem signalAll_trace (sig : Signal) (pids : List Int) (s : SchedSys) :
    (s.signalAll sig pids).mgr.world.trace =
      s.mgr.world.trace ++ pids.map fun pid => .signal pid sig := by
  show (pids.foldl (fun w pid => w.emit (.signal pid sig)) s.mgr.world).trace = _
  induction pids generalizing s with
  | nil => simp
  | cons pid pids ih =>
    have htail := ih (s.signalAll sig [pid])
    rw [List.foldl_cons]
    exact htail.trans (by simp [SchedSys.signalAll, World.emit])

/-- The steps of the thread do to the table what `schedulerIterate` says, and
send the signals of the slice in their order: what is proved of iterations below
is about the thread of the whole system. -/
theorem iterationSteps_eq {alive : Int → Bool} {s : SchedSys} (htop : s.thread = .top)
    (hgo : s.mgr.world.sched.stopRequested = false) :
    ∃ s', iterationSteps alive s = some s' ∧ s'.thread = .top ∧
      s'.mgr.world.sched = (schedulerLocked alive s.mgr.world.sched).1 ∧
      s'.mgr.world.trace = s.mgr.world.trace ++
        (schedulerLocked alive s.mgr.world.sched).2.signals.map fun x => .signal x.1 x.2 := by
  unfold iterationSteps
  rw [threadStep, htop]
  simp only [hgo, Bool.false_eq_true, if_false]
  generalize hlocked : schedulerLocked alive s.mgr.world.sched = r
  obtain ⟨sched, slice⟩ := r
  cases slice with
  | resumeAll pids =>
    refine ⟨(s.setSched sched).contAll pids, ?_, htop, signalAll_sched _ _ _, ?_⟩
    · rw [Option.bind_some, if_pos]
      exact htop
    · refine (signalAll_trace _ _ _).trans ?_
      rw [Slice.signals, List.map_map]
      rfl
  | rotate current next =>
    simp only [Option.bind_some, reduceCtorEq, if_false, threadStep]
    refine ⟨_, rfl, rfl, ?_, ?_⟩
    · exact (signalAll_sched _ _ _).trans (signalAll_sched _ _ _)
    · refine (signalAll_trace _ _ _).trans ?_
      rw [signalAll_trace, Slice.signals, List.map_append, List.append_assoc]
      show s.mgr.world.trace ++ _ = s.mgr.world.trace ++ _
      congr 2
      · split <;> rfl
      · split <;> rfl

/-! ## With everybody alive -/

/-- There are targets to switch between. -/
structure Rotating (targets : List Int) : Prop where
  nodup : targets.Nodup
  count : 2 ≤ targets.length

namespace Rotating

variable {targets : List Int} (h : Rotating targets)
include h

theorem pos : 0 < targets.length := Nat.lt_of_lt_of_le Nat.zero_lt_two h.count

/-- `targets[i % target_count]` for every `i`. -/
def circle : Circle targets.length Int := circleOf targets h.nodup h.pos

theorem getElem?_circle (i : Nat) : targets[i % targets.length]? = some (h.circle.item i) := by
  rw [List.getElem?_eq_getElem (Nat.mod_lt i h.pos)]
  rfl

theorem circle_mem (i : Nat) : h.circle.item i ∈ targets :=
  List.mem_of_getElem? (h.getElem?_circle i)

theorem exists_item {pid : Int} (hpid : pid ∈ targets) : ∃ i, pid = h.circle.item i := by
  obtain ⟨i, hi, rfl⟩ := List.mem_iff_getElem.mp hpid
  refine ⟨i, ?_⟩
  have hitem := h.getElem?_circle i
  rw [Nat.mod_eq_of_lt hi, List.getElem?_eq_getElem hi] at hitem
  exact Option.some.inj hitem

end Rotating

/-- The entry the next iteration stops, if no target has died. -/
def startIndex (s : SchedulerState) : Nat :=
  if s.currentIndex ≥ s.targets.length then 0 else s.currentIndex

theorem startIndex_of_lt {s : SchedulerState} (h : s.currentIndex < s.targets.length) :
    startIndex s = s.currentIndex := by
  rw [startIndex, if_neg (Nat.not_le.mpr h)]

theorem startIndex_lt {s : SchedulerState} (h : 0 < s.targets.length) :
    startIndex s < s.targets.length := by
  unfold startIndex
  split <;> omega

theorem prune_live {alive : Int → Bool} {s : SchedulerState}
    (hlive : ∀ pid ∈ s.targets, 0 < pid ∧ alive pid = true) :
    pruneDeadLocked alive s = { s with currentIndex := startIndex s } := by
  have hall : (s.targets.filter fun pid => 0 < pid && alive pid) = s.targets := by
    rw [List.filter_eq_self]
    intro pid hpid
    obtain ⟨hpos, halive⟩ := hlive pid hpid
    simp [hpos, halive]
  rw [pruneDeadLocked, hall, clampIndex, startIndex]
  split <;> rfl

section
variable {alive : Int → Bool} {targets : List Int} (h : Rotating targets)

theorem locked_of_prune {s s' : SchedulerState} (hprune : pruneDeadLocked alive s = s')
    (htargets : s'.targets = targets) (henabled : s'.enabled = true) :
    schedulerLocked alive s =
      ({ s' with currentIndex := (s'.currentIndex + 1) % targets.length },
        .rotate (h.circle.item s'.currentIndex) (h.circle.item (s'.currentIndex + 1))) := by
  subst htargets
  have hcount : ¬ s'.targets.length < 2 := Nat.not_lt.mpr h.count
  rw [schedulerLocked, hprune]
  simp only [henabled, hcount, Bool.not_true, decide_false, Bool.or_self, Bool.false_eq_true,
    if_false, Nat.mod_mod, h.getElem?_circle, Option.getD_some]

theorem rotate_signals (hpos : ∀ pid ∈ targets, 0 < pid) (i j : Nat) :
    (Slice.rotate (h.circle.item i) (h.circle.item j)).signals =
      [(h.circle.item i, .stop), (h.circle.item j, .cont)] := by
  have hi := hpos _ (h.circle_mem i)
  have hj := hpos _ (h.circle_mem j)
  simp [Slice.signals, hi, hj]

/-- An iteration is a turn of the circle. -/
theorem iterate_of_prune {s : Sliced} {s' : SchedulerState} (hpos : ∀ pid ∈ targets, 0 < pid)
    (hprune : pruneDeadLocked alive s.sched = s') (htargets : s'.targets = targets)
    (henabled : s'.enabled = true) :
    (schedulerIterate alive s).sched =
      { s' with currentIndex := (s'.currentIndex + 1) % targets.length } ∧
    (fun pid => !(schedulerIterate alive s).stopped pid) =
      h.circle.turn s'.currentIndex fun pid => !s.stopped pid := by
  rw [schedulerIterate, locked_of_prune h hprune htargets henabled, rotate_signals h hpos]
  refine ⟨rfl, ?_⟩
  funext pid
  simp only [deliver, takeSignal, List.foldl_cons, List.foldl_nil, Circle.turn,
    Function.update_apply]
  split
  · rfl
  · split <;> rfl

theorem continued_live {s : SchedulerState} (htargets : s.targets = targets)
    (henabled : s.enabled = true) (hlive : ∀ pid ∈ targets, 0 < pid ∧ alive pid = true) :
    (schedulerLocked alive s).2.continued = [h.circle.item (startIndex s + 1)] := by
  subst htargets
  rw [locked_of_prune h (prune_live hlive) rfl henabled, Slice.continued,
    rotate_signals h fun pid hpid => (hlive pid hpid).1]
  rfl

end

section
variable {alive : Nat → Int → Bool} {s : Sliced} (h : Rotating s.sched.targets)
  (henabled : s.sched.enabled = true)
  (hlive : ∀ k, ∀ pid ∈ s.sched.targets, 0 < pid ∧ alive k pid = true)
include henabled hlive

theorem iterations_live (k : Nat) :
    (∃ index, (schedulerIterations alive k s).sched = { s.sched with currentIndex := index } ∧
      (0 < k → index = (startIndex s.sched + k) % s.sched.targets.length)) ∧
    startIndex (schedulerIterations alive k s).sched =
      (startIndex s.sched + k) % s.sched.targets.length ∧
    (fun pid => !(schedulerIterations alive k s).stopped pid) =
      h.circle.turns (startIndex s.sched) k fun pid => !s.stopped pid := by
  induction k with
  | zero => exact ⟨⟨_, rfl, nofun⟩, (Nat.mod_eq_of_lt (startIndex_lt h.pos)).symm, rfl⟩
  | succ k ih =>
    obtain ⟨⟨index, hsched, -⟩, hstart, hstopped⟩ := ih
    have htargets : (schedulerIterations alive k s).sched.targets = s.sched.targets := by
      rw [hsched]
    have henabled' : (schedulerIterations alive k s).sched.enabled = true := by
      rw [hsched]
      exact henabled
    obtain ⟨hnext, hturn⟩ := iterate_of_prune h (fun pid hpid => (hlive k pid hpid).1)
      (prune_live (by
        rw [htargets]
        exact hlive k)) htargets henabled'
    have hindex : ((startIndex s.sched + k) % s.sched.targets.length + 1) %
        s.sched.targets.length = (startIndex s.sched + (k + 1)) % s.sched.targets.length := by
      rw [Nat.mod_add_mod, Nat.add_assoc]
    rw [hstart, hindex, hsched] at hnext
    rw [hstart, hstopped] at hturn
    refine ⟨⟨_, hnext, fun _ => rfl⟩, ?_, ?_⟩
    · rw [schedulerIterations, hnext]
      exact startIndex_of_lt (Nat.mod_lt _ h.pos)
    · -- the places are named up to multiples of `target_count`
      rw [Circle.turns, schedulerIterations, hturn]
      exact h.circle.turn_mod _ _

theorem continuedAt_live (k : Nat) :
    continuedAt alive s k = [h.circle.item (startIndex s.sched + k + 1)] := by
  obtain ⟨⟨index, hsched, -⟩, hstart, -⟩ := iterations_live h henabled hlive k
  have htargets : (schedulerIterations alive k s).sched.targets = s.sched.targets := by
    rw [hsched]
  have henabled' : (schedulerIterations alive k s).sched.enabled = true := by
    rw [hsched]
    exact henabled
  rw [continuedAt, continued_live h htargets henabled' (hlive k), hstart, List.cons.injEq]
  exact ⟨(h.circle.item_eq_iff _ _).mpr (Nat.mod_add_mod _ _ _), rfl⟩

theorem continuedIn_live (j n : Nat) :
    continuedIn alive s j n = h.circle.entered (startIndex s.sched + j) n := by
  unfold continuedIn Circle.entered
  induction List.range n with
  | nil => rfl
  | cons l ls ih =>
    rw [List.flatMap_cons, ih, continuedAt_live h henabled hlive, List.map_cons,
      ← Nat.add_assoc (startIndex s.sched) j l]
    rfl

end

/-- **Round robin.** With scheduling enabled and at least two distinct targets
that stay and stay alive, whatever `current_index` is and whichever of them are
stopped: after `target_count` iterations and ever after exactly one target is
not stopped, `targets[current_index]`, and any `target_count` iterations in a
row continue every target once. -/
theorem round_robin_converges (alive : Nat → Int → Bool) (s : Sliced)
    (henabled : s.sched.enabled = true) (hnodup : s.sched.targets.Nodup)
    (hcount : 2 ≤ s.sched.targets.length)
    (hlive : ∀ k, ∀ pid ∈ s.sched.targets, 0 < pid ∧ alive k pid = true) :
    (∀ k, s.sched.targets.length ≤ k →
      (schedulerIterations alive k s).sched.targets = s.sched.targets ∧
      ∃ running, s.sched.targets[(schedulerIterations alive k s).sched.currentIndex]? =
          some running ∧
        ∀ pid ∈ s.sched.targets,
          (schedulerIterations alive k s).stopped pid = false ↔ pid = running) ∧
    ∀ j, ∀ pid ∈ s.sched.targets,
      (continuedIn alive s j s.sched.targets.length).count pid = 1 := by
  have h : Rotating s.sched.targets := ⟨hnodup, hcount⟩
  refine ⟨fun k hk => ?_, fun j pid hpid => ?_⟩
  · obtain ⟨⟨index, hsched, hindex⟩, -, hstopped⟩ := iterations_live h henabled hlive k
    have hlast := hindex (by omega)
    refine ⟨by rw [hsched], h.circle.item (startIndex s.sched + k), ?_, fun pid hpid => ?_⟩
    · rw [hsched]
      show s.sched.targets[index]? = _
      rw [hlast]
      exact h.getElem?_circle _
    · obtain ⟨i, rfl⟩ := h.exists_item hpid
      have hon := h.circle.turns_on_iff hcount (startIndex s.sched) k
        (fun pid => !s.stopped pid) (Nat.le_succ_of_le hk) i
      rw [← hstopped] at hon
      simpa using hon
  · obtain ⟨i, rfl⟩ := h.exists_item hpid
    rw [continuedIn_live h henabled hlive]
    exact h.circle.count_entered h.pos _ i

/-- Three processes, none of them stopped at first. -/
def threeTargets : Sliced :=
  { sched := { SchedulerState.init with enabled := true, targets := [100, 101, 102] }
    stopped := fun _ => false }

theorem round_robin_three :
    (∀ k, 3 ≤ k → ∃ running, ∀ pid ∈ threeTargets.sched.targets,
      (schedulerIterations (fun _ _ => true) k threeTargets).stopped pid = false ↔
        pid = running) ∧
    ∀ j, (continuedIn (fun _ _ => true) threeTargets j 3).count 101 = 1 := by
  obtain ⟨hone, hturns⟩ := round_robin_converges (fun _ _ => true) threeTargets rfl (by decide)
    (by decide) (fun _ => by decide)
  refine ⟨fun k hk => ?_, fun j => hturns j 101 (by decide)⟩
  obtain ⟨-, running, -, hrunning⟩ := hone k hk
  exact ⟨running, hrunning⟩

end ContainerSim.Sched
