import Mathlib.Data.List.Basic
import Mathlib.Tactic.Common

/-!
# The round-robin scheduler

The target table of `scheduler.c` and one iteration of its thread. `targets`
holds `targets[0 .. target_count)`. An iteration is the locked section, which
settles whom to signal, and the signals; with scheduling off or fewer than two
targets the signals are sent inside the lock, otherwise after it.
-/

namespace ContainerSim.Sched

structure SchedulerState where
  enabled : Bool
  timeSliceMs : Nat
  targets : List Int
  targetCapacity : Nat
  currentIndex : Nat
  threadStarted : Bool
  stopRequested : Bool
  deriving DecidableEq, Repr

/-- The static initialiser of `g_state`. -/
def SchedulerState.init : SchedulerState :=
  { enabled := false, timeSliceMs := 200, targets := [], targetCapacity := 0
    currentIndex := 0, threadStarted := false, stopRequested := false }

/-- `while (next_capacity < desired) next_capacity *= 2`, at most `fuel` times. -/
def doubleUntil (desired : Nat) : Nat → Nat → Nat
  | 0, cap => cap
  | fuel + 1, cap => if cap < desired then doubleUntil desired fuel (cap * 2) else cap

/-- `ensure_capacity_locked`; `none` when `realloc` fails. -/
def ensureCapacityLocked (realloc : Bool) (desired : Nat) (s : SchedulerState) :
    Option SchedulerState :=
  if desired ≤ s.targetCapacity then some s
  else if realloc then
    some { s with
      targetCapacity :=
        doubleUntil desired desired (if s.targetCapacity = 0 then 8 else s.targetCapacity) }
  else none

/-- `scheduler_add_target`. -/
def schedulerAddTarget (realloc : Bool) (pid : Int) (s : SchedulerState) : SchedulerState :=
  if pid ∈ s.targets then s
  else
    match ensureCapacityLocked realloc (s.targets.length + 1) s with
    | some s' => { s' with targets := s'.targets ++ [pid] }
    | none => s

/-- The last entry takes the place of entry `i`. -/
def swapRemove (i : Nat) (l : List Int) : List Int :=
  (l.set i (l.getLast?.getD 0)).dropLast

/-- `current_index` falls back to `0` when it no longer names an entry. -/
def clampIndex (s : SchedulerState) : SchedulerState :=
  if s.currentIndex ≥ s.targets.length then { s with currentIndex := 0 } else s

/-- `scheduler_remove_target`. -/
def schedulerRemoveTarget (pid : Int) (s : SchedulerState) : SchedulerState :=
  clampIndex (match s.targets.findIdx? (· = pid) with
    | some i => { s with targets := swapRemove i s.targets }
    | none => s)

/-- `scheduler_clear_targets`. -/
def schedulerClearTargets (s : SchedulerState) : SchedulerState :=
  { s with targets := [], currentIndex := 0 }

def schedulerSetEnabled (enabled : Bool) (s : SchedulerState) : SchedulerState :=
  { s with enabled }

/-- `scheduler_start`; `create` is the answer of `pthread_create`. -/
def schedulerStart (timeSliceMs : Nat) (create : Bool) (s : SchedulerState) :
    SchedulerState × Int :=
  if timeSliceMs = 0 then (s, -1)
  else
    let s := { s with timeSliceMs }
    if s.threadStarted then (s, 0)
    else if create then ({ s with stopRequested := false, threadStarted := true }, 0)
    else ({ s with stopRequested := false }, -1)

/-- `scheduler_set_time_slice_ms`. -/
def schedulerSetTimeSliceMs (timeSliceMs : Nat) (s : SchedulerState) : SchedulerState × Int :=
  if timeSliceMs = 0 then (s, -1) else ({ s with timeSliceMs }, 0)

/-- `prune_dead_locked`. -/
def pruneDeadLocked (alive : Int → Bool) (s : SchedulerState) : SchedulerState :=
  clampIndex { s with targets := s.targets.filter fun pid => 0 < pid && alive pid }

/-- What an iteration of the thread signals. -/
inductive Slice where
  /-- scheduling is off or pointless: continue all of these -/
  | resumeAll (pids : List Int)
  /-- stop the first, then continue the second -/
  | rotate (current next : Int)
  deriving DecidableEq, Repr

/-- The locked section of one iteration of `scheduler_thread_main`. -/
def schedulerLocked (alive : Int → Bool) (s : SchedulerState) : SchedulerState × Slice :=
  let s := pruneDeadLocked alive s
  let count := s.targets.length
  if !s.enabled || count < 2 then (s, .resumeAll (s.targets.filter (0 < ·)))
  else
    let current := s.targets[s.currentIndex % count]?.getD (-1)
    let s' := { s with currentIndex := (s.currentIndex + 1) % count }
    (s', .rotate current (s'.targets[s'.currentIndex % count]?.getD (-1)))

/-! ## What the operations do to the table -/

@[simp] theorem clampIndex_targets (s : SchedulerState) :
    (clampIndex s).targets = s.targets := by
  unfold clampIndex; split <;> rfl

@[simp] theorem clampIndex_enabled (s : SchedulerState) :
    (clampIndex s).enabled = s.enabled := by
  unfold clampIndex; split <;> rfl

@[simp] theorem clampIndex_threadStarted (s : SchedulerState) :
    (clampIndex s).threadStarted = s.threadStarted := by
  unfold clampIndex; split <;> rfl

theorem mem_pruneDeadLocked {alive : Int → Bool} {s : SchedulerState} {pid : Int} :
    pid ∈ (pruneDeadLocked alive s).targets ↔ pid ∈ s.targets ∧ 0 < pid ∧ alive pid = true := by
  simp [pruneDeadLocked]

theorem schedulerStart_table (slice : Nat) (create : Bool) (s : SchedulerState) :
    (schedulerStart slice create s).1.enabled = s.enabled ∧
    (schedulerStart slice create s).1.targets = s.targets := by
  unfold schedulerStart
  split
  · exact ⟨rfl, rfl⟩
  simp only
  split
  · exact ⟨rfl, rfl⟩
  split
  · exact ⟨rfl, rfl⟩
  · exact ⟨rfl, rfl⟩

theorem schedulerLocked_table (alive : Int → Bool) (s : SchedulerState) :
    (schedulerLocked alive s).1.enabled = s.enabled ∧
    (schedulerLocked alive s).1.targets = (pruneDeadLocked alive s).targets := by
  have henabled : (pruneDeadLocked alive s).enabled = s.enabled := by
    unfold pruneDeadLocked
    rw [clampIndex_enabled]
  unfold schedulerLocked
  simp only
  split
  · exact ⟨henabled, rfl⟩
  · exact ⟨henabled, rfl⟩

/-- Whoever an iteration continues is a target. -/
theorem schedulerLocked_next_mem {alive : Int → Bool} {s s' : SchedulerState} {current next : Int}
    (h : schedulerLocked alive s = (s', .rotate current next)) : next ∈ s.targets := by
  unfold schedulerLocked at h
  simp only at h
  split at h
  · simp at h
  · rename_i hcond
    simp only [Bool.or_eq_true, Bool.not_eq_true', decide_eq_true_eq, not_or, Nat.not_lt] at hcond
    simp only [Prod.mk.injEq, Slice.rotate.injEq] at h
    have hlt : ((pruneDeadLocked alive s).currentIndex + 1) %
        (pruneDeadLocked alive s).targets.length < (pruneDeadLocked alive s).targets.length :=
      Nat.mod_lt _ (by omega)
    have hnext := h.2.2
    rw [Nat.mod_mod, List.getElem?_eq_getElem hlt, Option.getD_some] at hnext
    exact (mem_pruneDeadLocked.mp (hnext ▸ List.getElem_mem hlt)).1

theorem schedulerLocked_resume_mem {alive : Int → Bool} {s s' : SchedulerState} {pids : List Int}
    (h : schedulerLocked alive s = (s', .resumeAll pids)) : ∀ pid ∈ pids, pid ∈ s.targets := by
  unfold schedulerLocked at h
  simp only at h
  split at h
  · simp only [Prod.mk.injEq, Slice.resumeAll.injEq] at h
    intro pid hpid
    rw [← h.2] at hpid
    exact (mem_pruneDeadLocked.mp (List.mem_filter.mp hpid).1).1
  · simp at h

end ContainerSim.Sched
