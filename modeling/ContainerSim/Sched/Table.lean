import ContainerSim.Lib.Filled
import ContainerSim.Sched.Lost

/-!
# The target table

The array behind `SchedulerState.targets`: `target_count` of its slots are in
use, and the operations work on them in place. An array represents a state
(`Represents`), every operation keeps that, and so after any sequence of
operations the array holds the pids that were added and since then neither
removed, cleared nor found dead (`table_represents`).
-/

namespace ContainerSim.Sched

open Lib

structure TargetTable where
  /-- `targets`, `target_capacity` slots -/
  targets : List Int
  targetCount : Nat
  currentIndex : Nat
  enabled : Bool

namespace TargetTable

/-- What `g_state` starts with. -/
def init : TargetTable := { targets := [], targetCount := 0, currentIndex := 0, enabled := false }

/-- `targets[0 .. target_count)` -/
def entries (t : TargetTable) : List Int := t.targets.take t.targetCount

/-- `ensure_capacity_locked`; `fresh` is what the new slots of the block hold. -/
def ensureCapacity (realloc : Bool) (fresh : Nat → Int) (desired : Nat) (t : TargetTable) :
    Option TargetTable :=
  if desired ≤ t.targets.length then some t
  else if realloc then
    let capacity :=
      doubleUntil desired desired (if t.targets.length = 0 then 8 else t.targets.length)
    some { t with
      targets := t.targets ++ (List.range (capacity - t.targets.length)).map fresh }
  else none

/-- `scheduler_add_target` with the value it returns. -/
def addTarget (realloc : Bool) (fresh : Nat → Int) (pid : Int) (t : TargetTable) :
    TargetTable × Int :=
  match findSlot (· = pid) t.targets t.targetCount with
  | some _ => (t, 0)
  | none =>
    match ensureCapacity realloc fresh (t.targetCount + 1) t with
    | none => (t, -1)
    | some t =>
      ({ t with targets := t.targets.set t.targetCount pid, targetCount := t.targetCount + 1 }, 0)

def clampIndex (t : TargetTable) : TargetTable :=
  if t.currentIndex ≥ t.targetCount then { t with currentIndex := 0 } else t

/-- `scheduler_remove_target`. -/
def removeTarget (pid : Int) (t : TargetTable) : TargetTable :=
  clampIndex (match findSlot (· = pid) t.targets t.targetCount with
    | some i =>
      { t with
        targets := t.targets.set i (t.targets[t.targetCount - 1]?.getD 0)
        targetCount := t.targetCount - 1 }
    | none => t)

/-- `scheduler_clear_targets`. -/
def clearTargets (t : TargetTable) : TargetTable := { t with targetCount := 0, currentIndex := 0 }

/-- `prune_dead_locked`. -/
def pruneDead (alive : Int → Bool) (t : TargetTable) : TargetTable :=
  let kept := compact (fun pid => 0 < pid && alive pid) t.targets t.targetCount
  clampIndex { t with targets := kept.1, targetCount := kept.2 }

/-- The locked section of an iteration of `scheduler_thread_main`. -/
def iterate (alive : Int → Bool) (t : TargetTable) : TargetTable × Slice :=
  let t := t.pruneDead alive
  let count := t.targetCount
  if !t.enabled || count < 2 then (t, .resumeAll (t.entries.filter (0 < ·)))
  else
    let current := t.targets[t.currentIndex % count]?.getD (-1)
    let t' := { t with currentIndex := (t.currentIndex + 1) % count }
    (t', .rotate current (t'.targets[t'.currentIndex % count]?.getD (-1)))

end TargetTable

inductive TableOp where
  | add (realloc : Bool) (fresh : Nat → Int) (pid : Int)
  | remove (pid : Int)
  | clear
  /-- an iteration of the thread; of the positive pids those with `alive` exist -/
  | iterate (alive : Int → Bool)
  | setEnabled (enabled : Bool)

/-- What an operation does to the array. -/
def TableOp.onTable (t : TargetTable) : TableOp → TargetTable
  | .add realloc fresh pid => (t.addTarget realloc fresh pid).1
  | .remove pid => t.removeTarget pid
  | .clear => t.clearTargets
  | .iterate alive => (t.iterate alive).1
  | .setEnabled enabled => { t with enabled }

/-- What it does to the state. -/
def TableOp.onState (s : SchedulerState) : TableOp → SchedulerState
  | .add realloc _ pid => schedulerAddTarget realloc pid s
  | .remove pid => schedulerRemoveTarget pid s
  | .clear => schedulerClearTargets s
  | .iterate alive => (schedulerLocked alive s).1
  | .setEnabled enabled => schedulerSetEnabled enabled s

def tableRun (ops : List TableOp) : TargetTable := ops.foldl TableOp.onTable .init

def stateRun (ops : List TableOp) : SchedulerState := ops.foldl TableOp.onState .init

/-- The operation takes the pid out of the table. -/
def TableOp.Drops (pid : Int) : TableOp → Prop
  | .add _ _ _ => False
  | .remove removed => removed = pid
  | .clear => True
  | .iterate alive => ¬ (0 < pid ∧ alive pid = true)
  | .setEnabled _ => False

/-- The pid was added, and no later operation took it out. -/
def Added (ops : List TableOp) (pid : Int) : Prop :=
  ∃ before realloc fresh after, ops = before ++ .add realloc fresh pid :: after ∧
    ((tableRun before).addTarget realloc fresh pid).2 = 0 ∧ ∀ op ∈ after, ¬ op.Drops pid

/-! ## The array and the list -/

/-- The entries in use are the targets, and the index and the switch are the same. -/
structure Represents (t : TargetTable) (s : SchedulerState) : Prop where
  entries : t.entries = s.targets
  count : t.targetCount = s.targets.length
  capacity : t.targets.length = s.targetCapacity
  index : t.currentIndex = s.currentIndex
  enabled : t.enabled = s.enabled

namespace Represents

variable {t : TargetTable} {s : SchedulerState}

/-- There is a slot for every entry. -/
theorem fits (h : Represents t s) : t.targetCount ≤ t.targets.length := by
  have hlen := congrArg List.length h.entries
  rw [TargetTable.entries, List.length_take, ← h.count] at hlen
  omega

/-- A slot in use is read as its entry. -/
theorem read (h : Represents t s) {i : Nat} (hi : i < t.targetCount) :
    t.targets[i]? = s.targets[i]? := by
  rw [← h.entries, TargetTable.entries, List.getElem?_take, if_pos hi]

theorem find (h : Represents t s) (p : Int → Bool) :
    findSlot p t.targets t.targetCount = s.targets.findIdx? p := by
  rw [findSlot_eq h.fits, ← h.entries]
  rfl

theorem clampIndex (h : Represents t s) : Represents t.clampIndex (clampIndex s) := by
  have hiff : t.currentIndex ≥ t.targetCount ↔ s.currentIndex ≥ s.targets.length := by
    rw [h.index, h.count]
  unfold TargetTable.clampIndex Sched.clampIndex
  by_cases hpast : t.currentIndex ≥ t.targetCount
  · rw [if_pos hpast, if_pos (hiff.mp hpast)]
    exact ⟨h.entries, h.count, h.capacity, rfl, h.enabled⟩
  · rw [if_neg hpast, if_neg (mt hiff.mpr hpast)]
    exact h

end Represents

theorem le_doubleUntil {desired : Nat} (fuel : Nat) {cap : Nat} (hcap : 0 < cap)
    (hfuel : desired ≤ cap + fuel) : desired ≤ doubleUntil desired fuel cap := by
  induction fuel generalizing cap with
  | zero => exact hfuel
  | succ fuel ih =>
    unfold doubleUntil
    split
    · exact ih (by omega) (by omega)
    · omega

namespace Represents

variable {t : TargetTable} {s : SchedulerState}

/-- The doubling ends above what is asked for. -/
theorem ensureCapacity (h : Represents t s) (realloc : Bool) (fresh : Nat → Int) (desired : Nat) :
    (t.ensureCapacity realloc fresh desired = none ∧
      ensureCapacityLocked realloc desired s = none) ∨
    ∃ t' s', t.ensureCapacity realloc fresh desired = some t' ∧
      ensureCapacityLocked realloc desired s = some s' ∧ Represents t' s' ∧
      s'.targets = s.targets ∧ desired ≤ t'.targets.length := by
  unfold TargetTable.ensureCapacity ensureCapacityLocked
  rw [h.capacity]
  by_cases hroom : desired ≤ s.targetCapacity
  · rw [if_pos hroom, if_pos hroom]
    exact .inr ⟨t, s, rfl, rfl, h, rfl, h.capacity ▸ hroom⟩
  · rw [if_neg hroom, if_neg hroom]
    cases realloc with
    | false => exact .inl ⟨rfl, rfl⟩
    | true =>
      have hge : desired ≤
          doubleUntil desired desired (if s.targetCapacity = 0 then 8 else s.targetCapacity) := by
        refine le_doubleUntil desired ?_ (by omega)
        split
        · omega
        · omega
      have hmore : ∀ capacity, desired ≤ capacity → (t.targets ++
          (List.range (capacity - s.targetCapacity)).map fresh).length = capacity := by
        intro capacity hcapacity
        rw [List.length_append, List.length_map, List.length_range, h.capacity]
        omega
      refine .inr ⟨_, _, rfl, rfl, ⟨?_, h.count, hmore _ hge, h.index, h.enabled⟩, rfl,
        (hmore _ hge).symm ▸ hge⟩
      show (t.targets ++ _).take t.targetCount = s.targets
      rw [List.take_append_of_le_length h.fits]
      exact h.entries

/-- What `scheduler_add_target` does to the entries, by what it returns. -/
theorem addTarget (h : Represents t s) (realloc : Bool) (fresh : Nat → Int) (pid : Int) :
    Represents (t.addTarget realloc fresh pid).1 (schedulerAddTarget realloc pid s) ∧
      ((t.addTarget realloc fresh pid).2 = 0 →
        pid ∈ (schedulerAddTarget realloc pid s).targets) ∧
      ((t.addTarget realloc fresh pid).2 ≠ 0 → schedulerAddTarget realloc pid s = s) := by
  unfold TargetTable.addTarget schedulerAddTarget
  rw [h.find, h.count]
  by_cases hmem : pid ∈ s.targets
  · have hfound : ∃ i, s.targets.findIdx? (· = pid) = some i := by
      refine Option.isSome_iff_exists.mp (List.findIdx?_isSome.trans ?_)
      rw [List.any_eq_true]
      exact ⟨pid, hmem, by simp⟩
    obtain ⟨i, hi⟩ := hfound
    rw [hi, if_pos hmem]
    exact ⟨h, fun _ => hmem, fun hret => absurd rfl hret⟩
  · -- a pid that is not found is put behind the last entry, if there is room
    have hnone : s.targets.findIdx? (· = pid) = none := by
      rw [List.findIdx?_eq_none_iff]
      intro q hq
      rw [decide_eq_false_iff_not]
      rintro rfl
      exact hmem hq
    rw [hnone, if_neg hmem]
    rcases h.ensureCapacity realloc fresh (s.targets.length + 1) with
      ⟨ht, hs⟩ | ⟨t', s', ht, hs, h', htargets, hroom⟩
    · rw [ht, hs]
      -- `realloc` has failed: the table is as it was
      exact ⟨h, fun hret => absurd hret (show (-1 : Int) ≠ 0 by decide), fun _ => rfl⟩
    · rw [ht, hs]
      have hcount : t'.targetCount < t'.targets.length := by
        rw [h'.count, htargets]
        exact hroom
      refine ⟨⟨?_, ?_, ?_, h'.index, h'.enabled⟩, fun _ => ?_, fun hret => absurd rfl hret⟩
      · show (t'.targets.set t'.targetCount pid).take (t'.targetCount + 1) = s'.targets ++ [pid]
        rw [take_set_self pid hcount, ← h'.entries]
        rfl
      · show t'.targetCount + 1 = (s'.targets ++ [pid]).length
        rw [List.length_append, h'.count]
        rfl
      · show (t'.targets.set t'.targetCount pid).length = s'.targetCapacity
        rw [List.length_set, h'.capacity]
      · exact List.mem_append_right _ List.mem_cons_self

/-- The last entry in use takes the place of the one removed. -/
theorem removeTarget (h : Represents t s) (pid : Int) :
    Represents (t.removeTarget pid) (schedulerRemoveTarget pid s) := by
  unfold TargetTable.removeTarget schedulerRemoveTarget
  apply Represents.clampIndex
  rw [h.find]
  cases hfind : s.targets.findIdx? (· = pid) with
  | none => exact h
  | some i =>
    obtain ⟨hi, -⟩ := List.findIdx?_eq_some_iff_getElem.mp hfind
    have hcount := h.count
    have hlast : t.targets[t.targetCount - 1]? = s.targets.getLast? := by
      rw [h.read (by omega), List.getLast?_eq_getElem?, hcount]
    refine ⟨?_, ?_, ?_, h.index, h.enabled⟩
    · show (t.targets.set i _).take (t.targetCount - 1) = swapRemove i s.targets
      rw [hlast, swapRemove, List.dropLast_eq_take, List.length_set, ← hcount, ← h.entries,
        TargetTable.entries, ← List.take_set, List.take_take, Nat.min_eq_left (Nat.sub_le _ _)]
    · show t.targetCount - 1 = (swapRemove i s.targets).length
      rw [swapRemove, List.length_dropLast, List.length_set, hcount]
    · show (t.targets.set i _).length = s.targetCapacity
      rw [List.length_set, h.capacity]

theorem clearTargets (h : Represents t s) : Represents t.clearTargets (schedulerClearTargets s) :=
  ⟨List.take_zero, rfl, h.capacity, rfl, h.enabled⟩

/-- The loop of `prune_dead_locked` keeps the live entries, in their order. -/
theorem pruneDead (h : Represents t s) (alive : Int → Bool) :
    Represents (t.pruneDead alive) (pruneDeadLocked alive s) := by
  have hkept := @compacted Int (fun pid => 0 < pid && alive pid) t.targets t.targetCount h.fits
  have hentries := hkept.kept
  have hbehind := hkept.behind
  have hlength := hkept.length
  have hfits := h.fits
  have htargets : t.targets.take t.targetCount = s.targets := h.entries
  rw [htargets] at hentries
  unfold TargetTable.pruneDead pruneDeadLocked
  apply Represents.clampIndex
  refine ⟨hentries, ?_, hlength.trans h.capacity, h.index, h.enabled⟩
  have hlen := congrArg List.length hentries
  rw [List.length_take, hlength] at hlen
  show (compact _ t.targets t.targetCount).2 =
    (s.targets.filter fun pid => 0 < pid && alive pid).length
  omega

/-- The thread signals the same processes. -/
theorem iterate (h : Represents t s) (alive : Int → Bool) :
    Represents (t.iterate alive).1 (schedulerLocked alive s).1 ∧
      (t.iterate alive).2 = (schedulerLocked alive s).2 := by
  have hprune := h.pruneDead alive
  unfold TargetTable.iterate schedulerLocked
  simp only
  generalize t.pruneDead alive = t at hprune
  generalize pruneDeadLocked alive s = s at hprune
  rw [hprune.enabled, hprune.count, hprune.entries, hprune.index]
  split
  · exact ⟨hprune, rfl⟩
  · rename_i hcond
    simp only [Bool.or_eq_true, Bool.not_eq_true', decide_eq_true_eq, not_or, Nat.not_lt] at hcond
    have hmod : ∀ i, i % s.targets.length < t.targetCount := by
      intro i
      rw [hprune.count]
      exact Nat.mod_lt _ (by omega)
    refine ⟨⟨?_, rfl, hprune.capacity, rfl, rfl⟩, ?_⟩
    · show t.targets.take s.targets.length = s.targets
      rw [← hprune.count]
      exact hprune.entries
    · show Slice.rotate _ _ = Slice.rotate _ _
      rw [hprune.read (hmod _), hprune.read (hmod _)]

theorem step (h : Represents t s) (op : TableOp) : Represents (op.onTable t) (op.onState s) := by
  cases op with
  | add realloc fresh pid => exact (h.addTarget realloc fresh pid).1
  | remove pid => exact h.removeTarget pid
  | clear => exact h.clearTargets
  | iterate alive => exact (h.iterate alive).1
  | setEnabled enabled => exact ⟨h.entries, h.count, h.capacity, h.index, rfl⟩

/-- The thread reads slots in use. -/
theorem iterate_valid (h : Represents t s) {alive : Int → Bool} {t' : TargetTable}
    {current next : Int} (hit : t.iterate alive = (t', .rotate current next)) :
    (t.pruneDead alive).currentIndex < (t.pruneDead alive).targetCount ∧
      (t.pruneDead alive).targets[
        (t.pruneDead alive).currentIndex % (t.pruneDead alive).targetCount]? = some current ∧
      t'.currentIndex < t'.targetCount ∧
      t'.targets[t'.currentIndex % t'.targetCount]? = some next := by
  have hprune := h.pruneDead alive
  have hindex : (t.pruneDead alive).currentIndex = 0 ∨
      (t.pruneDead alive).currentIndex < (t.pruneDead alive).targetCount := by
    unfold TargetTable.pruneDead TargetTable.clampIndex
    simp only
    split
    · exact .inl rfl
    · rename_i hlt
      exact .inr (Nat.lt_of_not_le hlt)
  unfold TargetTable.iterate at hit
  simp only at hit
  generalize t.pruneDead alive = t at hit hprune hindex
  generalize pruneDeadLocked alive s = s at hprune
  split at hit
  · simp at hit
  · rename_i hcond
    simp only [Bool.or_eq_true, Bool.not_eq_true', decide_eq_true_eq, not_or, Nat.not_lt] at hcond
    obtain ⟨rfl, hslice⟩ := Prod.mk.inj hit
    obtain ⟨rfl, rfl⟩ := Slice.rotate.inj hslice
    have hfits := hprune.fits
    -- the index is taken modulo the count, which is within the capacity
    have hread : ∀ i, t.targets[i % t.targetCount]? =
        some (t.targets[i % t.targetCount]?.getD (-1)) := by
      intro i
      have hlt : i % t.targetCount < t.targetCount := Nat.mod_lt _ (by omega)
      rw [List.getElem?_eq_getElem (by omega)]
      rfl
    exact ⟨by omega, hread _, Nat.mod_lt _ (by omega), hread _⟩

end Represents

theorem represents_init : Represents .init .init := ⟨rfl, rfl, rfl, rfl, rfl⟩

theorem tableRun_snoc (ops : List TableOp) (op : TableOp) :
    tableRun (ops ++ [op]) = op.onTable (tableRun ops) :=
  List.foldl_concat ..

theorem stateRun_snoc (ops : List TableOp) (op : TableOp) :
    stateRun (ops ++ [op]) = op.onState (stateRun ops) :=
  List.foldl_concat ..

theorem represents_run (ops : List TableOp) : Represents (tableRun ops) (stateRun ops) := by
  induction ops using List.reverseRecOn with
  | nil => exact represents_init
  | append_singleton ops op ih =>
    rw [tableRun_snoc, stateRun_snoc]
    exact ih.step op

/-! ## The targets -/

/-- The targets are distinct, and the index names one of them or is 0. -/
structure TableInv (s : SchedulerState) : Prop where
  nodup : s.targets.Nodup
  index : s.currentIndex = 0 ∨ s.currentIndex < s.targets.length

theorem tableInv_clampIndex {s : SchedulerState} (h : s.targets.Nodup) :
    TableInv (clampIndex s) where
  nodup := by rwa [clampIndex_targets]
  index := by
    unfold clampIndex
    split
    · exact .inl rfl
    · rename_i hlt
      exact .inr (Nat.lt_of_not_le hlt)

/-- A pid is added once, behind the others, or nothing changes. -/
theorem schedulerAddTarget_cases (realloc : Bool) (pid : Int) (s : SchedulerState) :
    schedulerAddTarget realloc pid s = s ∨ pid ∉ s.targets ∧ ∃ capacity,
      schedulerAddTarget realloc pid s =
        { s with targets := s.targets ++ [pid], targetCapacity := capacity } := by
  unfold schedulerAddTarget
  split
  · exact .inl rfl
  · rename_i hmem
    unfold ensureCapacityLocked
    by_cases hroom : s.targets.length + 1 ≤ s.targetCapacity
    · rw [if_pos hroom]
      exact .inr ⟨hmem, s.targetCapacity, rfl⟩
    · rw [if_neg hroom]
      cases realloc with
      | false => exact .inl rfl
      | true => exact .inr ⟨hmem, _, rfl⟩

/-- The other targets stay. -/
theorem mem_schedulerRemoveTarget {s : SchedulerState} (h : s.targets.Nodup) (pid q : Int) :
    (schedulerRemoveTarget pid s).targets.Nodup ∧
      (q ∈ (schedulerRemoveTarget pid s).targets ↔ q ∈ s.targets ∧ pid ≠ q) := by
  unfold schedulerRemoveTarget
  rw [clampIndex_targets]
  cases hfind : s.targets.findIdx? (· = pid) with
  | none =>
    refine ⟨h, fun hq => ⟨hq, ?_⟩, fun hq => hq.1⟩
    rintro rfl
    exact absurd (List.findIdx?_eq_none_iff.mp hfind pid hq) (by simp)
  | some i =>
    obtain ⟨hi, hp, -⟩ := List.findIdx?_eq_some_iff_getElem.mp hfind
    have hlost : s.targets[i]? = some pid := by
      rw [List.getElem?_eq_getElem hi, of_decide_eq_true hp]
    have hperm := swapRemove_perm hlost
    have herase : s.targets.filter (fun r => decide (pid ≠ r)) = s.targets.eraseIdx i :=
      filter_eq_eraseIdx hlost h (by simp) fun r _ hr => by simpa using Ne.symm hr
    rw [← herase] at hperm
    show (swapRemove i s.targets).Nodup ∧ (q ∈ swapRemove i s.targets ↔ _)
    rw [hperm.nodup_iff, hperm.mem_iff, List.mem_filter, decide_eq_true_eq]
    exact ⟨h.filter _, Iff.rfl⟩

theorem TableInv.step {s : SchedulerState} (h : TableInv s) (op : TableOp) :
    TableInv (op.onState s) := by
  cases op with
  | add realloc fresh pid =>
    show TableInv (schedulerAddTarget realloc pid s)
    -- a pid is appended only if it is new
    rcases schedulerAddTarget_cases realloc pid s with heq | ⟨hnew, capacity, heq⟩
    · rwa [heq]
    · rw [heq]
      refine ⟨?_, h.index.imp_right fun hlt => ?_⟩
      · exact List.nodup_append.mpr ⟨h.nodup, List.nodup_singleton pid, fun a ha b hb => by
          rintro rfl
          exact hnew (List.mem_singleton.mp hb ▸ ha)⟩
      · show s.currentIndex < (s.targets ++ [pid]).length
        rw [List.length_append]
        omega
  | remove pid =>
    have hnodup := (mem_schedulerRemoveTarget h.nodup pid pid).1
    unfold TableOp.onState schedulerRemoveTarget at *
    rw [clampIndex_targets] at hnodup
    exact tableInv_clampIndex hnodup
  | clear => exact ⟨List.nodup_nil, .inl rfl⟩
  | iterate alive =>
    have hprune : TableInv (pruneDeadLocked alive s) := tableInv_clampIndex (h.nodup.filter _)
    show TableInv (schedulerLocked alive s).1
    unfold schedulerLocked
    simp only
    split
    · exact hprune
    · rename_i hcond
      simp only [Bool.or_eq_true, Bool.not_eq_true', decide_eq_true_eq, not_or,
        Nat.not_lt] at hcond
      exact ⟨hprune.nodup, .inr (Nat.mod_lt _ (by omega))⟩
  | setEnabled enabled => exact ⟨h.nodup, h.index⟩

theorem tableInv_run (ops : List TableOp) : TableInv (stateRun ops) := by
  induction ops using List.reverseRecOn with
  | nil => exact ⟨List.nodup_nil, .inl rfl⟩
  | append_singleton ops op ih =>
    rw [stateRun_snoc]
    exact ih.step op

/-! ## Who is in the table -/

/-- After an operation a pid is a target if the operation added it, or if it was
one and the operation did not take it out. -/
theorem mem_onState {t : TargetTable} {s : SchedulerState} (hrep : Represents t s)
    (h : TableInv s) (op : TableOp) (pid : Int) :
    pid ∈ (op.onState s).targets ↔
      (∃ realloc fresh, op = .add realloc fresh pid ∧ (t.addTarget realloc fresh pid).2 = 0) ∨
        pid ∈ s.targets ∧ ¬ op.Drops pid := by
  cases op with
  | add realloc fresh q =>
    obtain ⟨-, hadded, hfailed⟩ := hrep.addTarget realloc fresh q
    show pid ∈ (schedulerAddTarget realloc q s).targets ↔ _
    constructor
    · intro hpid
      -- the pid is refused or known, or it goes to the end
      rcases schedulerAddTarget_cases realloc q s with heq | ⟨-, capacity, heq⟩
      · rw [heq] at hpid
        exact .inr ⟨hpid, not_false⟩
      · by_cases hret : (t.addTarget realloc fresh q).2 = 0
        · rw [heq] at hpid
          rcases List.mem_append.mp hpid with hpid | hpid
          · exact .inr ⟨hpid, not_false⟩
          · obtain rfl := List.mem_singleton.mp hpid
            exact .inl ⟨realloc, fresh, rfl, hret⟩
        · rw [hfailed hret] at hpid
          exact .inr ⟨hpid, not_false⟩
    · rintro (⟨realloc', fresh', heq, hret⟩ | ⟨hpid, -⟩)
      · obtain ⟨rfl, rfl, rfl⟩ := TableOp.add.inj heq
        exact hadded hret
      · rcases schedulerAddTarget_cases realloc q s with heq | ⟨-, capacity, heq⟩
        · rwa [heq]
        · rw [heq]
          exact List.mem_append_left _ hpid
  | remove q =>
    show pid ∈ (schedulerRemoveTarget q s).targets ↔ _
    rw [(mem_schedulerRemoveTarget h.nodup q pid).2]
    simp [TableOp.Drops]
  | clear => simp [TableOp.onState, TableOp.Drops, schedulerClearTargets]
  | iterate alive =>
    -- an iteration takes out the dead and nothing else
    have htargets : (schedulerLocked alive s).1.targets = (pruneDeadLocked alive s).targets := by
      unfold schedulerLocked
      simp only
      split
      · rfl
      · rfl
    show pid ∈ (schedulerLocked alive s).1.targets ↔ _
    rw [htargets, mem_pruneDeadLocked]
    simp [TableOp.Drops]
  | setEnabled enabled => simp [TableOp.onState, TableOp.Drops, schedulerSetEnabled]

theorem added_snoc (ops : List TableOp) (op : TableOp) (pid : Int) :
    Added (ops ++ [op]) pid ↔
      (∃ realloc fresh, op = .add realloc fresh pid ∧
        ((tableRun ops).addTarget realloc fresh pid).2 = 0) ∨ Added ops pid ∧ ¬ op.Drops pid := by
  constructor
  · rintro ⟨before, realloc, fresh, after, heq, hret, hafter⟩
    rcases List.eq_nil_or_concat after with rfl | ⟨after, last, rfl⟩
    · obtain ⟨rfl, hop⟩ := List.append_inj' heq rfl
      exact .inl ⟨realloc, fresh, (List.cons.inj hop).1, hret⟩
    · rw [List.concat_eq_append, ← List.cons_append, ← List.append_assoc] at heq
      obtain ⟨rfl, hop⟩ := List.append_inj' heq rfl
      obtain rfl := (List.cons.inj hop).1
      refine .inr ⟨⟨before, realloc, fresh, after, rfl, hret, fun a ha => hafter a ?_⟩,
        hafter op (by simp)⟩
      rw [List.concat_eq_append]
      exact List.mem_append_left _ ha
  · rintro (⟨realloc, fresh, rfl, hret⟩ | ⟨⟨before, realloc, fresh, after, rfl, hret, hafter⟩, hop⟩)
    · exact ⟨ops, realloc, fresh, [], rfl, hret, fun a ha => by cases ha⟩
    · refine ⟨before, realloc, fresh, after ++ [op], by simp, hret, fun a ha => ?_⟩
      rcases List.mem_append.mp ha with ha | ha
      · exact hafter a ha
      · exact List.mem_singleton.mp ha ▸ hop

theorem mem_stateRun (ops : List TableOp) (pid : Int) :
    pid ∈ (stateRun ops).targets ↔ Added ops pid := by
  induction ops using List.reverseRecOn with
  | nil =>
    refine ⟨fun h => absurd h List.not_mem_nil, ?_⟩
    rintro ⟨before, realloc, fresh, after, heq, -⟩
    exact absurd heq.symm (List.append_ne_nil_of_right_ne_nil _ (List.cons_ne_nil _ _))
  | append_singleton ops op ih =>
    rw [stateRun_snoc, mem_onState (represents_run ops) (tableInv_run ops), ih, added_snoc]

/-- **The target table**: after any sequence of operations its entries are
distinct and no more than there are slots, the index is 0 or names an entry, an
iteration that rotates reads entries in both places, and the entries are the
pids added and since then neither removed, cleared nor found dead. -/
theorem table_represents (ops : List TableOp) :
    (tableRun ops).entries.Nodup ∧
      (tableRun ops).targetCount ≤ (tableRun ops).targets.length ∧
      ((tableRun ops).currentIndex = 0 ∨
        (tableRun ops).currentIndex < (tableRun ops).targetCount) ∧
      (∀ alive t' current next, (tableRun ops).iterate alive = (t', .rotate current next) →
        ((tableRun ops).pruneDead alive).currentIndex <
            ((tableRun ops).pruneDead alive).targetCount ∧
          ((tableRun ops).pruneDead alive).targets[
            ((tableRun ops).pruneDead alive).currentIndex %
              ((tableRun ops).pruneDead alive).targetCount]? = some current ∧
          t'.currentIndex < t'.targetCount ∧
          t'.targets[t'.currentIndex % t'.targetCount]? = some next) ∧
      ∀ pid, pid ∈ (tableRun ops).entries ↔ Added ops pid := by
  have hrep := represents_run ops
  have hinv := tableInv_run ops
  refine ⟨?_, hrep.fits, ?_, fun alive t' current next hit => hrep.iterate_valid hit, fun pid => ?_⟩
  · rw [hrep.entries]
    exact hinv.nodup
  · rw [hrep.index, hrep.count]
    exact hinv.index
  · rw [hrep.entries]
    exact mem_stateRun ops pid

end ContainerSim.Sched
