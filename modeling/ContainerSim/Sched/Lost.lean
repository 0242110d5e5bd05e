import ContainerSim.Sched.RoundRobin

/-!
# Losing a target

A target leaves the table because its process is gone (`prune_dead_locked`) or
through `scheduler_remove_target`. The entries that stay change places,
`current_index` only falls back to `0`; the next iteration stops what it then
finds there. It finds the process that runs unless an earlier entry of at least
four has died, or an entry from the third on was taken out and the last one,
which runs, took its place.
-/

namespace ContainerSim.Sched

open Lib ContainerSim.Runtime

/-- At most one target is not stopped. -/
def AtMostOneRuns (s : Sliced) : Prop :=
  ∀ p ∈ s.sched.targets, ∀ q ∈ s.sched.targets,
    s.stopped p = false → s.stopped q = false → p = q

/-- The only target not stopped is `targets[current_index]`. -/
structure OnlyCurrentRuns (s : Sliced) : Prop where
  index : s.sched.currentIndex < s.sched.targets.length
  running : ∀ pid ∈ s.sched.targets,
    s.stopped pid = false ↔ s.sched.targets[s.sched.currentIndex]? = some pid

/-! ## Where the entries go -/

/-- Where entry `j` is once entry `i` has died. -/
def shiftedIndex (i j : Nat) : Nat := if i < j then j - 1 else j

/-- Where entry `j` of `n` is once entry `i` was taken out. -/
def swappedIndex (n i j : Nat) : Nat := if j + 1 = n then i else j

theorem swapRemove_append (a b : List Int) (x : Int) :
    (swapRemove a.length (a ++ x :: b)).Perm (a ++ b) := by
  rcases List.eq_nil_or_concat b with rfl | ⟨b, last, rfl⟩
  · simp [swapRemove]
  · simp only [List.concat_eq_append]
    have hlast : (a ++ x :: (b ++ [last])).getLast?.getD 0 = last := by
      simp [List.getLast?_append, List.getLast?_cons]
    have hcut : (a ++ last :: (b ++ [last])).dropLast = a ++ last :: b := by
      rw [← List.cons_append, ← List.append_assoc, List.dropLast_concat]
    rw [swapRemove, hlast, List.set_append_right _ _ (Nat.le_refl _), Nat.sub_self,
      List.set_cons_zero, hcut]
    exact (List.perm_append_singleton last b).symm.append_left a

section
variable {l : List Int} {i : Nat} {lost : Int} (hlost : l[i]? = some lost)
include hlost

theorem lost_lt : i < l.length := (List.getElem?_eq_some_iff.mp hlost).1

theorem filter_eq_eraseIdx (hnodup : l.Nodup) {p : Int → Bool} (hgone : p lost = false)
    (hstay : ∀ pid ∈ l, pid ≠ lost → p pid = true) : l.filter p = l.eraseIdx i := by
  have hfilter : l.filter p = l.filter (· != lost) := by
    refine List.filter_congr fun pid hpid => ?_
    by_cases heq : pid = lost
    · simp [heq, hgone]
    · simp [heq, hstay pid hpid heq]
  obtain ⟨hi, rfl⟩ := List.getElem?_eq_some_iff.mp hlost
  rw [hfilter, ← hnodup.erase_eq_filter, hnodup.erase_getElem]

theorem findIdx?_lost (hnodup : l.Nodup) : l.findIdx? (· = lost) = some i := by
  obtain ⟨hi, rfl⟩ := List.getElem?_eq_some_iff.mp hlost
  rw [List.findIdx?_eq_some_iff_getElem]
  refine ⟨hi, by simp, fun j hj heq => ?_⟩
  have hsame := (hnodup.getElem_inj_iff).mp (of_decide_eq_true heq)
  omega

theorem getElem?_swapRemove {j : Nat} (hj : j < l.length) (hij : j ≠ i) :
    (swapRemove i l)[swappedIndex l.length i j]? = l[j]? := by
  have hi := lost_lt hlost
  unfold swapRemove swappedIndex
  rw [List.getElem?_dropLast, List.length_set, List.getElem?_set]
  split
  · -- the last entry, now in place `i`
    rename_i hlast
    have hbefore : i < l.length - 1 := by omega
    rw [if_pos hbefore, if_pos rfl, List.getLast?_eq_getElem?, show l.length - 1 = j by omega,
      List.getElem?_eq_getElem hj, Option.getD_some]
  · rename_i hlast
    rw [if_pos (by omega), if_neg (Ne.symm hij)]

/-- Up to their order the same entries stay. -/
theorem swapRemove_perm : (swapRemove i l).Perm (l.eraseIdx i) := by
  have hi := lost_lt hlost
  have hsplit : l = l.take i ++ l[i] :: l.drop (i + 1) := by
    rw [List.getElem_cons_drop, List.take_append_drop]
  have hperm := swapRemove_append (l.take i) (l.drop (i + 1)) l[i]
  rw [← hsplit, List.length_take_of_le (Nat.le_of_lt hi)] at hperm
  rw [List.eraseIdx_eq_take_drop_succ]
  exact hperm

end

theorem getElem?_eraseIdx_shifted (l : List Int) {i j : Nat} (hij : j ≠ i) :
    (l.eraseIdx i)[shiftedIndex i j]? = l[j]? := by
  unfold shiftedIndex
  rw [List.getElem?_eraseIdx]
  split
  · rename_i hlt
    rw [if_neg (by omega)]
    congr 1
    omega
  · rename_i hlt
    rw [if_pos (by omega)]

/-! ## The next iteration -/

theorem iterate_targets (alive : Int → Bool) (s : Sliced) :
    (schedulerIterate alive s).sched.targets = (pruneDeadLocked alive s.sched).targets := by
  unfold schedulerIterate schedulerLocked
  simp only
  split <;> rfl

theorem atMostOne_of_short {alive : Int → Bool} {s : Sliced}
    (hshort : (pruneDeadLocked alive s.sched).targets.length < 2) :
    AtMostOneRuns (schedulerIterate alive s) := by
  intro p hp q hq _ _
  rw [iterate_targets] at hp hq
  obtain ⟨i, hi, rfl⟩ := List.mem_iff_getElem.mp hp
  obtain ⟨j, hj, rfl⟩ := List.mem_iff_getElem.mp hq
  congr 1
  omega

section
variable {alive : Int → Bool} {s : Sliced} {s' : SchedulerState} {targets : List Int}
  (h : Rotating targets) (hpos : ∀ pid ∈ targets, 0 < pid)
  (hprune : pruneDeadLocked alive s.sched = s') (htargets : s'.targets = targets)
  (henabled : s'.enabled = true)
include h hpos hprune htargets henabled

theorem iterate_running (pid : Int) :
    (schedulerIterate alive s).stopped pid = false ↔
      pid = h.circle.item (s'.currentIndex + 1) ∨
        pid ≠ h.circle.item s'.currentIndex ∧ s.stopped pid = false := by
  obtain ⟨-, hturn⟩ := iterate_of_prune h hpos hprune htargets henabled
  have hpid : h.circle.turn s'.currentIndex (fun pid => !s.stopped pid) pid = true ↔ _ :=
    h.circle.turn_eq_true
  rw [← hturn] at hpid
  simpa using hpid

theorem atMostOne_of_none (hnone : ∀ pid ∈ targets, s.stopped pid = true) :
    AtMostOneRuns (schedulerIterate alive s) := by
  have hnext : ∀ pid ∈ targets, (schedulerIterate alive s).stopped pid = false →
      pid = h.circle.item (s'.currentIndex + 1) := by
    intro pid hpid hrun
    rcases (iterate_running h hpos hprune htargets henabled pid).mp hrun with heq | ⟨-, hfalse⟩
    · exact heq
    · rw [hnone pid hpid] at hfalse
      cases hfalse
  intro p hp q hq hprun hqrun
  rw [iterate_targets, hprune, htargets] at hp hq
  rw [hnext p hp hprun, hnext q hq hqrun]

/-- What runs must be what the iteration stops or what it continues. -/
theorem atMostOne_iff {k : Nat} (hk : k < targets.length)
    (hindex : s'.currentIndex < targets.length)
    (hrun : ∀ pid ∈ targets, s.stopped pid = false ↔ targets[k]? = some pid) :
    AtMostOneRuns (schedulerIterate alive s) ↔
      k = s'.currentIndex ∨ k = (s'.currentIndex + 1) % targets.length := by
  have hitem : targets[k]? = some (h.circle.item k) := by
    rw [← h.getElem?_circle, Nat.mod_eq_of_lt hk]
  have hon : s.stopped (h.circle.item k) = false := (hrun _ (h.circle_mem k)).mpr hitem
  have hrunning := iterate_running h hpos hprune htargets henabled
  constructor
  · intro hone
    by_contra hneither
    rw [not_or] at hneither
    have hhere : h.circle.item k ≠ h.circle.item s'.currentIndex := by
      rw [Ne, h.circle.item_eq_iff, Nat.mod_eq_of_lt hk, Nat.mod_eq_of_lt hindex]
      exact hneither.1
    -- then that one and the one that is continued both run
    have hmem : ∀ i, h.circle.item i ∈ (schedulerIterate alive s).sched.targets := by
      intro i
      rw [iterate_targets, hprune, htargets]
      exact h.circle_mem i
    have heq := hone _ (hmem k) _ (hmem (s'.currentIndex + 1))
      ((hrunning _).mpr (.inr ⟨hhere, hon⟩)) ((hrunning _).mpr (.inl rfl))
    rw [h.circle.item_eq_iff, Nat.mod_eq_of_lt hk] at heq
    exact hneither.2 heq
  · intro hcases
    have hnext : ∀ pid ∈ targets, (schedulerIterate alive s).stopped pid = false →
        pid = h.circle.item (s'.currentIndex + 1) := by
      intro pid hpid hstill
      rcases (hrunning pid).mp hstill with heq | ⟨hhere, hold⟩
      · exact heq
      · have hsame : pid = h.circle.item k :=
          Option.some.inj (((hrun pid hpid).mp hold).symm.trans hitem)
        rcases hcases with hk' | hk'
        · rw [hsame, hk'] at hhere
          exact absurd rfl hhere
        · rw [hsame, h.circle.item_eq_iff, Nat.mod_eq_of_lt hk]
          exact hk'
    intro p hp q hq hprun hqrun
    rw [iterate_targets, hprune, htargets] at hp hq
    rw [hnext p hp hprun, hnext q hq hqrun]

end

theorem add_one_mod {r n : Nat} (h : r < n) : (r + 1) % n = if r + 1 = n then 0 else r + 1 := by
  split
  · rename_i heq
    rw [heq, Nat.mod_self]
  · exact Nat.mod_eq_of_lt (by omega)

theorem clampIndex_eq (s : SchedulerState) :
    clampIndex s = { s with currentIndex := startIndex s } := by
  unfold clampIndex startIndex
  split <;> rfl

theorem startIndex_idem (s : SchedulerState) :
    startIndex { s with currentIndex := startIndex s } = startIndex s := by
  unfold startIndex
  simp only
  split
  · exact ite_self 0
  · rfl

section
variable {s : Sliced} {alive : Int → Bool} {lost : Int} {i : Nat}
  (henabled : s.sched.enabled = true) (hnodup : s.sched.targets.Nodup)
  (hpos : ∀ pid ∈ s.sched.targets, 0 < pid) (honly : OnlyCurrentRuns s)
  (hlost : s.sched.targets[i]? = some lost)
include henabled hnodup hpos honly hlost

omit henabled in
/-- The table without entry `i`, where entry `j` is `place j` now. -/
theorem atMostOne_without {targets : List Int} {place : Nat → Nat} {u : SchedulerState}
    {t : Sliced} (hstopped : t.stopped = s.stopped)
    (hprune : pruneDeadLocked alive t.sched = { u with currentIndex := startIndex u })
    (htargets : u.targets = targets) (henabled' : u.enabled = true)
    (hperm : targets.Perm (s.sched.targets.eraseIdx i))
    (hplace : ∀ j, j < s.sched.targets.length → j ≠ i →
      targets[place j]? = s.sched.targets[j]?) :
    AtMostOneRuns (schedulerIterate alive t) ↔
      s.sched.targets.length ≤ 2 ∨ i = s.sched.currentIndex ∨
        place s.sched.currentIndex = startIndex u ∨
        place s.sched.currentIndex = (startIndex u + 1) % targets.length := by
  subst htargets
  have hlength : u.targets.length = s.sched.targets.length - 1 := by
    rw [hperm.length_eq, List.length_eraseIdx_of_lt (lost_lt hlost)]
  have hmem : ∀ pid ∈ u.targets, pid ∈ s.sched.targets := fun pid hpid =>
    (List.eraseIdx_sublist _ _).subset (hperm.mem_iff.mp hpid)
  by_cases hshort : s.sched.targets.length ≤ 2
  · refine iff_of_true (atMostOne_of_short ?_) (.inl hshort)
    rw [hprune]
    show u.targets.length < 2
    omega
  -- two or more are left, so they are rotated
  have hrot : Rotating u.targets :=
    ⟨hperm.nodup_iff.mpr (hnodup.sublist (List.eraseIdx_sublist _ _)), by omega⟩
  have hpos' : ∀ pid ∈ u.targets, 0 < pid := fun pid hpid => hpos pid (hmem pid hpid)
  by_cases hgone : i = s.sched.currentIndex
  · -- the one that ran is gone
    refine iff_of_true (atMostOne_of_none hrot hpos' hprune rfl henabled' ?_) (.inr (.inl hgone))
    intro pid hpid
    rw [hstopped]
    by_contra hrun
    rw [Bool.not_eq_true] at hrun
    have hcurrent := (honly.running pid (hmem pid hpid)).mp hrun
    rw [← hgone, hlost] at hcurrent
    rw [← Option.some.inj hcurrent] at hpid
    obtain ⟨hi, rfl⟩ := List.getElem?_eq_some_iff.mp hlost
    rw [hperm.mem_iff, ← hnodup.erase_getElem i hi, hnodup.mem_erase_iff] at hpid
    exact hpid.1 rfl
  · -- the one that ran is still there, at its new place
    have hstays := hplace _ honly.index (Ne.symm hgone)
    have hk : place s.sched.currentIndex < u.targets.length := by
      rw [List.getElem?_eq_getElem honly.index] at hstays
      exact (List.getElem?_eq_some_iff.mp hstays).1
    rw [atMostOne_iff hrot hpos' hprune rfl henabled' hk (startIndex_lt hrot.pos)]
    · simp [hshort, hgone]
    · intro pid hpid
      rw [hstopped, hstays]
      exact honly.running pid (hmem pid hpid)

theorem atMostOne_exit (hdead : alive lost = false)
    (hlive : ∀ pid ∈ s.sched.targets, pid ≠ lost → alive pid = true) :
    AtMostOneRuns (schedulerIterate alive s) ↔
      s.sched.currentIndex ≤ i ∨ s.sched.targets.length ≤ 3 := by
  have hi := lost_lt hlost
  have hindex := honly.index
  have hfilter : (s.sched.targets.filter fun pid => 0 < pid && alive pid) =
      s.sched.targets.eraseIdx i := by
    refine filter_eq_eraseIdx hlost hnodup ?_ fun pid hpid hne => ?_
    · simp [hdead]
    · simp [hpos pid hpid, hlive pid hpid hne]
  have hlength := List.length_eraseIdx_of_lt hi
  rw [atMostOne_without hnodup hpos honly hlost
    (u := { s.sched with targets := s.sched.targets.eraseIdx i }) rfl
    (by rw [pruneDeadLocked, hfilter, clampIndex_eq]) rfl henabled (List.Perm.refl _)
    fun j _ hij => getElem?_eraseIdx_shifted _ hij]
  simp only [startIndex, shiftedIndex, hlength]
  by_cases hsmall : s.sched.targets.length ≤ 2
  · omega
  · rw [add_one_mod (by split <;> omega)]
    split <;> split <;> split <;> omega

theorem atMostOne_removed (hlive : ∀ pid ∈ s.sched.targets, pid ≠ lost → alive pid = true) :
    AtMostOneRuns
        (schedulerIterate alive { s with sched := schedulerRemoveTarget lost s.sched }) ↔
      s.sched.currentIndex + 1 ≠ s.sched.targets.length ∨ i ≤ 1 ∨ i = s.sched.currentIndex := by
  have hi := lost_lt hlost
  have hindex := honly.index
  have hperm := swapRemove_perm hlost
  have hlength : (swapRemove i s.sched.targets).length = s.sched.targets.length - 1 := by
    rw [hperm.length_eq, List.length_eraseIdx_of_lt hi]
  have hlive' : ∀ pid ∈ swapRemove i s.sched.targets, 0 < pid ∧ alive pid = true := by
    intro pid hpid
    obtain ⟨hi, rfl⟩ := List.getElem?_eq_some_iff.mp hlost
    rw [hperm.mem_iff, ← hnodup.erase_getElem i hi, hnodup.mem_erase_iff] at hpid
    exact ⟨hpos pid hpid.2, hlive pid hpid.2 hpid.1⟩
  have hprune : pruneDeadLocked alive (schedulerRemoveTarget lost s.sched) =
      { s.sched with
        targets := swapRemove i s.sched.targets
        currentIndex := startIndex { s.sched with targets := swapRemove i s.sched.targets } } := by
    rw [schedulerRemoveTarget, findIdx?_lost hlost hnodup]
    simp only
    rw [clampIndex_eq, prune_live hlive', startIndex_idem]
  rw [atMostOne_without hnodup hpos honly hlost
    (t := { s with sched := schedulerRemoveTarget lost s.sched })
    (u := { s.sched with targets := swapRemove i s.sched.targets }) rfl hprune rfl henabled hperm
    fun j hj hij => getElem?_swapRemove hlost hj hij]
  simp only [startIndex, swappedIndex, hlength]
  by_cases hsmall : s.sched.targets.length ≤ 2
  · omega
  · rw [add_one_mod (by split <;> omega)]
    split <;> split <;> split <;> omega

end

/-- **Losing a target.** Scheduling is on and the only target not stopped is
`targets[current_index]`. When target `i` exits, the next iteration leaves at
most one of the others running exactly if it was not before the current one or
there were at most three targets. When it is taken out by
`scheduler_remove_target`, exactly if the current entry was not the last one,
or `i` is `0`, `1` or the current entry. -/
theorem losing_a_target {s : Sliced} {alive : Int → Bool} {lost : Int} {i : Nat}
    (henabled : s.sched.enabled = true) (hnodup : s.sched.targets.Nodup)
    (hpos : ∀ pid ∈ s.sched.targets, 0 < pid) (honly : OnlyCurrentRuns s)
    (hlost : s.sched.targets[i]? = some lost)
    (hlive : ∀ pid ∈ s.sched.targets, pid ≠ lost → alive pid = true) :
    (alive lost = false →
      (AtMostOneRuns (schedulerIterate alive s) ↔
        s.sched.currentIndex ≤ i ∨ s.sched.targets.length ≤ 3)) ∧
    (AtMostOneRuns
        (schedulerIterate alive { s with sched := schedulerRemoveTarget lost s.sched }) ↔
      s.sched.currentIndex + 1 ≠ s.sched.targets.length ∨ i ≤ 1 ∨ i = s.sched.currentIndex) :=
  ⟨fun hdead => atMostOne_exit henabled hnodup hpos honly hlost hdead hlive,
    atMostOne_removed henabled hnodup hpos honly hlost hlive⟩

/-- Four targets, of which only the one at `index` runs. -/
def fourTargets (index : Nat) : Sliced :=
  { sched := { SchedulerState.init with
      enabled := true, targets := [100, 101, 102, 103], currentIndex := index }
    stopped := fun pid => pid ≠ 100 + index }

theorem losing_a_target_four :
    (AtMostOneRuns (schedulerIterate (fun pid => pid ≠ 102) (fourTargets 1)) ↔ 1 ≤ 2 ∨ 4 ≤ 3) ∧
    (AtMostOneRuns (schedulerIterate (fun _ => true)
        { fourTargets 1 with sched := schedulerRemoveTarget 102 (fourTargets 1).sched }) ↔
      1 + 1 ≠ 4 ∨ 2 ≤ 1 ∨ 2 = 1) :=
  have honly : OnlyCurrentRuns (fourTargets 1) := ⟨by decide, by decide⟩
  ⟨(losing_a_target (i := 2) rfl (by decide) (by decide) honly (show _ = some 102 from rfl)
      (by decide)).1 rfl,
    (losing_a_target (i := 2) rfl (by decide) (by decide) honly (show _ = some 102 from rfl)
      (by decide)).2⟩

/-- With `101` running, `100` exits: the next iteration stops `102`, which is
stopped already, and continues `103`. With `103` running, `102` is taken out:
the next iteration stops `100` and continues `101`. -/
theorem losing_a_target_two_run :
    OnlyCurrentRuns (fourTargets 1) ∧ OnlyCurrentRuns (fourTargets 3) ∧
    ¬ AtMostOneRuns (schedulerIterate (fun pid => pid ≠ 100) (fourTargets 1)) ∧
    ¬ AtMostOneRuns (schedulerIterate (fun _ => true)
        { fourTargets 3 with sched := schedulerRemoveTarget 102 (fourTargets 3).sched }) := by
  refine ⟨⟨by decide, by decide⟩, ⟨by decide, by decide⟩, ?_, ?_⟩
  · intro hone
    exact absurd (hone 101 (by decide) 103 (by decide) rfl rfl) (by decide)
  · intro hone
    exact absurd (hone 103 (by decide) 101 (by decide) rfl rfl) (by decide)

end ContainerSim.Sched
