import ContainerSim.Orch.HealthResults

/-!
# The pause before a restart

`monitor_thread` computes `1 << restart_count` on an `int`, caps it at 30 and
converts it to the `unsigned` argument of `sleep`. The count grows with every
restart, so the shift comes round to the sign bit and then starts again at 1.
-/

namespace ContainerSim.Orch

open Lib ContainerSim.Runtime

/-! ## The number -/

/-- `(unsigned)` of an `int`. -/
def sleepSeconds (backoffS : Int) : Int := backoffS % 2 ^ 32

theorem shlOne_eq (n : Nat) :
    shlOne n = if n % 32 = 31 then -2 ^ 31 else 2 ^ (n % 32) := by
  have hmod : ((n : Int) % 32).toNat = n % 32 := by omega
  have hlt : n % 32 < 32 := Nat.mod_lt n (by decide)
  rw [shlOne, hmod]
  generalize n % 32 = k at hlt
  split
  · rename_i hk
    rw [hk, toInt32_of_carry (by decide) (by decide)]
    decide
  · rename_i hk
    have hpow : (2 : Int) ^ k < 2 ^ 31 := by
      have hnat : 2 ^ k < 2 ^ 31 := Nat.pow_lt_pow_right (by decide) (by omega)
      exact_mod_cast hnat
    have hpos : (0 : Int) < 2 ^ k := Int.pow_pos (by decide)
    exact toInt32_of_fits (by omega) hpow

theorem backoffOf_le (n : Int) : backoffOf n ≤ 30 := by
  rw [backoffOf]
  split
  · exact Int.le_refl _
  · omega

theorem backoffOf_eq {n : Nat} (h : n % 32 ≠ 31) : backoffOf n = min (2 ^ (n % 32)) 30 := by
  rw [backoffOf, shlOne_eq, if_neg h]
  omega

theorem backoffOf_signBit {n : Nat} (h : n % 32 = 31) : backoffOf n = -2 ^ 31 := by
  rw [backoffOf, shlOne_eq, if_pos h]
  decide

/-- From five restarts on the cap has been reached. -/
theorem pow_cap {k : Nat} : (30 : Int) ≤ 2 ^ k ↔ 5 ≤ k := by
  constructor
  · intro hle
    by_contra hlt
    have hpow : 2 ^ k ≤ 2 ^ 4 := Nat.pow_le_pow_right (by decide) (by omega)
    have hcast : (2 : Int) ^ k ≤ 2 ^ 4 := by exact_mod_cast hpow
    omega
  · intro hle
    have hpow : 2 ^ 5 ≤ 2 ^ k := Nat.pow_le_pow_right (by decide) hle
    have hcast : (2 : Int) ^ 5 ≤ 2 ^ k := by exact_mod_cast hpow
    omega

/-- What the pause after `n` restarts should be. -/
structure BackoffRight (n : Nat) (backoffS : Int) : Prop where
  low : 1 ≤ backoffS
  high : backoffS ≤ 30
  exact : backoffS = min (2 ^ n) 30
  monotone : ∀ k ≤ n, backoffOf (k : Nat) ≤ backoffS
  slept : sleepSeconds backoffS = backoffS

theorem backoffRight_iff (n : Nat) :
    BackoffRight n (backoffOf n) ↔ n ≤ 30 ∨ (5 ≤ n % 32 ∧ n % 32 ≤ 30) := by
  constructor
  · intro h
    by_cases hsmall : n ≤ 30
    · exact .inl hsmall
    · have hcap : (30 : Int) ≤ 2 ^ n := pow_cap.mpr (by omega)
      have hthirty : backoffOf n = 30 := h.exact.trans (min_eq_right hcap)
      -- the shift takes the count modulo 32, and 31 gives a negative number
      have hsign : n % 32 ≠ 31 := by
        intro hk
        have hlow := h.low
        rw [backoffOf_signBit hk] at hlow
        omega
      rw [backoffOf_eq hsign] at hthirty
      have hfive : 5 ≤ n % 32 := pow_cap.mp (by omega)
      omega
  · intro h
    have hsign : n % 32 ≠ 31 := by omega
    have hpos : (1 : Int) ≤ 2 ^ (n % 32) := Int.pow_pos (by decide)
    have hvalue := backoffOf_eq hsign
    have hlow : 1 ≤ backoffOf n := by omega
    refine ⟨hlow, backoffOf_le n, ?_, fun k hk => ?_, ?_⟩
    · rcases h with hsmall | ⟨hfive, -⟩
      · rw [hvalue, Nat.mod_eq_of_lt (by omega)]
      · have hcap : (30 : Int) ≤ 2 ^ (n % 32) := pow_cap.mpr hfive
        have hcap' : (30 : Int) ≤ 2 ^ n := pow_cap.mpr (hfive.trans (Nat.mod_le n 32))
        rw [hvalue, min_eq_right hcap, min_eq_right hcap']
    · rcases h with hsmall | ⟨hfive, -⟩
      · -- up to here no count has come round
        have hpow : 2 ^ k ≤ 2 ^ n := Nat.pow_le_pow_right (by decide) hk
        have hcast : (2 : Int) ^ k ≤ 2 ^ n := by exact_mod_cast hpow
        have hk' : k % 32 = k := Nat.mod_eq_of_lt (by omega)
        have hn' : n % 32 = n := Nat.mod_eq_of_lt (by omega)
        rw [backoffOf_eq (by omega), hvalue, hk', hn']
        omega
      · have hcap : (30 : Int) ≤ 2 ^ (n % 32) := pow_cap.mpr hfive
        rw [hvalue, min_eq_right hcap]
        exact backoffOf_le k
    · have hhigh := backoffOf_le n
      rw [sleepSeconds]
      omega

/-! ## Where it comes from -/

/-- In the run there is a collection pass that decides on this item, at a
service that has been restarted `n` times. -/
def DecidedWith (m : Manager) (as : List Action) (w : WorkItem) (n : Int) : Prop :=
  ∃ (as₁ as₂ : List Action) (s : Sys) (now : Int) (work : List WorkItem) (cst : ContainerState)
    (ec : Int), as = as₁ ++ as₂ ∧ Runs sysStep (Sys.init m) as₁ s ∧
    s.mon = .collect now w.svc work ∧ (s.svc w.svc).restartCount = n ∧
    w ∈ (collectSvc now w.svc (s.svc w.svc) cst ec).2

theorem DecidedWith.snoc {m : Manager} {as : List Action} {w : WorkItem} {n : Int}
    (h : DecidedWith m as w n) (a : Action) : DecidedWith m (as ++ [a]) w n := by
  obtain ⟨as₁, as₂, s, now, work, cst, ec, rfl, hrest⟩ := h
  exact ⟨as₁, as₂ ++ [a], s, now, work, cst, ec, List.append_assoc _ _ _, hrest⟩

/-- An item after a step of the monitor was there before, or the pass has just
decided on it. -/
theorem monStep_work {o : Answers} {s s' : Sys} (hs : monStep o s = some s') {w : WorkItem}
    (hw : w ∈ s'.mon.work) :
    w ∈ s.mon.work ∨ ∃ now work cst ec, s.mon = .collect now w.svc work ∧
      w ∈ (collectSvc now w.svc (s.svc w.svc) cst ec).2 := by
  cases monStep_move hs with
  | goOn _ _ hwork _ => exact .inl (hwork.subset hw)
  | skip hmon =>
    rw [hmon]
    exact .inl hw
  | @seen now i work cst ec hmon =>
    rcases List.mem_append.mp hw with hw | hw
    · rw [hmon]
      exact .inl hw
    · obtain rfl := collectSvc_svc now i (s.svc i) cst ec w hw
      exact .inr ⟨now, work, cst, ec, hmon, hw⟩
  | health hmon =>
    rw [hmon]
    exact .inl (List.mem_cons_of_mem _ hw)
  | delete hmon | takeBack hmon | giveUp hmon | undoStop hmon | undoDelete hmon | commit hmon
  | failed hmon =>
    rw [hmon]
    exact .inl hw
  | launch hmon =>
    rw [hmon]
    exact .inl (List.mem_cons_of_mem _ hw)

theorem sysStep_work {s s' : Sys} {a : Action} (hs : sysStep s a = some s') {w : WorkItem}
    (hw : w ∈ s'.mon.work) :
    w ∈ s.mon.work ∨ ∃ now work cst ec, s.mon = .collect now w.svc work ∧
      w ∈ (collectSvc now w.svc (s.svc w.svc) cst ec).2 := by
  cases sysStep_move hs with
  | refused => exact .inl hw
  | run => exact .inl hw
  | restart => exact .inl hw
  | down => exact .inl hw
  | cli hs' => exact .inl (cliStep_work hs' hw)
  | mon hs' => exact monStep_work hs' hw
  | user => exact .inl hw

/-- Every item of the monitor has been decided on in the run. -/
theorem work_decided {m : Manager} {as : List Action} {s : Sys}
    (hrun : Runs sysStep (Sys.init m) as s) :
    ∀ w ∈ s.mon.work, ∃ n : Nat, DecidedWith m as w n := by
  induction hrun with
  | nil => exact fun w hw => absurd hw List.not_mem_nil
  | @snoc s' _ as a hrun hok hs ih =>
    intro w hw
    rcases sysStep_work hs hw with hw | ⟨now, work, cst, ec, hmon, hw⟩
    · obtain ⟨n, hn⟩ := ih w hw
      exact ⟨n, hn.snoc a⟩
    · have hcount := (limited_of_runs hrun).2.counts w.svc
      refine ⟨(s'.svc w.svc).restartCount.toNat, as, [a], s', now, work, cst, ec, rfl, hrun, hmon,
        ?_, hw⟩
      omega

/-- The item carries the number that the count gives. -/
theorem DecidedWith.backoff {m : Manager} {as : List Action} {job : Job} {cid : Bytes}
    {backoffS ec n : Int} (h : DecidedWith m as (.restart job cid backoffS ec) n) :
    backoffS = backoffOf n := by
  obtain ⟨-, -, s, now, -, cst, ec', -, -, -, hcount, hmem⟩ := h
  have hmove := collectSvc_move now job.svc (s.svc job.svc) cst ec'
  change WorkItem.restart job cid backoffS ec ∈
    (collectSvc now job.svc (s.svc job.svc) cst ec').2 at hmem
  change (s.svc job.svc).restartCount = n at hcount
  generalize collectSvc now job.svc (s.svc job.svc) cst ec' = r at hmove hmem
  cases hmove with
  | restart =>
    have heq := List.mem_singleton.mp hmem
    rw [WorkItem.restart.injEq] at heq
    rw [heq.2.2.1, hcount]
  | check =>
    exact WorkItem.noConfusion (List.mem_singleton.mp hmem)
  | ended | up | nothing => exact absurd hmem List.not_mem_nil

/-- **The pause before an automatic restart is right** exactly if the count at
which it was decided is at most 30, or its last five bits give 5 to 30. -/
theorem backoff_iff {m : Manager} {as : List Action} {s : Sys}
    (hrun : Runs sysStep (Sys.init m) as s) {job : Job} {cid : Bytes} {backoffS ec : Int}
    {rest : List WorkItem} (hmon : s.mon = .backoff job cid backoffS ec rest) :
    (∃ n : Nat, DecidedWith m as (.restart job cid backoffS ec) n) ∧
    ∀ n : Nat, DecidedWith m as (.restart job cid backoffS ec) n →
      (BackoffRight n backoffS ↔ n ≤ 30 ∨ (5 ≤ n % 32 ∧ n % 32 ≤ 30)) := by
  refine ⟨work_decided hrun _ ?_, fun n hn => ?_⟩
  · rw [hmon]
    exact List.mem_cons_self
  · rw [hn.backoff]
    exact backoffRight_iff n

/-- `n` restarts of `web` by hand. -/
def manualRestarts (n : Nat) : List Action :=
  (List.range n).flatMap fun k => .restart (bytes "web") :: cliSteps (.ofNat (200 + 10 * k)) 4

/-- Then the monitor finds its container exited with code 7 and goes to sleep
before the restart. -/
def crashAfter (n : Nat) : List Action :=
  webUp ++ manualRestarts n ++ (monSteps (.ofNat 1) 1 ++ monSees (n + 1) 7 :: monSteps (.ofNat 1) 3)

/-- What the monitor is about to sleep. -/
def MonPc.pause : MonPc → Option Int
  | .backoff _ _ backoffS _ _ => some backoffS
  | _ => none

theorem exists_pause {mon : MonPc} {backoffS : Int} (h : mon.pause = some backoffS) :
    ∃ job cid ec rest, mon = .backoff job cid backoffS ec rest := by
  cases mon with
  | backoff job cid b ec rest =>
    cases h
    exact ⟨job, cid, ec, rest, rfl⟩
  | _ => cases h

theorem backoff_first :
    ∃ s job cid ec rest, Runs sysStep (Sys.init .init) (crashAfter 3) s ∧
      s.mon = .backoff job cid 8 ec rest ∧
      ∃ n : Nat, DecidedWith .init (crashAfter 3) (.restart job cid 8 ec) n ∧
        (BackoffRight n 8 ↔ n ≤ 30 ∨ (5 ≤ n % 32 ∧ n % 32 ≤ 30)) := by
  obtain ⟨s, hrun, hpause⟩ := exists_runOk_of_exec sysStep (fun _ _ => True) (Sys.init .init)
    (crashAfter 3) (fun s => s.mon.pause = some 8) (by decide +kernel)
  obtain ⟨job, cid, ec, rest, hmon⟩ := exists_pause hpause
  obtain ⟨⟨n, hn⟩, hright⟩ := backoff_iff hrun hmon
  exact ⟨s, job, cid, ec, rest, hrun, hmon, n, hn, hright n hn⟩

/-- After 31 restarts by hand the pause is `1 << 31`, which is negative. -/
theorem not_backoff :
    ¬ ∀ (m : Manager) (as : List Action) (s : Sys) (job : Job) (cid : Bytes) (backoffS ec : Int)
      (rest : List WorkItem), Runs sysStep (Sys.init m) as s →
      s.mon = .backoff job cid backoffS ec rest →
      ∃ n : Nat, DecidedWith m as (.restart job cid backoffS ec) n ∧ BackoffRight n backoffS := by
  intro hclaim
  obtain ⟨s, hrun, hpause⟩ := exists_runOk_of_exec sysStep (fun _ _ => True) (Sys.init .init)
    (crashAfter 31) (fun s => s.mon.pause = some (-2147483648)) (by decide +kernel)
  obtain ⟨job, cid, ec, rest, hmon⟩ := exists_pause hpause
  obtain ⟨n, -, hright⟩ := hclaim _ _ s job cid _ ec rest hrun hmon
  have hlow := hright.low
  omega

end ContainerSim.Orch
