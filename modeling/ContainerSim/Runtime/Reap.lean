import ContainerSim.Runtime.Records

/-!
# How a container ends

Three functions wait for the process of a container and write down how it ended:
`sync_container_state`, `wait_for_container_process` and
`stop_container_process`. The first half compares what they store, the second is
about the grace period of the third.
-/

namespace ContainerSim.Runtime

open Lib Sched

/-! ## What the waits report -/

/-- The status of a process that has terminated, as the macros take it apart. -/
def WaitStatus.Real : WaitStatus → Prop
  | .exited code => code ≤ 255
  | .signaled sig => 1 ≤ sig ∧ sig ≤ 126

instance : DecidablePred WaitStatus.Real := fun status => by
  cases status with
  | exited code => unfold WaitStatus.Real; infer_instance
  | signaled sig => unfold WaitStatus.Real; infer_instance

/-- Only such statuses are reported. -/
def WaitRes.Real (r : WaitRes) : Prop := ∀ status, r = .reaped status → status.Real

/-- What the two phases of a stop learn of the process. -/
def StopOutcome.result (o : StopOutcome) (timeoutS : Int) : StopResult :=
  match termPhase o timeoutS with
  | some status => .reaped status
  | none =>
    if o.kill = .error then .failed
    else
      match o.finalWait with
      | .reaped status => .reaped status
      | .echild => .gone
      | _ => .failed

theorem stopSignals_result (o : StopOutcome) (timeoutS pid : Int) (w : World) :
    (stopSignals o timeoutS pid w).2 = o.result timeoutS := by
  rw [stopSignals, StopOutcome.result]
  cases termPhase o timeoutS with
  | some status => rfl
  | none =>
    simp only [killPhase]
    split
    · rfl
    · cases o.finalWait with
      | reaped status => rfl
      | echild => rfl
      | nothing => rfl
      | eintr => rfl
      | error => rfl

/-! ## What is stored -/

/-- The function gives the exit code this value, whatever it was before. -/
def Stores (f : Container → Container) (c : Container) (v : Int) : Prop :=
  ∀ old, (f { c with exitCode := old }).exitCode = v

/-- A function that writes this exit code, or none. -/
theorem stores_iff {f : Container → Container} {c : Container} {written : Option Int}
    (h : ∀ old, (f { c with exitCode := old }).exitCode = written.getD old) (v : Int) :
    Stores f c v ↔ written = some v := by
  constructor
  · intro hstores
    cases written with
    | none =>
      have hsame : v + 1 = v := (h (v + 1)).symm.trans (hstores (v + 1))
      omega
    | some u => exact congrArg some ((h 0).symm.trans (hstores 0))
  · intro hsome old
    rw [h old, hsome]
    rfl

theorem cleanupContainerNetwork_exitCode (c : Container) (w : World) :
    (cleanupContainerNetwork c w).1.exitCode = c.exitCode := by
  unfold cleanupContainerNetwork
  simp only
  split
  · rfl
  · rfl

/-- By `sync_container_state`, which does not know how a process ended that was
no child. -/
def SyncOutcome.written (o : SyncOutcome) : Option Int :=
  match o.wait with
  | .reaped status => some status.code
  | _ => none

/-- By `wait_for_container_process`, with `status = 0` for a process it takes for
gone. -/
def WaitOutcome.written (o : WaitOutcome) : Option Int :=
  match o.wait with
  | .reaped status => some status.code
  | .echild => if !o.errnoKept || o.alive then none else some 0
  | _ => none

/-- By `stop_container_process`. -/
def StopOutcome.written (o : StopOutcome) (timeoutS : Int) : Option Int :=
  match o.result timeoutS with
  | .failed => none
  | r => some r.code

section
variable {c : Container}

theorem stores_sync (hrun : c.state = .running) (hpid : 0 < c.pid) (o : SyncOutcome) (w : World)
    (v : Int) :
    Stores (fun c => (syncContainerState o c w).1) c v ↔ o.written = some v := by
  have hlive : ¬ ((c.state ≠ .running ∧ c.state ≠ .paused) ∨ c.pid ≤ 0) := by
    rintro (h | h)
    · exact h.1 hrun
    · omega
  have hpaused : ¬ c.state = .paused := by
    rw [hrun]
    exact ContainerState.noConfusion
  apply stores_iff
  intro old
  rw [syncContainerState, if_neg hlive, if_neg hpaused, SyncOutcome.written]
  cases o.wait with
  | reaped status => exact cleanupContainerNetwork_exitCode _ _
  | echild =>
    simp only
    split
    · rfl
    · exact cleanupContainerNetwork_exitCode _ _
  | nothing => rfl
  | eintr => rfl
  | error => rfl

theorem stores_wait (hrun : c.state = .running) (hpid : 0 < c.pid) (o : WaitOutcome) (w : World)
    (v : Int) :
    Stores (fun c => (waitForContainerProcess o c w).1) c v ↔ o.written = some v := by
  have hlive : ¬ (c.state ≠ .running ∨ c.pid ≤ 0) := by
    rintro (h | h)
    · exact h hrun
    · omega
  apply stores_iff
  intro old
  rw [waitForContainerProcess, if_neg hlive, WaitOutcome.written]
  cases o.wait with
  | reaped status => exact cleanupContainerNetwork_exitCode _ _
  | echild =>
    simp only
    split
    · rfl
    · exact cleanupContainerNetwork_exitCode _ _
  | nothing => rfl
  | eintr => rfl
  | error => rfl

theorem stores_stop (hlive : Live c) (hpid : 0 < c.pid) (o : StopOutcome) (timeoutS : Int)
    (w : World) (v : Int) :
    Stores (fun c => (stopContainerProcess o timeoutS c w).1) c v ↔
      o.written timeoutS = some v := by
  have hguard : ¬ ((c.state ≠ .running ∧ c.state ≠ .paused) ∨ c.pid ≤ 0) := by
    rintro (h | h)
    · exact hlive.elim h.1 h.2
    · omega
  apply stores_iff
  intro old
  rw [stopContainerProcess, if_neg hguard, StopOutcome.written]
  simp only
  rw [stopSignals_result]
  cases o.result timeoutS with
  | failed => rfl
  | gone => rfl
  | reaped status => rfl

end

/-! ## The three compared -/

/-- A wait of the stop, while it polls or after SIGKILL, reported this status. -/
def StopOutcome.Reports (o : StopOutcome) (timeoutS : Int) (status : WaitStatus) : Prop :=
  termPhase o timeoutS = some status ∨
    (termPhase o timeoutS = none ∧ o.kill ≠ .error ∧ o.finalWait = .reaped status)

/-- No poll of the stop reported an end, and the wait after SIGKILL found no
child. -/
def StopOutcome.Gone (o : StopOutcome) (timeoutS : Int) : Prop :=
  termPhase o timeoutS = none ∧ o.kill ≠ .error ∧ o.finalWait = .echild

theorem result_reaped_iff (o : StopOutcome) (timeoutS : Int) (status : WaitStatus) :
    o.result timeoutS = .reaped status ↔ o.Reports timeoutS status := by
  rw [StopOutcome.result, StopOutcome.Reports]
  cases termPhase o timeoutS with
  | some status' => simp
  | none =>
    by_cases hkill : o.kill = .error
    · simp [hkill]
    · cases o.finalWait <;> simp [hkill]

theorem result_gone_iff (o : StopOutcome) (timeoutS : Int) :
    o.result timeoutS = .gone ↔ o.Gone timeoutS := by
  rw [StopOutcome.result, StopOutcome.Gone]
  cases termPhase o timeoutS with
  | some status' => simp
  | none =>
    by_cases hkill : o.kill = .error
    · simp [hkill]
    · cases o.finalWait <;> simp [hkill]

/-- Who waits for a container. -/
inductive Reaper where
  | sync | wait | stop

/-- What the waits of each function come upon. -/
structure Waits where
  sync : SyncOutcome
  wait : WaitOutcome
  stop : StopOutcome
  timeoutS : Int

/-- The function has reaped the process with this status. -/
def Waits.Reaped (x : Waits) : Reaper → WaitStatus → Prop
  | .sync, status => x.sync.wait = .reaped status
  | .wait, status => x.wait.wait = .reaped status
  | .stop, status => x.stop.Reports x.timeoutS status

/-- The function on a record. -/
def Waits.run (x : Waits) (w : World) : Reaper → Container → Container
  | .sync, c => (syncContainerState x.sync c w).1
  | .wait, c => (waitForContainerProcess x.wait c w).1
  | .stop, c => (stopContainerProcess x.stop x.timeoutS c w).1

/-- The code it writes, if it writes one. -/
def Waits.written (x : Waits) : Reaper → Option Int
  | .sync => x.sync.written
  | .wait => x.wait.written
  | .stop => x.stop.written x.timeoutS

/-- Only statuses of terminated processes are reported. -/
structure Waits.Real (x : Waits) : Prop where
  sync : x.sync.wait.Real
  wait : x.wait.wait.Real

/-- A status that two of the three have reaped is stored as the same code, and 0
is stored only for a process that was reported to have exited with it. -/
structure OneExitCode (x : Waits) (c : Container) (w : World) : Prop where
  agree : ∀ r r' status, x.Reaped r status → x.Reaped r' status →
    ∃ v, Stores (x.run w r) c v ∧ Stores (x.run w r') c v
  zero : ∀ r, Stores (x.run w r) c 0 → x.Reaped r (.exited 0)

theorem code_eq_zero {status : WaitStatus} (h : status.Real) :
    status.code = 0 ↔ status = .exited 0 := by
  cases status with
  | exited code => simp [WaitStatus.code]
  | signaled sig =>
    have hpos : 1 ≤ sig := h.1
    simp only [WaitStatus.code, reduceCtorEq, iff_false]
    omega

/-- What `stop_container_process` makes of a status is what the others make of
it exactly for a process that was not killed. -/
theorem stop_code_iff (status : WaitStatus) :
    (StopResult.reaped status).code = status.code ↔ ∃ code, status = .exited code := by
  cases status with
  | exited code => simp [StopResult.code, WaitStatus.code]
  | signaled sig =>
    simp only [StopResult.code, WaitStatus.code, reduceCtorEq, exists_false, iff_false]
    omega

theorem SyncOutcome.written_zero {o : SyncOutcome} (h : o.wait.Real)
    (hzero : o.written = some 0) : o.wait = .reaped (.exited 0) := by
  rw [SyncOutcome.written] at hzero
  cases hres : o.wait with
  | reaped status =>
    rw [hres] at hzero
    rw [(code_eq_zero (h status hres)).mp (Option.some.inj hzero)]
  | _ =>
    rw [hres] at hzero
    cases hzero

/-- `waitpid` finds no child, which is still seen behind the terminal, and the
process is gone. -/
def WaitOutcome.Gone (o : WaitOutcome) : Prop :=
  o.wait = .echild ∧ o.errnoKept = true ∧ o.alive = false

theorem WaitOutcome.written_zero {o : WaitOutcome} (h : o.wait.Real) :
    (o.written = some 0 → o.wait = .reaped (.exited 0)) ↔ ¬ o.Gone := by
  rw [WaitOutcome.written, WaitOutcome.Gone]
  cases hwait : o.wait with
  | reaped status =>
    have hcode := code_eq_zero (h status hwait)
    simp [hcode]
  | echild => cases o.errnoKept <;> cases o.alive <;> simp
  | nothing => simp
  | eintr => simp
  | error => simp

theorem StopOutcome.written_zero (o : StopOutcome) (timeoutS : Int) :
    (o.written timeoutS = some 0 → o.Reports timeoutS (.exited 0)) ↔ ¬ o.Gone timeoutS := by
  rw [← result_reaped_iff, ← result_gone_iff, StopOutcome.written]
  cases o.result timeoutS with
  | failed => simp
  | gone => simp [StopResult.code]
  | reaped status =>
    cases status with
    | exited code => simp [StopResult.code]
    | signaled sig =>
      simp only [StopResult.code, Option.some.injEq, StopResult.reaped.injEq, reduceCtorEq, imp_false,
        not_false_eq_true, iff_true]
      omega

/-- What each of the three writes for a status it has reaped. -/
theorem Waits.written_reaped {x : Waits} {r : Reaper} {status : WaitStatus}
    (h : x.Reaped r status) :
    x.written r =
      some (match r with
        | .sync | .wait => status.code
        | .stop => (StopResult.reaped status).code) := by
  cases r with
  | sync =>
    have h : x.sync.wait = .reaped status := h
    rw [Waits.written, SyncOutcome.written, h]
  | wait =>
    have h : x.wait.wait = .reaped status := h
    rw [Waits.written, WaitOutcome.written, h]
  | stop => rw [Waits.written, StopOutcome.written, (result_reaped_iff x.stop x.timeoutS _).mpr h]

theorem Waits.stores {x : Waits} {c : Container} (hrun : c.state = .running) (hpid : 0 < c.pid)
    (w : World) (r : Reaper) (v : Int) : Stores (x.run w r) c v ↔ x.written r = some v := by
  cases r with
  | sync => exact stores_sync hrun hpid x.sync w v
  | wait => exact stores_wait hrun hpid x.wait w v
  | stop => exact stores_stop (.inl hrun) hpid x.stop x.timeoutS w v

/-- **The exit code does not depend on who reaps** exactly if no death by a
signal is reaped by a stop and also by another of the three, and neither
`wait_for_container_process` nor `stop_container_process` takes a process for
gone because it is no child. -/
theorem exit_code_iff {c : Container} (hrun : c.state = .running) (hpid : 0 < c.pid) (w : World)
    {x : Waits} (hx : x.Real) :
    OneExitCode x c w ↔
      (∀ sig, x.Reaped .stop (.signaled sig) →
        ¬ x.Reaped .sync (.signaled sig) ∧ ¬ x.Reaped .wait (.signaled sig)) ∧
      ¬ x.wait.Gone ∧ ¬ x.stop.Gone x.timeoutS := by
  have hstores := fun r v => Waits.stores (x := x) hrun hpid w r v
  constructor
  · intro h
    -- a stop stores a code of its own for a signal
    have hdiffer : ∀ r sig, r ≠ .stop → x.Reaped .stop (.signaled sig) →
        ¬ x.Reaped r (.signaled sig) := by
      intro r sig hr hstop hreaped
      obtain ⟨v, hv, hv'⟩ := h.agree .stop r _ hstop hreaped
      rw [hstores, Waits.written_reaped hstop] at hv
      rw [hstores, Waits.written_reaped hreaped] at hv'
      have hcode : (StopResult.reaped (.signaled sig)).code = (WaitStatus.signaled sig).code := by
        cases r with
        | sync => exact Option.some.inj (hv.trans hv'.symm)
        | wait => exact Option.some.inj (hv.trans hv'.symm)
        | stop => exact absurd rfl hr
      obtain ⟨code, hcode⟩ := (stop_code_iff _).mp hcode
      cases hcode
    refine ⟨fun sig hstop => ⟨hdiffer .sync sig nofun hstop, hdiffer .wait sig nofun hstop⟩, ?_, ?_⟩
    · refine (WaitOutcome.written_zero hx.wait).mp fun hzero => ?_
      exact h.zero .wait ((hstores .wait 0).mpr hzero)
    · refine (x.stop.written_zero x.timeoutS).mp fun hzero => ?_
      exact h.zero .stop ((hstores .stop 0).mpr hzero)
  · rintro ⟨hsignals, hwait, hstop⟩
    refine ⟨fun r r' status hr hr' => ?_, fun r hzero => ?_⟩
    · have hsame : x.written r = x.written r' := by
        rw [Waits.written_reaped hr, Waits.written_reaped hr']
        cases status with
        | exited code => cases r <;> cases r' <;> rfl
        | signaled sig =>
          cases r with
          | stop =>
            cases r' with
            | stop => rfl
            | sync => exact absurd hr' (hsignals sig hr).1
            | wait => exact absurd hr' (hsignals sig hr).2
          | sync =>
            cases r' with
            | stop => exact absurd hr (hsignals sig hr').1
            | sync => rfl
            | wait => rfl
          | wait =>
            cases r' with
            | stop => exact absurd hr (hsignals sig hr').2
            | sync => rfl
            | wait => rfl
      obtain ⟨v, hv⟩ : ∃ v, x.written r = some v := ⟨_, Waits.written_reaped hr⟩
      exact ⟨v, (hstores r v).mpr hv, (hstores r' v).mpr (hsame ▸ hv)⟩
    · rw [hstores] at hzero
      cases r with
      | sync => exact SyncOutcome.written_zero hx.sync hzero
      | wait => exact (WaitOutcome.written_zero hx.wait).mpr hwait hzero
      | stop => exact (x.stop.written_zero x.timeoutS).mpr hstop hzero

/-- A container with process 100. -/
def upRecord : Container :=
  { (newContainer .clean .zero 0 1).1 with state := .running, pid := 100 }

/-- Each of the three reaps the process with this status at its first call. -/
def allReap (status : WaitStatus) : Waits where
  sync := { wait := .reaped status, alive := false, now := 0, oom := 0, rssMb := 0 }
  wait :=
    { toContainer := .moved, wait := .reaped status, toShell := .moved, alive := false, now := 0
      save := true }
  stop := { StopOutcome.clean with graceWait := fun _ => .reaped status }
  timeoutS := 10

theorem real_allReap {status : WaitStatus} (h : status.Real) : (allReap status).Real := by
  refine ⟨?_, ?_⟩
  · intro status' heq
    cases heq
    exact h
  · intro status' heq
    cases heq
    exact h

theorem exit_code_three : OneExitCode (allReap (.exited 3)) upRecord World.init := by
  refine (exit_code_iff rfl (by decide) World.init (real_allReap (by decide))).mpr ⟨?_, ?_, ?_⟩
  · rintro sig (hstop | ⟨hnone, -⟩)
    · cases hstop
    · cases hnone
  · intro h
    cases h.1
  · intro h
    cases h.1

/-- A process that ends on the SIGTERM: -15 or 143. -/
theorem not_exit_code :
    ¬ ∀ (x : Waits) (c : Container) (w : World), c.state = .running → 0 < c.pid → x.Real →
      OneExitCode x c w := by
  intro hclaim
  obtain ⟨v, hsync, hstop⟩ := (hclaim (allReap (.signaled 15)) upRecord World.init rfl (by decide)
    (real_allReap (by decide))).agree .sync .stop (.signaled 15) rfl (.inl rfl)
  have hlow : v = -15 := (hsync 0).symm
  have hhigh : v = 143 := (hstop 0).symm
  omega

/-! ## The grace period -/

/-- The waits of 100 ms that the loop makes: `ticks` when it ends. -/
def graceTicks (wait : Nat → WaitRes) : Nat → Nat → Nat
  | _, 0 => 0
  | k, fuel + 1 =>
    match wait k with
    | .reaped _ => 0
    | .nothing | .eintr => graceTicks wait (k + 1) fuel + 1
    | .echild | .error => 0

/-- From poll `k` on, `n` polls find the process running. -/
def AliveFor (wait : Nat → WaitRes) (k n : Nat) : Prop :=
  ∀ i < n, wait (k + i) = .nothing ∨ wait (k + i) = .eintr

theorem AliveFor.cons {wait : Nat → WaitRes} {k n : Nat} (hk : wait k = .nothing ∨ wait k = .eintr)
    (h : AliveFor wait (k + 1) n) : AliveFor wait k (n + 1) := by
  intro i hi
  cases i with
  | zero => exact hk
  | succ i =>
    have hnext := h i (by omega)
    rwa [Nat.add_right_comm] at hnext

/-- The loop runs out, or the first poll that does not find the process running
ends it. -/
inductive Grace (wait : Nat → WaitRes) (k n : Nat) : Prop where
  | out (alive : AliveFor wait k n) (result : graceLoop wait k n = none)
      (ticks : graceTicks wait k n = n)
  | reaped (j : Nat) (status : WaitStatus) (before : j < n) (alive : AliveFor wait k j)
      (poll : wait (k + j) = .reaped status) (result : graceLoop wait k n = some status)
  | failed (j : Nat) (before : j < n) (alive : AliveFor wait k j)
      (poll : wait (k + j) = .echild ∨ wait (k + j) = .error)
      (result : graceLoop wait k n = none) (ticks : graceTicks wait k n = j)

theorem AliveFor.zero (wait : Nat → WaitRes) (k : Nat) : AliveFor wait k 0 :=
  fun _ hi => absurd hi (Nat.not_lt_zero _)

/-- A poll that finds the process running, and the rest of the loop. -/
theorem Grace.cons {wait : Nat → WaitRes} {k n : Nat} (hk : wait k = .nothing ∨ wait k = .eintr)
    (h : Grace wait (k + 1) n) : Grace wait k (n + 1) := by
  have hloop : graceLoop wait k (n + 1) = graceLoop wait (k + 1) n := by
    rw [graceLoop]
    rcases hk with hk | hk
    · rw [hk]
    · rw [hk]
  have hticks : graceTicks wait k (n + 1) = graceTicks wait (k + 1) n + 1 := by
    rw [graceTicks]
    rcases hk with hk | hk
    · rw [hk]
    · rw [hk]
  cases h with
  | out alive result ticks =>
    exact .out (alive.cons hk) (hloop.trans result) (by rw [hticks, ticks])
  | reaped j status before alive poll result =>
    rw [Nat.add_right_comm] at poll
    exact .reaped (j + 1) status (by omega) (alive.cons hk) poll (hloop.trans result)
  | failed j before alive poll result ticks =>
    rw [Nat.add_right_comm] at poll
    exact .failed (j + 1) (by omega) (alive.cons hk) poll (hloop.trans result)
      (by rw [hticks, ticks])

theorem grace (wait : Nat → WaitRes) (k n : Nat) : Grace wait k n := by
  induction n generalizing k with
  | zero => exact .out (.zero wait k) rfl rfl
  | succ n ih =>
    cases hk : wait k with
    | nothing => exact (ih (k + 1)).cons (.inl hk)
    | eintr => exact (ih (k + 1)).cons (.inr hk)
    | reaped status =>
      refine .reaped 0 status n.succ_pos (.zero wait k) hk ?_
      rw [graceLoop, hk]
    | echild =>
      refine .failed 0 n.succ_pos (.zero wait k) (.inl hk) ?_ ?_
      · rw [graceLoop, hk]
      · rw [graceTicks, hk]
    | error =>
      refine .failed 0 n.succ_pos (.zero wait k) (.inr hk) ?_ ?_
      · rw [graceLoop, hk]
      · rw [graceTicks, hk]

/-- The process of a SIGKILL. -/
def killOf : Effect → Option Int
  | .signal pid .kill => some pid
  | _ => none

def kills (trace : List Effect) : List Int := trace.filterMap killOf

theorem kills_emit (w : World) (e : Effect) :
    kills (w.emit e).trace = kills w.trace ++ (killOf e).toList := by
  rw [kills, kills, World.emit, List.filterMap_append]
  cases h : killOf e <;> simp [h]

theorem kills_cleanupContainerNetwork (c : Container) (w : World) :
    kills (cleanupContainerNetwork c w).2.trace = kills w.trace := by
  refine (cleanupContainerNetwork_appends c w).filterMap_eq fun e he => ?_
  cases e with
  | signal pid sig => exact absurd he id
  | _ => rfl

/-- SIGKILL is sent once the first phase has reaped nothing. -/
theorem kills_stopSignals (o : StopOutcome) (timeoutS pid : Int) (w : World) :
    kills (stopSignals o timeoutS pid w).1.trace =
      kills w.trace ++ if termPhase o timeoutS = none ∧ o.kill = .ok then [pid] else [] := by
  have hterm : kills (if o.term then w.emit (.signal pid .term) else w).trace = kills w.trace := by
    split
    · exact (kills_emit w _).trans (List.append_nil _)
    · rfl
  rw [← hterm, stopSignals]
  generalize (if o.term then w.emit (.signal pid .term) else w) = w₁
  cases termPhase o timeoutS with
  | some status => exact kills_emit w₁ _
  | none =>
    have hkill : kills (if o.kill = .ok then w₁.emit (.signal pid .kill) else w₁).trace =
        kills w₁.trace ++ if o.kill = .ok then [pid] else [] := by
      split
      · exact kills_emit w₁ _
      · exact (List.append_nil _).symm
    simp only [killPhase, true_and]
    rw [← hkill]
    generalize (if o.kill = .ok then w₁.emit (.signal pid .kill) else w₁) = w₂
    split
    · rfl
    · cases o.finalWait with
      | reaped status => exact (kills_emit w₂ _).trans (List.append_nil _)
      | echild => exact (kills_emit w₂ _).trans (List.append_nil _)
      | nothing => rfl
      | eintr => rfl
      | error => rfl

theorem kills_stopContainerProcess {c : Container} (hlive : Live c) (hpid : 0 < c.pid)
    (o : StopOutcome) (timeoutS : Int) (w : World) :
    kills (stopContainerProcess o timeoutS c w).2.1.trace =
      kills w.trace ++ if termPhase o timeoutS = none ∧ o.kill = .ok then [c.pid] else [] := by
  have hguard : ¬ ((c.state ≠ .running ∧ c.state ≠ .paused) ∨ c.pid ≤ 0) := by
    rintro (h | h)
    · exact hlive.elim h.1 h.2
    · omega
  have hcont : kills (if c.state = .paused ∧ o.cont then
      w.emit (.signal c.pid .cont) else w).trace = kills w.trace := by
    split
    · exact (kills_emit w _).trans (List.append_nil _)
    · rfl
  rw [stopContainerProcess, if_neg hguard, ← hcont]
  simp only
  generalize (if c.state = .paused ∧ o.cont then w.emit (.signal c.pid .cont) else w) = w₁
  rw [← kills_stopSignals]
  generalize stopSignals o timeoutS c.pid w₁ = r
  split
  · rfl
  · rw [kills_emit, kills_emit, kills_cleanupContainerNetwork, trace_schedRemove]
    exact (List.append_nil _).trans (List.append_nil _)

/-- SIGKILL goes to a process that SIGTERM did not reach, or that each poll of
the whole grace period has found running. -/
def KillsLate (o : StopOutcome) (timeoutS : Int) (c : Container) (w : World) : Prop :=
  kills (stopContainerProcess o timeoutS c w).2.1.trace ≠ kills w.trace →
    o.term = false ∨
      (graceTicks o.graceWait 0 (toInt32 (timeoutS * 10)).toNat : Int) = timeoutS * 10

/-- The polls that the product grants are as many as it says, or fewer. -/
theorem grantedPolls {x : Int} (hpos : 0 < x) :
    ((toInt32 x).toNat : Int) ≤ x ∧ (((toInt32 x).toNat : Int) = x ↔ x < 2 ^ 31) := by
  have hlt : toInt32 x < 2 ^ 31 := Int.bmod_lt (by decide)
  by_cases hfits : x < 2 ^ 31
  · have hself : toInt32 x = x := toInt32_of_fits (by omega) hfits
    rw [hself]
    omega
  · omega

/-- A poll that ends the loop is the first that does not find the process
running. -/
theorem AliveFor.le {wait : Nat → WaitRes} {j n : Nat} (halive : AliveFor wait 0 n)
    (hj : ¬ (wait j = .nothing ∨ wait j = .eintr)) : n ≤ j := by
  by_contra hlt
  have hrunning := halive j (by omega)
  rw [Nat.zero_add] at hrunning
  exact hj hrunning

/-- A loop of `n` polls that reaps nothing takes the time `total`, if it reaps
something after all or `n` is that time and each poll finds the process running. -/
theorem graceTicks_iff (wait : Nat → WaitRes) {n : Nat} {total : Int} (hle : (n : Int) ≤ total) :
    (graceLoop wait 0 n = none → (graceTicks wait 0 n : Int) = total) ↔
      (∃ j status, j < n ∧ AliveFor wait 0 j ∧ wait j = .reaped status) ∨
        ((n : Int) = total ∧ AliveFor wait 0 total.toNat) := by
  -- the loop runs out, reaps at some poll, or fails at one
  cases grace wait 0 n with
  | out alive result ticks =>
    rw [ticks]
    constructor
    · intro h
      have hn := h result
      refine .inr ⟨hn, ?_⟩
      rw [← hn]
      exact alive
    · rintro (⟨j, status, hj, -, hpoll⟩ | ⟨hn, -⟩) _
      · have hnj := alive.le (j := j) (by simp [hpoll])
        omega
      · exact hn
  | reaped j status before alive poll result =>
    rw [Nat.zero_add] at poll
    rw [result]
    constructor
    · intro _
      exact .inl ⟨j, status, before, alive, poll⟩
    · intro _ h
      cases h
  | failed j before alive poll result ticks =>
    rw [Nat.zero_add] at poll
    have hfirst : ¬ (wait j = .nothing ∨ wait j = .eintr) := by
      rcases poll with h | h
      · simp [h]
      · simp [h]
    rw [ticks]
    constructor
    · intro h
      have htotal := h result
      omega
    · rintro (⟨i, status, hi, halive, hpoll⟩ | ⟨hn, halive⟩)
      · -- the loop would have ended at that poll already
        have hij := halive.le hfirst
        have hji := alive.le (j := i) (by simp [hpoll])
        have heq : i = j := by omega
        rw [heq] at hpoll
        rw [hpoll] at poll
        simp at poll
      · have hnj := halive.le hfirst
        omega

/-- **SIGKILL only after the grace period** exactly if one of the signals does
not get through, the process is reaped within the polls that `timeout * 10`
comes to as an `int`, or that product fits and no wait of the loop fails. -/
theorem kills_late_iff {c : Container} (hlive : Live c) (hpid : 0 < c.pid) (o : StopOutcome)
    {timeoutS : Int} (hpos : 0 < timeoutS) (w : World) :
    KillsLate o timeoutS c w ↔
      o.term = false ∨ o.kill ≠ .ok ∨
      (∃ j status, j < (toInt32 (timeoutS * 10)).toNat ∧ AliveFor o.graceWait 0 j ∧
        o.graceWait j = .reaped status) ∨
      (timeoutS * 10 < 2 ^ 31 ∧ AliveFor o.graceWait 0 (timeoutS * 10).toNat) := by
  have heffective : (if timeoutS > 0 then timeoutS else 10) = timeoutS := if_pos hpos
  rw [KillsLate, kills_stopContainerProcess hlive hpid, termPhase, heffective]
  obtain ⟨hle, hfits⟩ := grantedPolls (x := timeoutS * 10) (by omega)
  generalize (toInt32 (timeoutS * 10)).toNat = n at hle hfits ⊢
  cases hterm : o.term with
  | false => simp
  | true =>
    by_cases hkill : o.kill = .ok
    · -- SIGKILL is sent if the loop reaps nothing
      have hsent : ∀ result : Option WaitStatus,
          (kills w.trace ++ if result = none ∧ o.kill = .ok then [c.pid] else []) ≠
            kills w.trace ↔ result = none := by
        intro result
        cases result <;> simp [hkill]
      have hticks := graceTicks_iff o.graceWait hle
      rw [if_pos rfl, hsent, ← hfits]
      simp only [reduceCtorEq, false_or, hkill, ne_eq, not_true_eq_false]
      exact hticks
    · simp [hkill]

/-- A child that ignores SIGTERM. -/
def stubborn : StopOutcome := { StopOutcome.clean with graceWait := fun _ => .nothing }

theorem kills_late_stubborn : KillsLate stubborn 3 upRecord World.init :=
  (kills_late_iff (.inl rfl) (by decide) stubborn (by decide) World.init).mpr
    (.inr (.inr (.inr ⟨by decide, fun _ _ => .inl rfl⟩)))

/-- A process restored from the metadata is no child: the first poll fails. -/
def restoredProcess : StopOutcome :=
  { StopOutcome.clean with graceWait := fun _ => .echild, finalWait := .echild }

theorem not_kills_late :
    ¬ ∀ (o : StopOutcome) (timeoutS : Int) (c : Container) (w : World), Live c → 0 < c.pid →
      0 < timeoutS → timeoutS < 2 ^ 31 → KillsLate o timeoutS c w := by
  intro hclaim
  have hsent : kills (stopContainerProcess restoredProcess 10 upRecord World.init).2.1.trace ≠
      kills World.init.trace := by decide +kernel
  rcases hclaim restoredProcess 10 upRecord World.init (.inl rfl) (by decide) (by decide)
    (by decide) hsent with hterm | hticks
  · cases hterm
  · exact absurd hticks (by decide +kernel)

end ContainerSim.Runtime
