import ContainerSim.Orch.ParseSpec
import ContainerSim.Orch.RestartPolicy
import ContainerSim.Orch.Writes

/-!
# What the failure counter counts

`health_fail_count` against the writes to the service: it is the number of
failed checks since the last successful check or (re)start, and it separates
UNHEALTHY from RUNNING and HEALTHY at `retries`.
-/

namespace ContainerSim.Orch

open Lib ContainerSim.Runtime

/-! ## Counting in the history -/

/-- A successful check, or a start or restart that is complete. -/
def Write.resets : Write → Bool
  | .started .. => true
  | .restarted .. => true
  | .health hc => hc = 0
  | _ => false

def Write.failsCheck : Write → Bool
  | .health hc => hc ≠ 0
  | _ => false

/-- Failed checks since the last write that resets. -/
def failedChecks (ws : List Write) : Nat :=
  (ws.reverse.takeWhile fun w => !w.resets).countP Write.failsCheck

theorem failedChecks_snoc (ws : List Write) (w : Write) :
    failedChecks (ws ++ [w]) =
      if w.resets then 0 else failedChecks ws + if w.failsCheck then 1 else 0 := by
  unfold failedChecks
  rw [List.reverse_append, List.reverse_singleton, List.singleton_append, List.takeWhile_cons]
  cases w.resets with
  | true => rfl
  | false => simp [List.countP_cons]

/-! ## One service -/

structure Counted (svc : Service) (ws : List Write) : Prop where
  count : svc.healthFailCount = failedChecks ws
  unhealthy : svc.health.enabled = true → svc.state = .unhealthy →
    svc.health.retries ≤ svc.healthFailCount
  up : svc.health.enabled = true → svc.state = .running ∨ svc.state = .healthy →
    svc.healthFailCount < svc.health.retries
  retries : svc.health.enabled = true → 1 ≤ svc.health.retries

/-- A write that does not touch the counter and does not make a service
RUNNING, HEALTHY or UNHEALTHY. -/
theorem Counted.keep {svc svc' : Service} {ws : List Write} (h : Counted svc ws) {w : Write}
    (hresets : w.resets = false) (hfails : w.failsCheck = false)
    (hcount : svc'.healthFailCount = svc.healthFailCount) (hhealth : svc'.health = svc.health)
    (hstate : svc.health.enabled = true → svc'.state = svc.state ∨ (svc'.state ≠ .unhealthy ∧
      svc'.state ≠ .running ∧ svc'.state ≠ .healthy)) : Counted svc' (ws ++ [w]) := by
  constructor
  · rw [hcount, failedChecks_snoc, hresets, hfails]
    exact h.count
  · rw [hhealth, hcount]
    intro hen hun
    rcases hstate hen with hst | ⟨hne, -, -⟩
    · exact h.unhealthy hen (hst ▸ hun)
    · exact absurd hun hne
  · rw [hhealth, hcount]
    intro hen hup
    rcases hstate hen with hst | ⟨-, hrun, hok⟩
    · exact h.up hen (hst ▸ hup)
    · exact absurd hup (not_or.mpr ⟨hrun, hok⟩)
  · rw [hhealth]
    exact h.retries

/-- A write that sets the counter to 0 and the state to something else than
UNHEALTHY. -/
theorem Counted.reset {svc svc' : Service} {ws : List Write} (h : Counted svc ws) {w : Write}
    (hresets : w.resets = true) (hcount : svc'.healthFailCount = 0)
    (hhealth : svc'.health = svc.health) (hstate : svc'.state ≠ .unhealthy) :
    Counted svc' (ws ++ [w]) := by
  constructor
  · rw [hcount, failedChecks_snoc, if_pos hresets]
    rfl
  · exact fun _ hun => absurd hun hstate
  · intro hen _
    rw [hhealth] at hen ⊢
    have := h.retries hen
    omega
  · rw [hhealth]
    exact h.retries

/-- With a health check configured the pass leaves the state alone or notices
an exit. -/
theorem collectSvc_enabled (now : Int) (i : Nat) {svc : Service} (cst : ContainerState) (ec : Int)
    (hen : svc.health.enabled = true) :
    (collectSvc now i svc cst ec).1.state = svc.state ∨
    ((collectSvc now i svc cst ec).1.state ≠ .unhealthy ∧
      (collectSvc now i svc cst ec).1.state ≠ .running ∧
      (collectSvc now i svc cst ec).1.state ≠ .healthy) := by
  have hmove := collectSvc_move now i svc cst ec
  generalize collectSvc now i svc cst ec = r at hmove ⊢
  cases hmove with
  | restart => exact .inr (by simp)
  | ended hstate =>
    simp only [Ready, not_or] at hstate
    exact .inr ⟨hstate.2.2, hstate.1, hstate.2.1⟩
  | check => exact .inl rfl
  | up _ hoff =>
    rw [hen] at hoff
    cases hoff
  | nothing => exact .inl rfl

theorem collectSvc_health (now : Int) (i : Nat) (svc : Service) (cst : ContainerState) (ec : Int) :
    (collectSvc now i svc cst ec).1.healthFailCount = svc.healthFailCount ∧
    (collectSvc now i svc cst ec).1.health = svc.health := by
  obtain ⟨state, lastHealthCheck, heq⟩ := collectSvc_kept now i svc cst ec
  rw [heq]
  exact ⟨rfl, rfl⟩

theorem Counted.health {svc : Service} {ws : List Write} (h : Counted svc ws) (hc : Int) :
    Counted (applyHealth hc svc) (ws ++ [.health hc]) := by
  unfold applyHealth
  by_cases hz : hc = 0
  · rw [if_pos hz]
    exact h.reset (by simp [Write.resets, hz]) rfl rfl nofun
  · rw [if_neg hz]
    have hresets : (Write.health hc).resets = false := by simp [Write.resets, hz]
    have hfails : (Write.health hc).failsCheck = true := by simp [Write.failsCheck, hz]
    have hcount : svc.healthFailCount + 1 = (failedChecks (ws ++ [.health hc]) : Nat) := by
      rw [failedChecks_snoc, hresets, hfails, h.count]
      simp
    by_cases hge : svc.healthFailCount + 1 ≥ svc.health.retries
    · -- the last failure allowed
      simp only [if_pos hge]
      exact ⟨hcount, fun _ _ => hge, fun _ hup => absurd hup (by simp), h.retries⟩
    · simp only [if_neg hge]
      refine ⟨hcount, fun hen hun => ?_, fun _ _ => Int.not_le.mp hge, h.retries⟩
      have hlast := h.unhealthy hen hun
      show svc.health.retries ≤ svc.healthFailCount + 1
      omega

/-- Each of the eight writes. -/
theorem Counted.write {svc : Service} {ws : List Write} (h : Counted svc ws) (w : Write)
    (hstarted : ∀ new now, w = .started new now → svc.healthFailCount = 0) :
    Counted (w.apply svc) (ws ++ [w]) := by
  cases w with
  | starting => exact h.keep rfl rfl rfl rfl fun _ => .inr (by simp [Write.apply, startingSvc])
  | started new now =>
    exact h.reset rfl (hstarted new now rfl) rfl (by simp [Write.apply, startedSvc])
  | failed => exact h.keep rfl rfl rfl rfl fun _ => .inr (by simp [Write.apply, failedSvc])
  | restarting =>
    exact h.keep rfl rfl rfl rfl fun _ => .inr (by simp [Write.apply, restartingSvc])
  | restarted new now => exact h.reset rfl rfl rfl (by simp [Write.apply, Orch.restarted])
  | collected now i cst ec =>
    obtain ⟨hcount, hhealth⟩ := collectSvc_health now i svc cst ec
    exact h.keep rfl rfl hcount hhealth (collectSvc_enabled now i cst ec)
  | health hc => exact h.health hc
  | cleared => exact h.keep rfl rfl rfl rfl fun _ => .inr (by simp [Write.apply, clearedSvc])

/-! ## Every run -/

/-- Specs that are run come from `orch_parse_spec`. -/
def FromFile (a : Action) : Prop :=
  ∀ parsed, a = .run parsed → ∃ toInt path file, orchParseSpec toInt path file = .ok parsed.spec

structure HealthCounted (t : Observed) : Prop where
  svc : ∀ i < t.sys.spec.count, Counted (t.sys.svc i) (writesTo i t.writes)
  /-- no check has been made before the loop of `orch_run` is over -/
  starting : t.sys.cli.inRun = true → ∀ i, (t.sys.svc i).healthFailCount = 0

theorem counted_of_parse {toInt : Bytes → Int} {path : Bytes} {file : SpecFile}
    {spec : OrchestratorSpec} (h : orchParseSpec toInt path file = .ok spec) {svc : Service}
    (hsvc : svc ∈ spec.services) : Counted svc [] := by
  obtain ⟨-, hstate, -, hcount, -, -⟩ := orchParseSpec_fresh h svc hsvc
  have hrange := orchParseSpec_inRange h svc hsvc
  refine ⟨hcount, fun _ hun => ?_, fun _ hup => ?_, fun hen => (hrange.retries hen).1⟩
  · rw [hstate] at hun
    cases hun
  · rw [hstate] at hup
    exact absurd hup (by simp)

/-- Where `.started` is written the loop of `orch_run` is on its way. -/
theorem inRun_of_started {s : Sys} {a : Action} {i : Nat} {new : Bytes} {now : Int}
    (hw : writeOf s a = some (i, .started new now)) : s.cli.inRun = true := by
  cases writeOf_move hw with
  | started hcli =>
    rw [hcli]
    rfl

/-- No step but `orch_run` itself enters its loop. -/
theorem inRun_of_step {s s' : Sys} {a : Action} (hs : sysStep s a = some s')
    (hin : s'.cli.inRun = true) : s.cli.inRun = true ∨ ∃ parsed, Accepted parsed s s' := by
  cases sysStep_move hs with
  | refused => exact .inl hin
  | @run parsed hidle hstopped hvalid =>
    exact .inr ⟨parsed, hidle, hstopped, hvalid, rfl, rfl, rfl, rfl, rfl⟩
  | restart => cases hin
  | down => cases hin
  | cli hs' =>
    refine .inl ?_
    cases cliStep_move hs' with
    | runEnd hcli | runNext hcli | runLaunch hcli | runFailed hcli | runStore hcli =>
      rw [hcli]
      rfl
    | _ => cases hin
  | mon hs' => exact .inl ((monStep_frame hs').cli ▸ hin)
  | user => exact .inl hin

/-- Only a failed check raises the counter. -/
theorem Write.apply_count_zero {w : Write} {svc : Service} (hw : w.failsCheck = false)
    (h : svc.healthFailCount = 0) : (w.apply svc).healthFailCount = 0 := by
  cases w with
  | collected now i cst ec => exact (collectSvc_health now i svc cst ec).1.trans h
  | health hc =>
    have hz : hc = 0 := by simpa [Write.failsCheck] using hw
    show (applyHealth hc svc).healthFailCount = 0
    rw [applyHealth, if_pos hz]
  | restarted new now => rfl
  | starting => exact h
  | started new now => exact h
  | failed => exact h
  | restarting => exact h
  | cleared => exact h

theorem Accepted.count_zero {parsed : ParsedSpec} {s s' : Sys} (h : Accepted parsed s s')
    (i : Nat) : (s'.svc i).healthFailCount = 0 := by
  rw [Sys.svc, h.spec]
  cases hget : parsed.spec.services[i]? with
  | none => rfl
  | some svc => exact (parsed.fresh svc (List.mem_of_getElem? hget)).2.2.2.1

/-- In the loop of `orch_run` no step writes a failed check. -/
theorem writeOf_failsCheck {s : Sys} {a : Action} (hin : InOrder s) (hrun : s.cli.inRun = true)
    {i : Nat} {w : Write} (hw : writeOf s a = some (i, w)) : w.failsCheck = false := by
  have hoff : s.mon = .off := by
    by_contra hon
    exact hin.noRun hon hrun
  cases writeOf_move hw with
  | health hmon =>
    rw [hoff] at hmon
    cases hmon
  | _ => rfl

theorem HealthCounted.step {t t' : Observed} {a : Action} (h : HealthCounted t)
    (hin : InOrder t.sys) (hfile : FromFile a) (hs : obsStep t a = some t') :
    HealthCounted t' := by
  constructor
  · refine services_step (P := Counted) hs (fun i w hw hc => ?_) (fun parsed ha svc hsvc => ?_) h.svc
    · refine hc.write w fun new now hst => ?_
      subst hst
      exact h.starting (inRun_of_started hw) i
    · obtain ⟨toInt, path, file, hparse⟩ := hfile parsed ha
      exact counted_of_parse hparse hsvc
  · intro hrun' i
    rcases inRun_of_step (sysStep_of_obsStep hs) hrun' with hrun | ⟨parsed, hacc⟩
    · rcases obsStep_cases hs with ⟨-, hspec⟩ | ⟨parsed, -, hacc, -⟩
      · have hzero := h.starting hrun
        rw [Sys.svc, hspec]
        cases hw : writeOf t.sys a with
        | none => exact hzero i
        | some w =>
          show ((t.sys.setSvc w.1 w.2.apply).svc i).healthFailCount = 0
          rcases t.sys.svc_setSvc w.1 i w.2.apply with hsame | ⟨-, hset⟩
          · rw [hsame]
            exact hzero i
          · rw [hset]
            exact Write.apply_count_zero (writeOf_failsCheck hin hrun hw) (hzero w.1)
      · exact hacc.count_zero i
    · exact hacc.count_zero i

theorem healthCounted_init (m : Manager) : HealthCounted (Observed.init m) where
  svc := nofun
  starting := nofun

/-- In every reachable state the counter of a service with a health check is
the number of failed checks since the last successful check or (re)start;
UNHEALTHY means that it has reached `retries`, RUNNING and HEALTHY that it has
not. -/
theorem health_count_exact {m : Manager} {as : List Action} {t : Observed}
    (hrun : RunOk obsStep (fun _ a => FromFile a) (Observed.init m) as t) {i : Nat}
    (hi : i < t.sys.spec.count) (hen : (t.sys.svc i).health.enabled = true) :
    (t.sys.svc i).healthFailCount = failedChecks (writesTo i t.writes) ∧
    ((t.sys.svc i).state = .unhealthy →
      (t.sys.svc i).healthFailCount ≥ (t.sys.svc i).health.retries) ∧
    ((t.sys.svc i).state = .running ∨ (t.sys.svc i).state = .healthy →
      (t.sys.svc i).healthFailCount < (t.sys.svc i).health.retries) := by
  have hinv := hrun.invariant (I := fun t => InOrder t.sys ∧ HealthCounted t)
    (fun t a t' h hfile hs => ⟨h.1.step (sysStep_of_obsStep hs), h.2.step h.1 hfile hs⟩)
    ⟨inOrder_init m, healthCounted_init m⟩
  have hc := hinv.2.svc i hi
  exact ⟨hc.count, hc.unhealthy hen, hc.up hen⟩

/-! ## A service that fails its checks -/

/-- `"web"` with a health check and the default `retries` of 3. -/
def pingText : Bytes :=
  bytes ("\x7b\"services\":\x7b\"web\":\x7b\"image\":\"img\",\"command\":\"/bin/web\"," ++
    "\"health_check\":\x7b\"exec\":\"/bin/ping\"\x7d\x7d\x7d\x7d")

def pingSpec : OrchestratorSpec :=
  { name := bytes "unnamed", specPath := bytes "ping.json"
    services :=
      [{ Service.zero with
          name := bytes "web", image := bytes "img", command := bytes "/bin/web"
          health := { exec := bytes "/bin/ping", intervalMs := 5000, timeoutMs := 1000
                      retries := 3, startPeriodMs := 1000, enabled := true } }] }

theorem pingSpec_parsed :
    orchParseSpec (fun _ => 0) (bytes "ping.json") (.content pingText) = .ok pingSpec := by
  rfl

def pingParsed : ParsedSpec := ⟨pingSpec, by decide⟩

/-- `orch_run` of `pingSpec`, from its call to its return. -/
def pingUp : List Action := .run pingParsed :: cliSteps (.ofNat 100) 5

/-- One round of the monitor at time `now`, with a single check that exits
with `hc`. -/
def pingRound (now hc : Int) : List Action :=
  List.replicate 7 (.mon { Answers.clean (.ofNat 1) with now := now, hc := hc })

theorem fromFile_ping : ∀ a ∈ pingUp ++ (pingRound 10 1 ++ pingRound 20 1 ++ pingRound 30 1),
    FromFile a := by
  intro a ha parsed hrun
  subst hrun
  have hparsed : parsed = pingParsed := by
    simpa [pingUp, pingRound, cliSteps] using ha
  rw [hparsed]
  exact ⟨_, _, _, pingSpec_parsed⟩

/-- Three failed checks in a row. -/
theorem health_count_ping :
    ∃ t, RunOk obsStep (fun _ a => FromFile a) (Observed.init .init)
        (pingUp ++ (pingRound 10 1 ++ pingRound 20 1 ++ pingRound 30 1)) t ∧
      (t.sys.svc 0).state = .unhealthy ∧
      (t.sys.svc 0).healthFailCount = failedChecks (writesTo 0 t.writes) ∧
      (t.sys.svc 0).healthFailCount ≥ 3 := by
  obtain ⟨t, hrun, hcount, hen, hun, hretries⟩ := exists_runOk_of_exec obsStep (fun _ _ => True)
    (Observed.init .init) (pingUp ++ (pingRound 10 1 ++ pingRound 20 1 ++ pingRound 30 1))
    (fun t => 0 < t.sys.spec.count ∧ (t.sys.svc 0).health.enabled = true ∧
      (t.sys.svc 0).state = .unhealthy ∧ (t.sys.svc 0).health.retries = 3) (by decide +kernel)
  have hfile := hrun.of_forall fromFile_ping
  obtain ⟨hexact, hge, -⟩ := health_count_exact hfile hcount hen
  exact ⟨t, hfile, hun, hexact, hretries ▸ hge hun⟩

end ContainerSim.Orch
