import ContainerSim.Orch.Moves

/-!
# Startup and shutdown order

No step changes what the spec says of a service (`static`), so the order that
`orch_down` computes from `g_spec` is the one `orch_run` started in, and the
sort cannot fail there.
-/

namespace ContainerSim.Orch

open Lib ContainerSim.Runtime

/-! ## What no step changes -/

/-- The service with its runtime fields as the parser leaves them. -/
def Service.static (svc : Service) : Service :=
  { svc with
    containerId := [], state := .pending, restartCount := 0, healthFailCount := 0
    startedAt := 0, lastHealthCheck := 0 }

def OrchestratorSpec.static (spec : OrchestratorSpec) : OrchestratorSpec :=
  { spec with services := spec.services.map Service.static }

theorem count_static (spec : OrchestratorSpec) : spec.static.count = spec.count := by
  simp [OrchestratorSpec.count, OrchestratorSpec.static]

theorem depsOf_static (spec : OrchestratorSpec) : spec.static.depsOf = spec.depsOf := by
  funext i
  simp only [OrchestratorSpec.depsOf, OrchestratorSpec.static, List.getElem?_map, Option.map_map]
  rfl

theorem findSvc_static (spec : OrchestratorSpec) : findSvc spec.static = findSvc spec := by
  funext name
  rw [findSvc, findSvc, OrchestratorSpec.static, List.findIdx?_map]
  rfl

/-- The sort reads names and dependencies only. -/
theorem topoSort_static (spec : OrchestratorSpec) : topoSort spec.static = topoSort spec := by
  have hdep : ∀ i, countDep spec.static i = countDep spec i := by
    intro i
    funext indegree dep
    rw [countDep, countDep, findSvc_static]
  have hind : initIndegree spec.static = initIndegree spec := by
    simp only [initIndegree, count_static, depsOf_static, hdep]
  have hinit : topoInit spec.static = topoInit spec := by
    unfold topoInit
    rw [hind, count_static]
  have hround : topoRound spec.static = topoRound spec := by
    funext cur t
    have hsvc : relaxSvc spec.static cur = relaxSvc spec cur := by
      funext t i
      have hrelax : relaxDep spec.static cur i = relaxDep spec cur i := by
        funext t dep
        rw [relaxDep, relaxDep, findSvc_static]
      rw [relaxSvc, relaxSvc, depsOf_static, hrelax]
    rw [topoRound, topoRound, count_static, hsvc]
  -- the rounds agree one by one
  have hloop : ∀ fuel t, topoLoop spec.static fuel t = topoLoop spec fuel t := by
    intro fuel
    induction fuel with
    | zero => intro t; rfl
    | succ fuel ih =>
      intro t
      rw [topoLoop, topoLoop]
      cases t.queue[t.qh]? with
      | none => rfl
      | some cur =>
        show topoLoop spec.static fuel (topoRound spec.static cur t) = _
        rw [hround, ih]
  have hfinal : topoFinal spec.static = topoFinal spec := by
    rw [topoFinal, topoFinal, hinit, hloop, count_static]
  unfold topoSort
  rw [hfinal, count_static]

theorem topoSort_congr {spec spec' : OrchestratorSpec} (h : spec'.static = spec.static) :
    topoSort spec' = topoSort spec := by
  rw [← topoSort_static spec', h, topoSort_static]

theorem count_congr {spec spec' : OrchestratorSpec} (h : spec'.static = spec.static) :
    spec'.count = spec.count := by
  rw [← count_static spec', h, count_static]

theorem dependsOn_congr {spec spec' : OrchestratorSpec} (h : spec'.static = spec.static) :
    DependsOn spec' = DependsOn spec := by
  have hstatic : ∀ spec : OrchestratorSpec, DependsOn spec.static = DependsOn spec := by
    intro spec
    funext i j
    unfold DependsOn
    rw [depsOf_static, findSvc_static]
  rw [← hstatic spec', h, hstatic]

/-- An update of runtime fields. -/
def Dynamic (f : Service → Service) : Prop := ∀ svc, (f svc).static = svc.static

theorem static_setSvc (s : Sys) (i : Nat) {f : Service → Service} (hf : Dynamic f) :
    (s.setSvc i f).spec.static = s.spec.static := by
  have hmap : (s.spec.services.modify i f).map Service.static =
      s.spec.services.map Service.static := by
    refine List.ext_getElem? fun j => ?_
    rw [List.getElem?_map, List.getElem?_map, List.getElem?_modify]
    cases s.spec.services[j]? with
    | none => rfl
    | some svc =>
      by_cases hij : i = j
      · simp [hij, hf svc]
      · simp [hij]
  rw [OrchestratorSpec.static, Sys.setSvc, OrchestratorSpec.static]
  simp only [hmap]

theorem collectSvc_dynamic (now : Int) (i : Nat) (cst : ContainerState) (ec : Int) :
    Dynamic fun svc => (collectSvc now i svc cst ec).1 := by
  intro svc
  simp only [collectSvc]
  split
  · split <;> rfl
  split
  · split
    · rfl
    split <;> rfl
  split <;> rfl

theorem applyHealth_dynamic (hc : Int) : Dynamic (applyHealth hc) := by
  intro svc
  rw [applyHealth]
  split <;> rfl

theorem restarted_dynamic (new : Bytes) (now : Int) : Dynamic (restarted new now) :=
  fun _ => rfl

/-! ## What the monitor leaves alone -/

/-- The part of the log the monitor never writes. -/
def Log.order (log : Log) : Nat × List Nat × List Nat × List Nat :=
  (log.gen, log.starts, log.visits, log.stops)

structure MonFrame (s s' : Sys) : Prop where
  on : s.mon ≠ .off
  cli : s'.cli = s.cli
  running : s'.running = s.running
  order : s'.log.order = s.log.order
  static : s'.spec.static = s.spec.static

theorem monStep_frame {o : Answers} {s s' : Sys} (h : monStep o s = some s') : MonFrame s s' := by
  have hon : s.mon ≠ .off := by
    intro hoff
    simp [monStep, hoff] at h
  cases monStep_move h with
  | goOn => exact ⟨hon, rfl, rfl, rfl, rfl⟩
  | skip => exact ⟨hon, rfl, rfl, rfl, rfl⟩
  | seen => exact ⟨hon, rfl, rfl, rfl, static_setSvc s _ (collectSvc_dynamic _ _ _ _)⟩
  | health => exact ⟨hon, rfl, rfl, rfl, static_setSvc s _ (applyHealth_dynamic _)⟩
  | delete => exact ⟨hon, rfl, rfl, rfl, rfl⟩
  | launch => exact ⟨hon, rfl, rfl, rfl, rfl⟩
  | commit => exact ⟨hon, rfl, rfl, rfl, static_setSvc s _ (restarted_dynamic _ o.now)⟩
  | failed => exact ⟨hon, rfl, rfl, rfl, static_setSvc s _ fun _ => rfl⟩
  | takeBack => exact ⟨hon, rfl, rfl, rfl, rfl⟩
  | giveUp => exact ⟨hon, rfl, rfl, rfl, rfl⟩
  | undoStop => exact ⟨hon, rfl, rfl, rfl, rfl⟩
  | undoDelete => exact ⟨hon, rfl, rfl, rfl, rfl⟩

/-! ## The two loops -/

/-- Services still to be started by the loop of `orch_run`. -/
def CliPc.toStart : CliPc → List Nat
  | .runNext todo => todo
  | .runLaunch job todo => job.svc :: todo
  | .runStore _ _ todo => todo
  | _ => []

/-- Services still to be reached by the loop of `orch_down`, in its order. -/
def toVisit (s : Sys) : List Nat :=
  match s.cli with
  | .downNext todo => todo
  | .downDelete _ todo => todo
  | .idle => if s.running then (topoSort s.spec).2.reverse else []
  | _ => (topoSort s.spec).2.reverse

/-- `orch_run` is on its way. -/
def CliPc.inRun : CliPc → Bool
  | .runNext _ | .runLaunch .. | .runStore .. => true
  | _ => false

/-- `g_running` in the calls that have passed their first section. -/
def CliPc.mustRun : CliPc → Bool
  | .runSpawn | .rstStop .. | .rstDelete .. | .rstLaunch .. | .rstStore .. => true
  | _ => false

/-- The monitor has not been created or has been joined. -/
def CliPc.monOff : CliPc → Bool
  | .runNext _ | .runLaunch .. | .runStore .. | .runSpawn | .downNext _ | .downDelete .. => true
  | _ => false

/-- The invariant: the spec sorts, and both loops follow its order. -/
structure InOrder (s : Sys) : Prop where
  sorts : (topoSort s.spec).1 = s.spec.count
  starts : s.log.starts ++ s.cli.toStart = (topoSort s.spec).2
  visits : s.log.visits ++ toVisit s = (topoSort s.spec).2.reverse
  stops : s.log.stops.Sublist s.log.visits
  running : s.cli.mustRun = true → s.running = true
  stopped : s.running = true → s.cli = .idle ∨ s.cli.mustRun = true
  monOff : (s.cli.monOff = true ∨ (s.cli = .idle ∧ s.running = false)) → s.mon = .off

theorem inOrder_init (m : Manager) : InOrder (Sys.init m) where
  sorts := by rfl
  starts := by rfl
  visits := by rfl
  stops := List.Sublist.refl _
  running := nofun
  stopped := nofun
  monOff := fun _ => rfl

/-- Steps that leave the command line, `g_running` and the order logs alone. -/
theorem InOrder.congr {s s' : Sys} (h : InOrder s) (hcli : s'.cli = s.cli)
    (hrun : s'.running = s.running) (hlog : s'.log.order = s.log.order)
    (hstatic : s'.spec.static = s.spec.static)
    (hmon : (s.cli.monOff = true ∨ (s.cli = .idle ∧ s.running = false)) → s'.mon = .off) :
    InOrder s' := by
  simp only [Log.order, Prod.mk.injEq] at hlog
  obtain ⟨-, hstarts, hvisits, hstops⟩ := hlog
  have hsort := topoSort_congr hstatic
  have hvisit : toVisit s' = toVisit s := by rw [toVisit, toVisit, hcli, hrun, hsort]
  constructor
  · rw [hsort, count_congr hstatic]; exact h.sorts
  · rw [hstarts, hcli, hsort]; exact h.starts
  · rw [hvisits, hvisit, hsort]; exact h.visits
  · rw [hstops, hvisits]; exact h.stops
  · rw [hcli, hrun]; exact h.running
  · rw [hcli, hrun]; exact h.stopped
  · rw [hcli, hrun]; exact hmon

theorem InOrder.mon {o : Answers} {s s' : Sys} (h : InOrder s) (hs : monStep o s = some s') :
    InOrder s' := by
  have hf := monStep_frame hs
  exact h.congr hf.cli hf.running hf.order hf.static fun hoff => absurd (h.monOff hoff) hf.on

theorem InOrder.begun {s : Sys} (h : InOrder s) {parsed : ParsedSpec} (hidle : s.cli = .idle)
    (hstopped : s.running = false) (hvalid : orchValidate parsed.spec = 0) :
    InOrder (begun parsed s) where
  sorts := (topoSort_eq_count_iff _).mpr (orchValidate_ok hvalid).1
  starts := rfl
  visits := rfl
  stops := List.Sublist.refl _
  running := nofun
  stopped := fun hr => absurd (hstopped.symm.trans hr) nofun
  monOff := fun _ => h.monOff (.inr ⟨hidle, hstopped⟩)

theorem InOrder.restarting {s : Sys} (h : InOrder s) (i : Nat) (hidle : s.cli = .idle)
    (hrun : s.running = true) :
    InOrder { s.setSvc i restartingSvc with
      cli := .rstStop (.ofService i (s.svc i)) (s.svc i).containerId } := by
  have hstatic := static_setSvc s i (f := restartingSvc) fun _ => rfl
  have hsort := topoSort_congr hstatic
  have hstarts := h.starts
  have hvisits := h.visits
  rw [hidle] at hstarts
  rw [toVisit, hidle] at hvisits
  simp only [hrun, if_true] at hvisits
  constructor
  · show (topoSort (s.setSvc i restartingSvc).spec).1 = (s.setSvc i restartingSvc).spec.count
    rw [hsort, count_congr hstatic]
    exact h.sorts
  · show s.log.starts ++ [] = (topoSort (s.setSvc i restartingSvc).spec).2
    rw [hsort]
    exact hstarts
  · show s.log.visits ++ (topoSort (s.setSvc i restartingSvc).spec).2.reverse =
      (topoSort (s.setSvc i restartingSvc).spec).2.reverse
    rw [hsort]
    exact hvisits
  · exact h.stops
  · exact fun _ => hrun
  · exact fun _ => .inr rfl
  · exact nofun

theorem InOrder.down {s : Sys} (h : InOrder s) (hidle : s.cli = .idle) (hrun : s.running = true) :
    InOrder { s with running := false, cli := .downJoin } := by
  have hstarts := h.starts
  have hvisits := h.visits
  rw [hidle] at hstarts
  rw [toVisit, hidle] at hvisits
  simp only [hrun, if_true] at hvisits
  exact ⟨h.sorts, hstarts, hvisits, h.stops, nofun, nofun, nofun⟩

/-- The sort of `orch_down` succeeds, so `order` has no unwritten part. -/
theorem InOrder.downOrder_eq {s : Sys} (h : InOrder s) (garbage : Nat → Nat) :
    downOrder s.spec garbage = (topoSort s.spec).2 := by
  have hpos : ¬ (topoSort s.spec).1 < 0 := by rw [h.sorts]; omega
  simp only [downOrder, hpos, if_false]

/-- What is left to visit, apart from the spec: `none` is the whole order. -/
def CliPc.visitRest (running : Bool) : CliPc → Option (List Nat)
  | .downNext todo => some todo
  | .downDelete _ todo => some todo
  | .idle => if running then none else some []
  | _ => none

theorem toVisit_eq (s : Sys) :
    toVisit s = (s.cli.visitRest s.running).getD (topoSort s.spec).2.reverse := by
  unfold toVisit CliPc.visitRest
  cases s.cli with
  | idle => cases s.running <;> rfl
  | _ => rfl

/-- Reaching the next service moves it from one list to the other. -/
theorem visits_next {s : Sys} {i : Nat} {todo : List Nat} (hcli : s.cli = .downNext (i :: todo)) :
    (s.log.visits ++ [i]) ++ todo = s.log.visits ++ toVisit s := by
  rw [toVisit_eq, hcli, List.append_assoc]
  rfl

/-- A step of the command line that moves it on along its loop. -/
theorem InOrder.move {s s' : Sys} (h : InOrder s) (hstatic : s'.spec.static = s.spec.static)
    (hstarts : s'.log.starts ++ s'.cli.toStart = s.log.starts ++ s.cli.toStart)
    (hvisits : s'.log.visits = s.log.visits ∧
        s'.cli.visitRest s'.running = s.cli.visitRest s.running ∨
      s'.log.visits ++ toVisit s' = s.log.visits ++ toVisit s)
    (hstops : s'.log.stops.Sublist s'.log.visits)
    (hrunning : s'.cli.mustRun = true → s'.running = true)
    (hstopped : s'.running = true → s'.cli = .idle ∨ s'.cli.mustRun = true)
    (hoff : (s'.cli.monOff = true ∨ (s'.cli = .idle ∧ s'.running = false)) → s'.mon = .off) :
    InOrder s' := by
  have hsort := topoSort_congr hstatic
  refine ⟨?_, ?_, ?_, hstops, hrunning, hstopped, hoff⟩
  · rw [hsort, count_congr hstatic]; exact h.sorts
  · rw [hsort, hstarts]; exact h.starts
  · rw [hsort, ← h.visits]
    rcases hvisits with ⟨hv, hrest⟩ | hv
    · rw [toVisit_eq, toVisit_eq, hv, hrest, hsort]
    · exact hv

/-- The last section of `orch_restart_service`. -/
theorem InOrder.restartDone {s : Sys} (h : InOrder s) {i : Nat} {old : Bytes} {new : Option Bytes}
    {f : Service → Service} (hf : Dynamic f) (hcli : s.cli = .rstStore i old new) :
    InOrder { s.setSvc i f with cli := .idle } := by
  have hrun : s.running = true := h.running (by rw [hcli]; rfl)
  refine h.move (static_setSvc s i hf) ?_ (.inl ⟨rfl, ?_⟩) h.stops nofun (fun _ => .inl rfl) ?_
  · rw [hcli]; rfl
  · rw [hcli]
    show (if s.running = true then none else some []) = none
    rw [hrun]
    rfl
  · rintro (hm | ⟨-, hr⟩)
    · cases hm
    · exact absurd (hrun.symm.trans hr) nofun

theorem InOrder.cli {o : Answers} {s s' : Sys} (h : InOrder s) (hs : cliStep o s = some s') :
    InOrder s' := by
  have hoff := h.monOff
  have hstop : s.running = true → s.cli = .idle ∨ s.cli.mustRun = true := h.stopped
  have hmust := h.running
  cases cliStep_move hs with
  | runEnd hcli =>
    rw [hcli] at hoff
    refine h.move rfl ?_ (.inl ⟨rfl, ?_⟩) h.stops (fun _ => rfl) (fun _ => .inr rfl)
      (fun _ => hoff (.inl rfl))
    · rw [hcli]; rfl
    · rw [hcli]; rfl
  | runNext hcli | runFailed hcli | runStore hcli =>
    rw [hcli] at hoff hstop
    refine h.move (static_setSvc s _ fun _ => rfl) ?_ (.inl ⟨rfl, ?_⟩) h.stops nofun
      (fun hr => (hstop hr).elim nofun nofun) (fun _ => hoff (.inl rfl))
    · rw [hcli]; rfl
    · rw [hcli]; rfl
  | runLaunch hcli =>
    rename_i job todo
    rw [hcli] at hoff hstop
    refine h.move rfl ?_ (.inl ⟨rfl, ?_⟩) h.stops nofun
      (fun hr => (hstop hr).elim nofun nofun) (fun _ => hoff (.inl rfl))
    · rw [hcli]
      show (s.log.starts ++ [job.svc]) ++ todo = s.log.starts ++ job.svc :: todo
      rw [List.append_assoc]
      rfl
    · rw [hcli]; rfl
  | runSpawn hcli =>
    -- the monitor is created, `orch_run` returns
    rw [hcli] at hmust
    have hrun : s.running = true := hmust rfl
    refine h.move rfl ?_ (.inl ⟨rfl, ?_⟩) h.stops nofun (fun _ => .inl rfl) ?_
    · rw [hcli]; rfl
    · rw [hcli]
      show (if s.running = true then none else some []) = none
      rw [hrun]
      rfl
    · rintro (hm | ⟨-, hr⟩)
      · cases hm
      · exact absurd (hrun.symm.trans hr) nofun
  | rstStop hcli | rstDelete hcli | rstLaunch hcli =>
    rw [hcli] at hmust
    refine h.move rfl ?_ (.inl ⟨rfl, ?_⟩) h.stops (fun _ => hmust rfl) (fun _ => .inr rfl) nofun
    · rw [hcli]; rfl
    · rw [hcli]; rfl
  | rstFailed hcli => exact h.restartDone (f := failedSvc) (fun _ => rfl) hcli
  | rstStore hcli => exact h.restartDone (restarted_dynamic _ o.now) hcli
  | downJoin hcli hjoined =>
    -- the order is computed again
    rw [hcli] at hstop
    have hrest : s.log.visits ++ (topoSort s.spec).2.reverse = s.log.visits ++ toVisit s := by
      rw [toVisit_eq, hcli]; rfl
    refine h.move rfl ?_ (.inr ?_) h.stops nofun
      (fun hr => (hstop hr).elim nofun nofun) (fun _ => hjoined)
    · rw [hcli]; rfl
    · rw [← hrest, h.downOrder_eq]
      rfl
  | downEnd hcli =>
    rw [hcli] at hoff hstop
    have hrun : s.running = false := by
      cases hr : s.running with
      | false => rfl
      | true => exact (hstop hr).elim nofun nofun
    refine h.move rfl ?_ (.inl ⟨rfl, ?_⟩) h.stops nofun
      (fun hr => absurd (hrun.symm.trans hr) nofun) (fun _ => hoff (.inl rfl))
    · rw [hcli]; rfl
    · rw [hcli]
      show (if s.running = true then none else some []) = some []
      rw [hrun]
      rfl
  | downSkip hcli =>
    rw [hcli] at hoff hstop
    refine h.move rfl ?_ (.inr (visits_next hcli)) (h.stops.trans (List.sublist_append_left _ _))
      nofun (fun hr => (hstop hr).elim nofun nofun) (fun _ => hoff (.inl rfl))
    rw [hcli]; rfl
  | downStop hcli =>
    rw [hcli] at hoff hstop
    refine h.move rfl ?_ (.inr (visits_next hcli)) (h.stops.append (List.Sublist.refl _)) nofun
      (fun hr => (hstop hr).elim nofun nofun) (fun _ => hoff (.inl rfl))
    rw [hcli]; rfl
  | downDelete hcli =>
    rw [hcli] at hoff hstop
    refine h.move (static_setSvc _ _ fun _ => rfl) ?_ (.inl ⟨rfl, ?_⟩) h.stops nofun
      (fun hr => (hstop hr).elim nofun nofun) (fun _ => hoff (.inl rfl))
    · rw [hcli]; rfl
    · rw [hcli]; rfl

theorem InOrder.step {s s' : Sys} {a : Action} (h : InOrder s) (hs : sysStep s a = some s') :
    InOrder s' := by
  cases sysStep_move hs with
  | refused => exact h
  | run hidle hstopped hvalid => exact h.begun hidle hstopped hvalid
  | restart hidle hrun => exact h.restarting _ hidle hrun
  | down hidle hrun => exact h.down hidle hrun
  | cli hs => exact h.cli hs
  | mon hs => exact h.mon hs
  | user => exact h.congr rfl rfl rfl rfl h.monOff

theorem inOrder_of_runs {m : Manager} {as : List Action} {s : Sys}
    (hrun : Runs sysStep (Sys.init m) as s) : InOrder s :=
  hrun.invariant (fun _ _ _ h _ hs => h.step hs) (inOrder_init m)

/-! ## Neither loop can get stuck -/

/-- Steps left in a loop of the command line. -/
def CliPc.remaining : CliPc → Nat
  | .runNext todo => 3 * todo.length + 2
  | .runLaunch _ todo => 3 * todo.length + 4
  | .runStore _ _ todo => 3 * todo.length + 3
  | .runSpawn => 1
  | .downNext todo => 2 * todo.length + 1
  | .downDelete _ todo => 2 * todo.length + 2
  | _ => 0

theorem InOrder.progress {s : Sys} (h : InOrder s) (hloop : s.cli.monOff = true) (o : Answers) :
    ∃ s', cliStep o s = some s' ∧ s'.cli.remaining < s.cli.remaining := by
  have hfree : s.locked = false := by rw [Sys.locked, h.monOff (.inl hloop)]
  unfold cliStep
  cases hcli : s.cli with
  | runNext todo =>
    cases todo with
    | nil => exact ⟨_, by rw [hfree]; rfl, by simp [CliPc.remaining]⟩
    | cons i todo =>
      exact ⟨_, by rw [hfree]; rfl, by simp only [CliPc.remaining, List.length_cons]; omega⟩
  | runLaunch job todo => exact ⟨_, rfl, by simp [CliPc.remaining]⟩
  | runStore i new todo =>
    cases new with
    | none => exact ⟨_, by rw [hfree]; rfl, by simp [CliPc.remaining]⟩
    | some id => exact ⟨_, by rw [hfree]; rfl, by simp [CliPc.remaining]⟩
  | runSpawn => exact ⟨_, rfl, by simp [CliPc.remaining]⟩
  | downNext todo =>
    cases todo with
    | nil => exact ⟨_, rfl, by simp [CliPc.remaining]⟩
    | cons i todo =>
      simp only
      split
      · exact ⟨_, rfl, by simp only [CliPc.remaining, List.length_cons]; omega⟩
      · exact ⟨_, rfl, by simp only [CliPc.remaining, List.length_cons]; omega⟩
  | downDelete i todo => exact ⟨_, rfl, by simp [CliPc.remaining]⟩
  | _ => rw [hcli] at hloop; cases hloop

theorem CliPc.toStart_eq_nil {cli : CliPc} (h : cli.inRun = false) : cli.toStart = [] := by
  cases cli with
  | runNext todo => cases h
  | runLaunch job todo => cases h
  | runStore i new todo => cases h
  | _ => rfl

theorem InOrder.acyclic {s : Sys} (h : InOrder s) : Acyclic (DependsOn s.spec) :=
  (topoSort_eq_count_iff _).mp h.sorts

/-- Behind the loop of `orch_run` every service has been attempted. -/
theorem InOrder.starts_done {s : Sys} (h : InOrder s) (hdone : s.cli.inRun = false) :
    s.log.starts = (topoSort s.spec).2 := by
  rw [← h.starts, CliPc.toStart_eq_nil hdone, List.append_nil]

/-- Whatever has been started has been started behind its dependencies. -/
theorem InOrder.starts_behind {s : Sys} (h : InOrder s) {i j : Nat} (hij : DependsOn s.spec i j)
    (hi : i ∈ s.log.starts) : s.log.starts.idxOf j < s.log.starts.idxOf i := by
  have hprefix : s.log.starts <+: (topoSort s.spec).2 := ⟨_, h.starts⟩
  have hsorted := topoSort_sorted s.spec
  have hstarted := hsorted.of_prefix hprefix
  exact hstarted.idxOf_lt hi hij

/-- An accepted spec gets into the loop. -/
theorem beginRun_accepts (parsed : ParsedSpec) {s : Sys}
    (hvalid : orchValidate parsed.spec = 0) (hdown : s.running = false) :
    (beginRun parsed s).cli = .runNext (topoSort parsed.spec).2 ∧
    (beginRun parsed s).spec = parsed.spec := by
  have hok := (topoSort_eq_count_iff _).mpr (orchValidate_ok hvalid).1
  have hpos : ¬ (topoSort parsed.spec).1 < 0 := by
    rw [hok]
    omega
  unfold beginRun
  rw [hdown, if_neg nofun, if_neg (not_not.mpr hvalid), if_neg hpos]
  exact ⟨rfl, rfl⟩

/-- **Startup and shutdown are exact reverses**, in every state of every run:
`orch_run` attempts each service once with dependencies first, `orch_down`
reaches the services in the reverse of that order and calls `container_stop`
along it, and the sort it does on the way succeeds. An accepted spec does get
into the start loop, and neither loop can block. -/
theorem startup_shutdown_reverse {m : Manager} {as : List Action} {s : Sys}
    (hrun : Runs sysStep (Sys.init m) as s) :
    (topoSort s.spec).1 = s.spec.count ∧
    (s.log.starts <+: (topoSort s.spec).2 ∧
      (s.cli.inRun = false → s.log.starts.Perm (List.range s.spec.count)) ∧
      ∀ i j, DependsOn s.spec i j → i ∈ s.log.starts →
        s.log.starts.idxOf j < s.log.starts.idxOf i) ∧
    (s.log.visits <+: (topoSort s.spec).2.reverse ∧
      (s.cli.inRun = false → s.log.visits <+: s.log.starts.reverse) ∧
      (s.cli = .idle → s.running = false → s.log.visits = s.log.starts.reverse) ∧
      s.log.stops.Sublist s.log.visits ∧
      ∀ i j, DependsOn s.spec i j → j ∈ s.log.stops → i ∈ s.log.stops →
        s.log.stops.idxOf i < s.log.stops.idxOf j) ∧
    (∀ parsed : ParsedSpec, orchValidate parsed.spec = 0 → s.running = false →
      (beginRun parsed s).cli = .runNext (topoSort parsed.spec).2) ∧
    (s.cli.monOff = true → ∀ o, ∃ s', cliStep o s = some s' ∧
      s'.cli.remaining < s.cli.remaining) := by
  have h := inOrder_of_runs hrun
  have hperm := topoSort_perm h.acyclic
  have hvisits : s.log.visits <+: (topoSort s.spec).2.reverse := ⟨_, h.visits⟩
  refine ⟨h.sorts, ⟨⟨_, h.starts⟩, ?_, fun i j => h.starts_behind⟩,
    ⟨hvisits, ?_, ?_, h.stops, ?_⟩, ?_, ?_⟩
  · intro hdone
    rw [h.starts_done hdone]
    exact hperm
  · intro hdone
    rw [h.starts_done hdone]
    exact hvisits
  · intro hidle hr
    rw [h.starts_done (by rw [hidle]; rfl), ← h.visits, toVisit_eq, hidle, hr]
    exact (List.append_nil _).symm
  · intro i j hij hj hi
    -- a dependency stands behind what needs it in the reversed order
    have hpair : (topoSort s.spec).2.reverse.Pairwise fun a b => ¬ DependsOn s.spec b a := by
      rw [List.pairwise_reverse]
      exact (topoSort_sorted s.spec).pairwise (hperm.nodup_iff.mpr List.nodup_range)
    have hstops : s.log.stops.Sublist (topoSort s.spec).2.reverse :=
      h.stops.trans hvisits.sublist
    refine idxOf_lt_of_pairwise (hpair.sublist hstops) hi hj (fun heq => ?_) hij
    exact h.acyclic i (.single (heq ▸ hij))
  · exact fun parsed hvalid hr => (beginRun_accepts parsed hvalid hr).1
  · exact fun hloop o => h.progress hloop o

/-- `orch_down`, with the monitor leaving its sleep before the join. -/
def webDown : List Action :=
  [.down, .mon (.clean (.ofNat 1))] ++ cliSteps (.ofNat 1) 6

/-- Up and down again: `db` (1) is started first and stopped last. -/
theorem startup_shutdown_web :
    ∃ s, Runs sysStep (Sys.init .init) (webUp ++ webDown) s ∧
      s.log.starts = [1, 0] ∧ s.log.visits = [0, 1] ∧ s.log.stops = [0, 1] ∧
      s.log.visits = s.log.starts.reverse := by
  obtain ⟨s, hrun, hidle, hdown, hstarts, hvisits, hstops⟩ :=
    exists_runOk_of_exec sysStep (fun _ _ => True) (Sys.init .init) (webUp ++ webDown)
      (fun s => s.cli = .idle ∧ s.running = false ∧ s.log.starts = [1, 0] ∧
        s.log.visits = [0, 1] ∧ s.log.stops = [0, 1]) (by decide +kernel)
  exact ⟨s, hrun, hstarts, hvisits, hstops,
    (startup_shutdown_reverse hrun).2.2.1.2.2.1 hidle hdown⟩

end ContainerSim.Orch
