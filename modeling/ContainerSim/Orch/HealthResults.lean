import ContainerSim.Orch.HealthCount
import ContainerSim.Orch.Slots

/-!
# Health results that come too late

A check is made for a service that is up, but its result is applied after the
lock was dropped, when only `g_running` and `container_id` are looked at again.
`orch_restart_service` leaves the id in place until it has a new container, so
a result can reach a service that is RESTARTING, or FAILED after that. This is
the only way: as long as results arrive when the last (re)start of the service
has succeeded, they are applied to services that are up.
-/

namespace ContainerSim.Orch

open Lib ContainerSim.Runtime

/-- A start or restart that has begun, has failed or is complete. -/
def Write.isRestart : Write → Bool
  | .started .. | .restarting | .failed | .restarted .. => true
  | _ => false

/-- The last restart of the service is under way or has failed. -/
def restartOpen (ws : List Write) : Bool :=
  match (ws.filter Write.isRestart).getLast? with
  | some .restarting | some .failed => true
  | _ => false

theorem restartOpen_snoc (ws : List Write) (w : Write) :
    restartOpen (ws ++ [w]) =
      if w.isRestart then decide (w = .restarting ∨ w = .failed) else restartOpen ws := by
  unfold restartOpen
  rw [List.filter_append]
  cases w <;> simp [Write.isRestart]

/-- A result that changes the state of a service that is not HEALTHY: a success,
or the failure that reaches `retries`. -/
def TakesEffect (hc : Int) (svc : Service) : Prop :=
  hc = 0 ∨ svc.healthFailCount + 1 ≥ svc.health.retries

instance (hc : Int) (svc : Service) : Decidable (TakesEffect hc svc) := by
  unfold TakesEffect; infer_instance

/-- The step applies no health result, or it changes the state of a service
that was RUNNING, HEALTHY or UNHEALTHY, or it leaves the state as it was. -/
def KeepsDown (t : Observed) (a : Action) : Prop :=
  ∀ i hc, writeOf t.sys a = some (i, .health hc) → ∀ t', obsStep t a = some t' →
    (t'.sys.svc i).state ≠ (t.sys.svc i).state → Ready (t.sys.svc i).state

/-- The step applies no health result that takes effect while the last restart
of the service is under way or has failed. -/
def Settled (t : Observed) (a : Action) : Prop :=
  ∀ i hc, writeOf t.sys a = some (i, .health hc) → TakesEffect hc (t.sys.svc i) →
    restartOpen (writesTo i t.writes) = false

/-! ## The invariant -/

structure OnTime (t : Observed) : Prop where
  /-- a service whose last restart is not complete is not up -/
  openDown : ∀ i, restartOpen (writesTo i t.writes) = true → ¬ Ready (t.sys.svc i).state
  /-- a service that is not up any more while it is being checked has been restarted -/
  item : ∀ i, HasHealth t.sys.mon.work i →
    Ready (t.sys.svc i).state ∨ restartOpen (writesTo i t.writes) = true

theorem onTime_init (m : Manager) : OnTime (Observed.init m) where
  openDown := fun _ h => by cases h
  item := nofun

theorem applyHealth_state (hc : Int) (svc : Service) :
    (¬ TakesEffect hc svc ∧ (applyHealth hc svc).state = svc.state) ∨
    (TakesEffect hc svc ∧ Ready (applyHealth hc svc).state) := by
  unfold applyHealth
  by_cases hz : hc = 0
  · rw [if_pos hz]
    exact .inr ⟨.inl hz, .inr (.inl rfl)⟩
  · rw [if_neg hz]
    by_cases hge : svc.healthFailCount + 1 ≥ svc.health.retries
    · simp only [if_pos hge]
      exact .inr ⟨.inr hge, .inr (.inr rfl)⟩
    · simp only [if_neg hge]
      exact .inl ⟨not_or.mpr ⟨hz, hge⟩, trivial⟩

theorem collectSvc_down (now : Int) (i : Nat) {svc : Service} (cst : ContainerState) (ec : Int)
    (hdown : ¬ Ready svc.state) : ¬ Ready (collectSvc now i svc cst ec).1.state := by
  have hmove := collectSvc_move now i svc cst ec
  generalize collectSvc now i svc cst ec = r at hmove ⊢
  cases hmove with
  | restart => simp [Ready]
  | ended hstate => exact hstate
  | check hready | up hready => exact absurd hready hdown
  | nothing => exact hdown

/-- A write keeps a service with an open restart down. A health result does so
when it has no effect on such a service. -/
theorem openDown_write {svc : Service} {ws : List Write} (w : Write)
    (hsettled : ∀ hc, w = .health hc → TakesEffect hc svc → restartOpen ws = false)
    (h : restartOpen ws = true → ¬ Ready svc.state) :
    restartOpen (ws ++ [w]) = true → ¬ Ready (w.apply svc).state := by
  intro hopen
  rw [restartOpen_snoc] at hopen
  cases w with
  | starting => simp [Write.apply, startingSvc, Ready]
  | started new now => simp [Write.isRestart] at hopen
  | failed => simp [Write.apply, failedSvc, Ready]
  | restarting => simp [Write.apply, restartingSvc, Ready]
  | restarted new now => simp [Write.isRestart] at hopen
  | collected now i cst ec => exact collectSvc_down now i cst ec (h hopen)
  | health hc =>
    rcases applyHealth_state hc svc with ⟨-, hsame⟩ | ⟨heffect, -⟩
    · show ¬ Ready (applyHealth hc svc).state
      rw [hsame]
      exact h hopen
    · change restartOpen ws = true at hopen
      rw [hsettled hc rfl heffect] at hopen
      cases hopen
  | cleared => simp [Write.apply, clearedSvc, Ready]

/-- A restart leaves the service up or open; a health result leaves it up when
it was. -/
theorem item_write {svc : Service} {ws : List Write} {w : Write}
    (hw : w.isRestart = true ∨ ∃ hc, w = .health hc)
    (h : Ready svc.state ∨ restartOpen ws = true) :
    Ready (w.apply svc).state ∨ restartOpen (ws ++ [w]) = true := by
  rcases hw with hw | ⟨hc, rfl⟩
  · rw [restartOpen_snoc, if_pos hw]
    cases w with
    | started new now => exact .inl (.inl rfl)
    | restarted new now => exact .inl (.inl rfl)
    | failed => exact .inr (by simp)
    | restarting => exact .inr (by simp)
    | starting => cases hw
    | collected now i cst ec => cases hw
    | health hc => cases hw
    | cleared => cases hw
  · rw [restartOpen_snoc]
    refine h.imp (fun hready => ?_) fun hopen => hopen
    rcases applyHealth_state hc svc with ⟨-, hsame⟩ | ⟨-, hup⟩
    · show Ready (applyHealth hc svc).state
      rwa [hsame]
    · exact hup

/-! ## Items of the monitor -/

theorem hasHealth_append {work new : List WorkItem} {i : Nat} (h : HasHealth (work ++ new) i) :
    HasHealth work i ∨ HasHealth new i := by
  obtain ⟨cid, hcmd, name, hmem⟩ := h
  rcases List.mem_append.mp hmem with hw | hn
  · exact .inl ⟨cid, hcmd, name, hw⟩
  · exact .inr ⟨cid, hcmd, name, hn⟩

/-- The pass takes a service up for a check when it is up, and leaves it so. -/
theorem ready_of_collected {now : Int} {k i : Nat} {svc : Service} {cst : ContainerState}
    {ec : Int} (h : HasHealth (collectSvc now k svc cst ec).2 i) :
    i = k ∧ Ready (collectSvc now k svc cst ec).1.state := by
  obtain ⟨cid, hcmd, name, hmem⟩ := h
  refine ⟨collectSvc_svc now k svc cst ec _ hmem, ?_⟩
  have hmove := collectSvc_move now k svc cst ec
  generalize collectSvc now k svc cst ec = r at hmove hmem ⊢
  cases hmove with
  | restart => simp at hmem
  | check hready => exact hready
  | ended | up | nothing => cases hmem

/-- A check of a service is left over from before the step, or the service is
up. -/
theorem monStep_hasHealth {o : Answers} {s s' : Sys} (hs : monStep o s = some s') {i : Nat}
    (h : HasHealth s'.mon.work i) : HasHealth s.mon.work i ∨ Ready (s'.svc i).state := by
  cases monStep_move hs with
  | goOn _ _ hwork => exact .inl (h.mono hwork.subset)
  | @seen now k work cst ec hmon hk =>
    rcases hasHealth_append h with hold | hnew
    · rw [hmon]
      exact .inl hold
    · obtain ⟨rfl, hready⟩ := ready_of_collected hnew
      refine .inr ?_
      show Ready ((s.setSvc i fun svc => (collectSvc now i svc cst ec).1).svc i).state
      rw [s.svc_setSvc_eq _ hk]
      exact hready
  | health hmon | launch hmon =>
    rw [hmon]
    exact .inl (h.mono (List.subset_cons_self _ _))
  | skip hmon | delete hmon | commit hmon | failed hmon | takeBack hmon | giveUp hmon
  | undoStop hmon | undoDelete hmon =>
    rw [hmon]
    exact .inl h

/-- While a service is being checked, all that is written to it is a health
result or a restart. -/
theorem write_of_hasHealth {s : Sys} (hin : InOrder s) (hlim : Limited s) {a : Action} {i : Nat}
    (h : HasHealth s.mon.work i) {w : Write} (hw : writeOf s a = some (i, w)) :
    w.isRestart = true ∨ ∃ hc, w = .health hc := by
  have hoff : s.cli.monOff ≠ true := by
    intro hc
    rw [hin.monOff (.inl hc)] at h
    obtain ⟨cid, hcmd, name, hmem⟩ := h
    cases hmem
  cases writeOf_move hw with
  | restarting => exact .inl rfl
  | starting hcli | runFailed hcli | started hcli | cleared hcli =>
    rw [hcli] at hoff
    exact absurd rfl hoff
  | rstFailed => exact .inl rfl
  | restarted => exact .inl rfl
  | collected hmon =>
    -- the pass is past the services it has taken up
    obtain ⟨cid, hcmd, name, hmem⟩ := h
    rw [hmon] at hmem
    exact absurd (hlim.order _ _ _ hmon _ hmem) (Nat.lt_irrefl _)
  | health => exact .inr ⟨_, rfl⟩
  | commit => exact .inl rfl
  | monFailed => exact .inl rfl

theorem cliStep_work {o : Answers} {s s' : Sys} (hs : cliStep o s = some s') :
    s'.mon.work ⊆ s.mon.work := by
  cases cliStep_move hs with
  | runSpawn =>
    show (if o.spawn = true then _ else _ : MonPc).work ⊆ _
    split <;> exact List.nil_subset _
  | _ => exact List.Subset.refl _

/-- An item after a step was there before, or the service has just been found up. -/
theorem sysStep_hasHealth {s s' : Sys} {a : Action} (hs : sysStep s a = some s') {i : Nat}
    (h : HasHealth s'.mon.work i) : HasHealth s.mon.work i ∨ Ready (s'.svc i).state := by
  cases sysStep_move hs with
  | refused => exact .inl h
  | run => exact .inl h
  | restart => exact .inl h
  | down => exact .inl h
  | cli hs' => exact .inl (h.mono (cliStep_work hs'))
  | mon hs' => exact monStep_hasHealth hs' h
  | user => exact .inl h

theorem lt_of_hasHealth {s : Sys} (hslots : Slots s) {i : Nat} (h : HasHealth s.mon.work i) :
    i < s.spec.count := by
  obtain ⟨cid, hcmd, name, hmem⟩ := h
  refine hslots.mon i ?_
  have hmap : i ∈ s.mon.work.map WorkItem.svc := List.mem_map_of_mem (f := WorkItem.svc) hmem
  unfold MonPc.slots
  split
  · rename_i hmon
    rw [hmon] at hmap
    exact List.mem_cons_of_mem _ hmap
  · exact hmap

/-- A result is applied for the item in hand. -/
theorem hasHealth_of_write {s : Sys} {a : Action} {i : Nat} {hc : Int}
    (hw : writeOf s a = some (i, .health hc)) : HasHealth s.mon.work i := by
  cases writeOf_move hw with
  | health hmon =>
    rw [hmon]
    exact ⟨_, _, _, List.mem_cons_self⟩

/-! ## Every run -/

theorem OnTime.step {t t' : Observed} {a : Action} (h : OnTime t) (hin : InOrder t.sys)
    (hlim : Limited t.sys) (hslots : Slots t.sys) (hsettled : Settled t a)
    (hs : obsStep t a = some t') : OnTime t' := by
  rcases obsStep_cases hs with ⟨hws, hspec⟩ | ⟨parsed, -, hacc, hws⟩
  · -- by what the step writes: nothing, the service `j`, or, with `orch_run`, all of them
    cases hw : writeOf t.sys a with
    | none =>
      rw [hw, Option.toList_none, List.append_nil] at hws
      have hsvc : ∀ i, t'.sys.svc i = t.sys.svc i := by
        intro i
        rw [Sys.svc, hspec, hw]
        rfl
      constructor
      · intro i
        rw [hws, hsvc]
        exact h.openDown i
      · intro i hh
        rcases sysStep_hasHealth (sysStep_of_obsStep hs) hh with hold | hready
        · rw [hws, hsvc]
          exact h.item i hold
        · exact .inl hready
    | some w =>
      obtain ⟨j, w⟩ := w
      rw [hw, Option.toList_some] at hws
      have hsvc : ∀ i, t'.sys.svc i = (t.sys.setSvc j w.apply).svc i := by
        intro i
        rw [Sys.svc, hspec, hw]
        rfl
      constructor
      · intro i
        rw [hws, hsvc, writesTo_snoc]
        by_cases hji : j = i
        · subst hji
          rw [if_pos rfl]
          by_cases hj : j < t.sys.spec.count
          · rw [t.sys.svc_setSvc_eq _ hj]
            -- a result that opens the circuit is only written to a service that is down
            exact openDown_write w (fun hc hwc => hsettled j hc (hwc ▸ hw)) (h.openDown j)
          · intro _
            rw [Sys.svc_of_ge (by rw [count_setSvc]; exact Nat.le_of_not_lt hj)]
            simp [Ready, Service.zero]
        · rw [if_neg hji, t.sys.svc_setSvc_ne _ (Ne.symm hji)]
          exact h.openDown i
      · intro i hh
        rcases sysStep_hasHealth (sysStep_of_obsStep hs) hh with hold | hready
        · rw [hws, hsvc, writesTo_snoc]
          by_cases hji : j = i
          · subst hji
            rw [if_pos rfl, t.sys.svc_setSvc_eq _ (lt_of_hasHealth hslots hold)]
            exact item_write (write_of_hasHealth hin hlim hold hw) (h.item j hold)
          · rw [if_neg hji, t.sys.svc_setSvc_ne _ (Ne.symm hji)]
            exact h.item i hold
        · exact .inl hready
  · constructor
    · intro i hopen
      rw [hws] at hopen
      cases hopen
    · intro i hh
      -- no monitor is left of the run before, so no probe is under way
      have hoff : t.sys.mon = .off := hin.monOff (.inr ⟨hacc.idle, hacc.stopped⟩)
      rw [hacc.mon, hoff] at hh
      obtain ⟨cid, hcmd, name, hmem⟩ := hh
      cases hmem

/-- In a state reached on time, a result does no harm exactly when the last
restart of its service is complete or the result has no effect. -/
theorem OnTime.keepsDown_iff {t t' : Observed} {a : Action} (h : OnTime t) (hslots : Slots t.sys)
    (hs : obsStep t a = some t') : KeepsDown t a ↔ Settled t a := by
  have hstate : ∀ i hc, writeOf t.sys a = some (i, .health hc) →
      t'.sys.svc i = applyHealth hc (t.sys.svc i) := by
    intro i hc hw
    rcases obsStep_cases hs with ⟨-, hspec⟩ | ⟨parsed, rfl, -, -⟩
    · have hlt := lt_of_hasHealth hslots (hasHealth_of_write hw)
      rw [Sys.svc, hspec, hw]
      exact t.sys.svc_setSvc_eq _ hlt
    · cases hw
  constructor
  · intro hkeeps i hc hw heffect
    by_contra hopen
    have hdown := h.openDown i (Bool.eq_true_of_not_eq_false hopen)
    refine hdown (hkeeps i hc hw t' hs fun hsame => ?_)
    rcases applyHealth_state hc (t.sys.svc i) with ⟨hnone, -⟩ | ⟨-, hup⟩
    · exact hnone heffect
    · rw [hstate i hc hw] at hsame
      exact hdown (hsame ▸ hup)
  · intro hsettled i hc hw t'' hs' hchange
    obtain rfl : t' = t'' := Option.some.inj (hs.symm.trans hs')
    rcases applyHealth_state hc (t.sys.svc i) with ⟨-, hsame⟩ | ⟨heffect, -⟩
    · exact absurd (hstate i hc hw ▸ hsame) hchange
    · refine (h.item i (hasHealth_of_write hw)).resolve_right fun hopen => ?_
      rw [hsettled i hc hw heffect] at hopen
      cases hopen

/-- A run in which every result meets `Settled` is on time. -/
theorem onTime_of_run {m : Manager} {as : List Action} {t : Observed}
    (hrun : RunOk obsStep Settled (Observed.init m) as t) :
    InOrder t.sys ∧ Limited t.sys ∧ Slots t.sys ∧ OnTime t :=
  hrun.invariant (I := fun t => InOrder t.sys ∧ Limited t.sys ∧ Slots t.sys ∧ OnTime t)
    (fun t a t' h hok hs => by
      have hsys := sysStep_of_obsStep hs
      obtain ⟨hin, hlim, hslots, hon⟩ := h
      exact ⟨hin.step hsys, hlim.step hin hsys, hslots.step hin hsys,
        hon.step hin hlim hslots hok hs⟩)
    ⟨inOrder_init m, limited_init m, slots_init m, onTime_init m⟩

/-- Health results never change the state of a service that is not RUNNING,
HEALTHY or UNHEALTHY in exactly the runs in which no result takes effect while
the last restart of its service is under way or has failed. -/
theorem health_results_keep_down (m : Manager) (as : List Action) (t : Observed) :
    RunOk obsStep KeepsDown (Observed.init m) as t ↔
    RunOk obsStep Settled (Observed.init m) as t := by
  constructor
  · intro hrun
    induction hrun with
    | nil => exact .nil _
    | snoc _ hok hs ih =>
      obtain ⟨-, -, hslots, hon⟩ := onTime_of_run ih
      exact .snoc ih ((hon.keepsDown_iff hslots hs).mp hok) hs
  · intro hrun
    induction hrun with
    | nil => exact .nil _
    | snoc hprev hok hs ih =>
      obtain ⟨-, -, hslots, hon⟩ := onTime_of_run hprev
      exact .snoc ih ((hon.keepsDown_iff hslots hs).mpr hok) hs

/-! ## A restart during a check -/

/-- The monitor's step on a check that succeeds. -/
def pingOk : Action := .mon { Answers.clean (.ofNat 1) with now := 10 }

/-- The check of `web` has been made, then `web` is restarted by hand. -/
def lateRestart : List Action := List.replicate 5 pingOk ++ [.restart (bytes "web")]

theorem late_result_resurrects :
    ∃ t t', Runs obsStep (Observed.init .init) (pingUp ++ lateRestart) t ∧
      obsStep t pingOk = some t' ∧ (t.sys.svc 0).state = .restarting ∧
      (t'.sys.svc 0).state = .healthy ∧ ¬ KeepsDown t pingOk := by
  obtain ⟨t, hrun, hdown, hw, hnext⟩ := exists_runOk_of_exec obsStep (fun _ _ => True)
    (Observed.init .init) (pingUp ++ lateRestart)
    (fun t => (t.sys.svc 0).state = .restarting ∧ writeOf t.sys pingOk = some (0, .health 0) ∧
      (obsStep t pingOk).any (fun t' => (t'.sys.svc 0).state = .healthy) = true)
    (by decide +kernel)
  obtain ⟨t', hs, hup⟩ := (Option.any_eq_true _ _).mp hnext
  have hup' : (t'.sys.svc 0).state = .healthy := of_decide_eq_true hup
  refine ⟨t, t', hrun, hs, hdown, hup', fun hkeeps => ?_⟩
  have hready := hkeeps 0 0 hw t' hs (by rw [hdown, hup']; exact nofun)
  rw [hdown] at hready
  exact absurd hready (by simp [Ready])

end ContainerSim.Orch
