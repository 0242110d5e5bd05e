import ContainerSim.Orch.Calls
import ContainerSim.Orch.Shutdown

/-!
# The restart policy is never exceeded

The monitor decides in the collection pass and carries the restart out later,
without the lock. The invariant (`Limited`) relates the decisions, carried out
or still pending, to `restart_count`: a service that can be decided on has as
many completed restarts as decisions, and any service has at most one more
decision than completed restarts. A pending health result counts as being able
to make the service ready again.
-/

namespace ContainerSim.Orch

open Lib ContainerSim.Runtime

/-! ## Decisions -/

/-- The exit that a restart item answers. -/
def WorkItem.exit? : WorkItem → Option ExitSeen
  | .health _ _ _ _ => none
  | .restart job cid _ ec => some ⟨job.svc, cid, ec⟩

/-- Exits the monitor has decided to answer by a restart: those answered, then
those still to be answered. -/
def decided (s : Sys) : List ExitSeen :=
  s.log.restarts ++ s.mon.work.filterMap WorkItem.exit?

/-- Decisions about service `i`. -/
def decisions (l : List ExitSeen) (i : Nat) : Int := (l.countP fun e => e.svc = i : Nat)

def HasHealth (work : List WorkItem) (i : Nat) : Prop :=
  ∃ cid hcmd name, WorkItem.health i cid hcmd name ∈ work

theorem HasHealth.mono {work work' : List WorkItem} {i : Nat} (h : HasHealth work' i)
    (hsub : work' ⊆ work) : HasHealth work i := by
  obtain ⟨cid, hcmd, name, hmem⟩ := h
  exact ⟨cid, hcmd, name, hsub hmem⟩

/-- The policy of the service allows a restart after an exit with this code. -/
def Allowed (svc : Service) (code : Int) : Prop :=
  svc.restart = .always ∨ (svc.restart = .onFailure ∧ code ≠ 0)

theorem decisions_le_of_sublist {l l' : List ExitSeen} (h : l'.Sublist l) (i : Nat) :
    decisions l' i ≤ decisions l i := by
  have := h.countP_le (p := fun e => decide (e.svc = i))
  simp only [decisions]
  omega

theorem decisions_snoc (l : List ExitSeen) (e : ExitSeen) (i : Nat) :
    decisions (l ++ [e]) i = decisions l i + if e.svc = i then 1 else 0 := by
  simp only [decisions, List.countP_append, List.countP_singleton]
  split <;> simp_all

/-! ## The collection pass -/

/-- The pass goes by without a decision. -/
structure Passed (i : Nat) (svc : Service) (r : Service × List WorkItem) : Prop where
  kept : ∃ state lastHealthCheck, r.1 = { svc with state, lastHealthCheck }
  ready : Ready r.1.state → Ready svc.state
  items : ∀ w ∈ r.2, w.exit? = none ∧ w.svc = i ∧ Ready svc.state

theorem collectSvc_decides (now : Int) (i : Nat) (svc : Service) (cst : ContainerState)
    (ec : Int) :
    (exitNoticed svc cst = true ∧ wantsRestart svc ec = true ∧
      collectSvc now i svc cst ec = ({ svc with state := .restarting },
        [.restart (.ofService i svc) svc.containerId (backoffOf svc.restartCount) ec])) ∨
    Passed i svc (collectSvc now i svc cst ec) := by
  have hmove := collectSvc_move now i svc cst ec
  generalize collectSvc now i svc cst ec = r at hmove ⊢
  cases hmove with
  | restart hexit hwant => exact .inl ⟨hexit, hwant, rfl⟩
  | ended hstate =>
    exact .inr ⟨⟨_, _, rfl⟩, fun hready => absurd hready hstate, List.forall_mem_nil _⟩
  | check hready =>
    refine .inr ⟨⟨_, _, rfl⟩, id, fun w hw => ?_⟩
    rw [List.mem_singleton.mp hw]
    exact ⟨rfl, rfl, hready⟩
  | up hready => exact .inr ⟨⟨_, _, rfl⟩, fun _ => hready, List.forall_mem_nil _⟩
  | nothing => exact .inr ⟨⟨_, _, rfl⟩, id, List.forall_mem_nil _⟩

theorem ready_of_exitNoticed {svc : Service} {cst : ContainerState} (hskip : skipped svc = false)
    (hexit : exitNoticed svc cst = true) : Ready svc.state := by
  simp only [skipped, decide_eq_false_iff_not, not_or] at hskip
  simp only [exitNoticed, decide_eq_true_eq] at hexit
  obtain ⟨-, hpend, hstart, hrest⟩ := hskip
  obtain ⟨-, hstop, hfail⟩ := hexit
  unfold Ready
  cases hst : svc.state with
  | running => exact .inl rfl
  | healthy => exact .inr (.inl rfl)
  | unhealthy => exact .inr (.inr rfl)
  | pending => exact absurd hst hpend
  | starting => exact absurd hst hstart
  | restarting => exact absurd hst hrest
  | stopped => exact absurd hst hstop
  | failed => exact absurd hst hfail

/-! ## The invariant -/

structure Limited (s : Sys) : Prop where
  /-- every decision answers an exit of its own -/
  seen : (decided s).Sublist s.log.exits
  allowed : ∀ e ∈ decided s, Allowed (s.svc e.svc) e.code
  bound : ∀ i, 0 < (s.svc i).maxRestarts → decisions (decided s) i ≤ (s.svc i).maxRestarts
  slack : ∀ i, decisions (decided s) i ≤ (s.svc i).restartCount + 1
  ready : ∀ i, Ready (s.svc i).state → decisions (decided s) i ≤ (s.svc i).restartCount
  health : ∀ i, HasHealth s.mon.work i → decisions (decided s) i ≤ (s.svc i).restartCount
  /-- the pass appends its items in the order of the services -/
  order : ∀ now k work, s.mon = .collect now k work → ∀ w ∈ work, w.svc < k
  starting : s.cli.inRun = true → decided s = []
  counts : ∀ i, 0 ≤ (s.svc i).restartCount

/-- What a step that decides nothing may do to a service. -/
structure SvcStep (decided : Int) (svc svc' : Service) : Prop where
  restart : svc'.restart = svc.restart
  maxRestarts : svc'.maxRestarts = svc.maxRestarts
  count : svc.restartCount ≤ svc'.restartCount
  ready : Ready svc'.state → decided ≤ svc'.restartCount

theorem Limited.svc_refl {s : Sys} (h : Limited s) (i : Nat) :
    SvcStep (decisions (decided s) i) (s.svc i) (s.svc i) :=
  ⟨rfl, rfl, Int.le_refl _, h.ready i⟩

/-- A step that decides nothing. -/
theorem Limited.weaken {s s' : Sys} (h : Limited s) (hdec : (decided s').Sublist (decided s))
    (hexits : s.log.exits.Sublist s'.log.exits)
    (hhealth : ∀ i, HasHealth s'.mon.work i → decisions (decided s) i ≤ (s'.svc i).restartCount)
    (hsvc : ∀ i, SvcStep (decisions (decided s) i) (s.svc i) (s'.svc i))
    (horder : ∀ now k work, s'.mon = .collect now k work → ∀ w ∈ work, w.svc < k)
    (hstart : s'.cli.inRun = true → s.cli.inRun = true) : Limited s' := by
  have hle := decisions_le_of_sublist hdec
  constructor
  · exact hdec.trans (h.seen.trans hexits)
  · intro e he
    rw [Allowed, (hsvc e.svc).restart]
    exact h.allowed e (hdec.subset he)
  · intro i hpos
    rw [(hsvc i).maxRestarts] at hpos ⊢
    exact (hle i).trans (h.bound i hpos)
  · intro i
    have hs := h.slack i
    have hc := (hsvc i).count
    have := hle i
    omega
  · intro i hready
    exact (hle i).trans ((hsvc i).ready hready)
  · intro i hh
    exact (hle i).trans (hhealth i hh)
  · exact horder
  · intro hr
    rw [h.starting (hstart hr)] at hdec
    exact List.sublist_nil.mp hdec
  · intro i
    exact (h.counts i).trans (hsvc i).count

/-- A single service is updated. -/
theorem Limited.svc_set {s : Sys} (h : Limited s) (i : Nat) {f : Service → Service}
    (hf : SvcStep (decisions (decided s) i) (s.svc i) (f (s.svc i))) (j : Nat) :
    SvcStep (decisions (decided s) j) (s.svc j) ((s.setSvc i f).svc j) := by
  rcases s.svc_setSvc i j f with hj | ⟨rfl, hj⟩
  · rw [hj]
    exact h.svc_refl j
  · rw [hj]
    exact hf

theorem SvcStep.idle {d : Int} {svc svc' : Service} (hr : svc'.restart = svc.restart)
    (hm : svc'.maxRestarts = svc.maxRestarts) (hc : svc'.restartCount = svc.restartCount)
    (hs : ¬ Ready svc'.state) : SvcStep d svc svc' :=
  ⟨hr, hm, Int.le_of_eq hc.symm, fun hready => absurd hready hs⟩

theorem svcStep_restarted {d : Int} {svc : Service} (hd : d ≤ svc.restartCount + 1) (new : Bytes)
    (now : Int) : SvcStep d svc (restarted new now svc) :=
  ⟨rfl, rfl, Int.le_add_one (Int.le_refl _), fun _ => hd⟩

theorem svcStep_failed (d : Int) (svc : Service) : SvcStep d svc (failedSvc svc) :=
  SvcStep.idle rfl rfl rfl (by simp [Ready, failedSvc])

theorem applyHealth_restartCount (hc : Int) (svc : Service) :
    (applyHealth hc svc).restartCount = svc.restartCount ∧
    (applyHealth hc svc).restart = svc.restart ∧
    (applyHealth hc svc).maxRestarts = svc.maxRestarts := by
  unfold applyHealth
  split <;> exact ⟨rfl, rfl, rfl⟩

theorem limited_init (m : Manager) : Limited (Sys.init m) where
  seen := List.Sublist.refl _
  allowed := nofun
  bound := fun _ h => absurd h (by simp [Sys.svc, Sys.init, Service.zero])
  slack := fun _ => show (0 : Int) ≤ 0 + 1 by omega
  ready := fun _ h => absurd h (by simp [Ready, Sys.svc, Sys.init, Service.zero])
  health := nofun
  order := nofun
  starting := nofun
  counts := fun _ => Int.le_refl _

/-! ## The monitor's steps -/

/-- Only items are dropped; nothing else that matters changes. -/
theorem Limited.drop {s s' : Sys} (h : Limited s) (hrestarts : s'.log.restarts = s.log.restarts)
    (hexits : s'.log.exits = s.log.exits) (hspec : s'.spec = s.spec) (hcli : s'.cli = s.cli)
    (hwork : s'.mon.work.Sublist s.mon.work)
    (horder : ∀ now k work, s'.mon = .collect now k work → ∀ w ∈ work, w.svc < k) :
    Limited s' := by
  have hsvc : ∀ i, s'.svc i = s.svc i := fun i => by rw [Sys.svc, Sys.svc, hspec]
  refine h.weaken ?_ (by rw [hexits]) (fun i hh => ?_) (fun i => ?_) horder (by rw [hcli]; exact id)
  · rw [decided, decided, hrestarts]
    exact (List.Sublist.refl _).append (hwork.filterMap _)
  · rw [hsvc]
    exact h.health i (hh.mono hwork.subset)
  · rw [hsvc]
    exact h.svc_refl i

/-- What the pass leaves when it decides to restart service `k`. -/
theorem collectedSys_restart {now : Int} {k : Nat} {work : List WorkItem} {s : Sys}
    (hmon : s.mon = .collect now k work) (hk : k < s.spec.count) {cst : ContainerState} {ec : Int}
    (heq : collectSvc now k (s.svc k) cst ec = ({ s.svc k with state := .restarting },
      [.restart (.ofService k (s.svc k)) (s.svc k).containerId
        (backoffOf (s.svc k).restartCount) ec])) (m : Manager) :
    decided (collectedSys now k work cst ec m s) =
      decided s ++ [⟨k, (s.svc k).containerId, ec⟩] ∧
    (collectedSys now k work cst ec m s).svc k = { s.svc k with state := .restarting } ∧
    (∀ i, i ≠ k → (collectedSys now k work cst ec m s).svc i = s.svc i) ∧
    ∀ i, HasHealth (collectedSys now k work cst ec m s).mon.work i → HasHealth s.mon.work i := by
  refine ⟨?_, ?_, fun i hi => ?_, ?_⟩
  · simp only [decided, collectedSys, hmon, heq, MonPc.work, List.filterMap_append,
      List.append_assoc]
    rfl
  · have hset := s.svc_setSvc_eq (fun svc => (collectSvc now k svc cst ec).1) hk
    simp only [heq] at hset
    exact hset
  · exact s.svc_setSvc_ne (fun svc => (collectSvc now k svc cst ec).1) hi
  · rintro i ⟨cid, hcmd, name, hmem⟩
    simp only [collectedSys, heq, MonPc.work, List.mem_append, List.mem_singleton] at hmem
    rw [hmon]
    exact ⟨cid, hcmd, name, hmem.resolve_right fun h => by cases h⟩

/-- The items so far are for earlier services. -/
theorem Limited.health_lt {now : Int} {k i : Nat} {work : List WorkItem} {s : Sys}
    (h : Limited s) (hmon : s.mon = .collect now k work) (hh : HasHealth s.mon.work i) : i < k := by
  obtain ⟨cid, hcmd, name, hmem⟩ := hh
  rw [hmon] at hmem
  exact h.order now k work hmon _ hmem

/-- The pass decides to restart service `k`. -/
theorem Limited.collectedRestart {now : Int} {k : Nat} {work : List WorkItem} {s : Sys}
    (h : Limited s) (hmon : s.mon = .collect now k work) (hrun : s.cli.inRun ≠ true)
    (hk : k < s.spec.count) (hskip : skipped (s.svc k) = false) {cst : ContainerState} {ec : Int}
    (hexit : exitNoticed (s.svc k) cst = true) (hwant : wantsRestart (s.svc k) ec = true)
    (heq : collectSvc now k (s.svc k) cst ec = ({ s.svc k with state := .restarting },
      [.restart (.ofService k (s.svc k)) (s.svc k).containerId
        (backoffOf (s.svc k).restartCount) ec])) (m : Manager) :
    Limited (collectedSys now k work cst ec m s) := by
  have hready := h.ready k (ready_of_exitNoticed hskip hexit)
  obtain ⟨hdec, hsvck, hsvcne, hitems⟩ := collectedSys_restart hmon hk heq m
  -- the pass adds one decision, and it is about `k`
  have hself : decisions (decided (collectedSys now k work cst ec m s)) k =
      decisions (decided s) k + 1 := by
    rw [hdec, decisions_snoc, if_pos rfl]
  have hother : ∀ i, i ≠ k → decisions (decided (collectedSys now k work cst ec m s)) i =
      decisions (decided s) i := by
    intro i hi
    rw [hdec, decisions_snoc, if_neg (Ne.symm hi), Int.add_zero]
  simp only [wantsRestart, decide_eq_true_eq] at hwant
  constructor
  · rw [hdec]
    show List.Sublist _ (s.log.exits ++ if exitNoticed (s.svc k) cst = true then _ else [])
    rw [hexit, if_pos rfl]
    exact h.seen.append (List.Sublist.refl _)
  · intro e he
    rw [hdec] at he
    have hsame : ∀ i, ((collectedSys now k work cst ec m s).svc i).restart = (s.svc i).restart := by
      intro i
      by_cases hi : i = k
      · rw [hi, hsvck]
      · rw [hsvcne i hi]
    rw [Allowed, hsame]
    rcases List.mem_append.mp he with he | he
    · exact h.allowed e he
    · rw [List.mem_singleton.mp he]
      exact hwant.1
  · intro i
    by_cases hi : i = k
    · subst hi
      rw [hself, hsvck]
      show 0 < (s.svc i).maxRestarts → decisions (decided s) i + 1 ≤ (s.svc i).maxRestarts
      intro hpos
      -- the code has just compared the count, which is no less than the decisions
      rcases hwant.2 with hzero | hlt
      · omega
      · omega
    · rw [hother i hi, hsvcne i hi]
      exact h.bound i
  · intro i
    by_cases hi : i = k
    · subst hi
      rw [hself, hsvck]
      show decisions (decided s) i + 1 ≤ (s.svc i).restartCount + 1
      omega
    · rw [hother i hi, hsvcne i hi]
      exact h.slack i
  · intro i
    by_cases hi : i = k
    · subst hi
      rw [hsvck]
      intro hr
      simp [Ready] at hr
    · rw [hother i hi, hsvcne i hi]
      exact h.ready i
  · intro i hh
    have hi : i ≠ k := Nat.ne_of_lt (h.health_lt hmon (hitems i hh))
    rw [hother i hi, hsvcne i hi]
    exact h.health i (hitems i hh)
  · intro now' k' work' hcol w hw
    simp only [collectedSys, heq, MonPc.collect.injEq] at hcol
    obtain ⟨-, rfl, rfl⟩ := hcol
    rcases List.mem_append.mp hw with hw | hw
    · exact Nat.lt_succ_of_lt (h.order now k work hmon w hw)
    · rw [List.mem_singleton.mp hw]
      exact Nat.lt_succ_self k
  · exact fun hr => absurd hr hrun
  · intro i
    by_cases hi : i = k
    · subst hi
      rw [hsvck]
      exact h.counts i
    · rw [hsvcne i hi]
      exact h.counts i

/-- What the pass leaves when it decides nothing. -/
theorem collectedSys_passed {now : Int} {k : Nat} {work : List WorkItem} {s : Sys}
    (hmon : s.mon = .collect now k work) {cst : ContainerState} {ec : Int}
    (hpass : Passed k (s.svc k) (collectSvc now k (s.svc k) cst ec)) (m : Manager) :
    decided (collectedSys now k work cst ec m s) = decided s ∧
    ∀ i, HasHealth (collectedSys now k work cst ec m s).mon.work i →
      HasHealth s.mon.work i ∨ Ready (s.svc i).state := by
  constructor
  · have hnil : (collectSvc now k (s.svc k) cst ec).2.filterMap WorkItem.exit? = [] := by
      rw [List.filterMap_eq_nil_iff]
      exact fun w hw => (hpass.items w hw).1
    simp only [decided, collectedSys, hmon, MonPc.work, List.filterMap_append, hnil,
      List.append_nil]
  · rintro i ⟨cid, hcmd, name, hmem⟩
    rcases List.mem_append.mp hmem with hmem | hmem
    · refine .inl ⟨cid, hcmd, name, ?_⟩
      rw [hmon]
      exact hmem
    · obtain ⟨-, hik, hready⟩ := hpass.items _ hmem
      have hik' : i = k := hik
      rw [hik']
      exact .inr hready

/-- The pass looks at service `k` and decides nothing. -/
theorem Limited.collectedOther {now : Int} {k : Nat} {work : List WorkItem} {s : Sys}
    (h : Limited s) (hmon : s.mon = .collect now k work) {cst : ContainerState} {ec : Int}
    (hpass : Passed k (s.svc k) (collectSvc now k (s.svc k) cst ec)) (m : Manager) :
    Limited (collectedSys now k work cst ec m s) := by
  obtain ⟨hdec, hhealth⟩ := collectedSys_passed hmon hpass m
  have hsvc : SvcStep (decisions (decided s) k) (s.svc k)
      (collectSvc now k (s.svc k) cst ec).1 := by
    have hready := fun hr => h.ready k (hpass.ready hr)
    obtain ⟨state, lastHealthCheck, heq⟩ := hpass.kept
    rw [heq] at hready ⊢
    exact ⟨rfl, rfl, Int.le_refl _, hready⟩
  have hstep := fun j => h.svc_set k (f := fun svc => (collectSvc now k svc cst ec).1) hsvc j
  refine h.weaken (by rw [hdec]) (List.sublist_append_left _ _) (fun i hh => ?_) hstep ?_
    (fun hr => hr)
  · refine Int.le_trans ?_ (hstep i).count
    exact (hhealth i hh).elim (h.health i) (h.ready i)
  · intro now' k' work' hcol w hw
    simp only [collectedSys, MonPc.collect.injEq] at hcol
    obtain ⟨-, rfl, rfl⟩ := hcol
    rcases List.mem_append.mp hw with hw | hw
    · exact Nat.lt_succ_of_lt (h.order now k work hmon w hw)
    · rw [(hpass.items w hw).2.1]
      exact Nat.lt_succ_self k

theorem Limited.collected {now : Int} {k : Nat} {work : List WorkItem} {s : Sys} (h : Limited s)
    (hmon : s.mon = .collect now k work) (hrun : s.cli.inRun ≠ true) (hk : k < s.spec.count)
    (hskip : skipped (s.svc k) = false) (cst : ContainerState) (ec : Int) (m : Manager) :
    Limited (collectedSys now k work cst ec m s) := by
  rcases collectSvc_decides now k (s.svc k) cst ec with ⟨hexit, hwant, heq⟩ | hpass
  · exact h.collectedRestart hmon hrun hk hskip hexit hwant heq m
  · exact h.collectedOther hmon hpass m

/-- While the pass is on its way no `orch_run` is. -/
theorem InOrder.noRun {s : Sys} (hin : InOrder s) (hon : s.mon ≠ .off) : s.cli.inRun ≠ true := by
  intro hr
  refine hon (hin.monOff (.inl ?_))
  cases hc : s.cli <;> rw [hc] at hr <;> first | rfl | cases hr

/-- The item at hand is done with, and the service it is for is updated. -/
theorem Limited.finish {s s' : Sys} (h : Limited s) {i : Nat} {f : Service → Service}
    (hspec : s'.spec = (s.setSvc i f).spec) (hlog : s'.log = s.log) (hcli : s'.cli = s.cli)
    (hf : SvcStep (decisions (decided s) i) (s.svc i) (f (s.svc i)))
    (hwork : s'.mon.work.Sublist s.mon.work) (hmon : ∀ now k work, s'.mon ≠ .collect now k work) :
    Limited s' := by
  have hsvc : ∀ j, s'.svc j = (s.setSvc i f).svc j := fun j => by rw [Sys.svc, Sys.svc, hspec]
  have hstep : ∀ j, SvcStep (decisions (decided s) j) (s.svc j) (s'.svc j) := by
    intro j
    rw [hsvc]
    exact h.svc_set i hf j
  refine h.weaken ?_ (by rw [hlog]) (fun j hh => ?_) hstep
    (fun now k work hcol => absurd hcol (hmon now k work)) (by rw [hcli]; exact id)
  · rw [decided, decided, hlog]
    exact (List.Sublist.refl _).append (hwork.filterMap _)
  · exact (h.health j (hh.mono hwork.subset)).trans (hstep j).count

theorem Limited.mon {o : Answers} {s s' : Sys} (h : Limited s) (hin : InOrder s)
    (hs : monStep o s = some s') : Limited s' := by
  cases monStep_move hs with
  | @goOn m mon _ _ hwork hbetween =>
    refine h.drop rfl rfl rfl rfl hwork fun now k work hcol w hw => ?_
    obtain rfl : mon = .collect now k work := hcol
    rw [MonPc.between_collect hbetween] at hw
    exact absurd hw List.not_mem_nil
  | skip hmon =>
    -- the next position has no item yet
    refine h.drop rfl rfl rfl rfl (by rw [hmon]; exact List.Sublist.refl _) ?_
    rintro _ _ _ heq w hw
    cases heq
    exact Nat.lt_succ_of_lt (h.order _ _ _ hmon w hw)
  | seen hmon hi hskip =>
    exact h.collected hmon (hin.noRun (by rw [hmon]; exact nofun)) hi hskip _ _ _
  | @health svc cid hcmd name hc rest hmon =>
    -- its service has no decision ahead of its count
    have hhealth : HasHealth s.mon.work svc := by
      rw [hmon]
      exact ⟨cid, hcmd, name, List.mem_cons_self⟩
    obtain ⟨hcount, hrestart, hmax⟩ := applyHealth_restartCount hc (s.svc svc)
    refine h.finish (i := svc) rfl rfl rfl
      ⟨hrestart, hmax, Int.le_of_eq hcount.symm, fun _ => ?_⟩ ?_ nofun
    · rw [hcount]
      exact h.health svc hhealth
    · rw [hmon]
      exact List.sublist_cons_self _ _
  | delete hmon | takeBack hmon | giveUp hmon | undoStop hmon | undoDelete hmon =>
    refine h.drop rfl rfl rfl rfl ?_ nofun
    rw [hmon]
    exact List.Sublist.refl _
  | launch hmon =>
    -- the decision moves to the ones carried out
    refine h.weaken ?_ (List.Sublist.refl _) (fun i hh => ?_) (fun i => h.svc_refl i) nofun
      (fun hr => hr)
    · rw [decided, decided, hmon]
      show ((s.log.restarts ++ [_]) ++ List.filterMap WorkItem.exit? _).Sublist _
      rw [List.append_assoc]
      exact List.Sublist.refl _
    · refine h.health i (hh.mono ?_)
      rw [hmon]
      exact List.subset_cons_self _ _
  | commit hmon =>
    refine h.finish rfl rfl rfl (svcStep_restarted (h.slack _) _ o.now) ?_ nofun
    rw [hmon]
    exact List.Sublist.refl _
  | failed hmon =>
    refine h.finish rfl rfl rfl (svcStep_failed _ _) ?_ nofun
    rw [hmon]
    exact List.Sublist.refl _

/-! ## The command line's steps -/

/-- The monitor and its log are left alone. -/
theorem Limited.apart {s s' : Sys} (h : Limited s) (hmon : s'.mon = s.mon)
    (hrestarts : s'.log.restarts = s.log.restarts) (hexits : s'.log.exits = s.log.exits)
    (hsvc : ∀ i, SvcStep (decisions (decided s) i) (s.svc i) (s'.svc i))
    (hstart : s'.cli.inRun = true → s.cli.inRun = true) : Limited s' := by
  refine h.weaken ?_ (by rw [hexits]) (fun i hh => ?_) hsvc ?_ hstart
  · rw [decided, decided, hmon, hrestarts]
  · rw [hmon] at hh
    exact (h.health i hh).trans (hsvc i).count
  · rw [hmon]
    exact h.order

theorem Limited.cli {o : Answers} {s s' : Sys} (h : Limited s) (hin : InOrder s)
    (hs : cliStep o s = some s') : Limited s' := by
  have hsame : ∀ i, SvcStep (decisions (decided s) i) (s.svc i) (s.svc i) := h.svc_refl
  cases cliStep_move hs with
  | runNext hcli =>
    refine h.apart rfl rfl rfl (h.svc_set _ (f := startingSvc) ?_) (fun _ => by rw [hcli]; rfl)
    exact SvcStep.idle rfl rfl rfl (by simp [Ready, startingSvc])
  | runLaunch hcli => exact h.apart rfl rfl rfl hsame (fun _ => by rw [hcli]; rfl)
  | runFailed hcli =>
    exact h.apart rfl rfl rfl (h.svc_set _ (svcStep_failed _ _)) (fun _ => by rw [hcli]; rfl)
  | @runStore i id todo hcli =>
    -- `orch_run` has started a service: nothing has been decided yet
    refine h.apart rfl rfl rfl (h.svc_set i (f := startedSvc id o.now) ?_)
      (fun _ => by rw [hcli]; rfl)
    refine ⟨rfl, rfl, Int.le_refl _, fun _ => ?_⟩
    rw [h.starting (by rw [hcli]; rfl)]
    exact h.counts i
  | runSpawn hcli =>
    have hoff : s.mon = .off := hin.monOff (.inl (by rw [hcli]; rfl))
    have hwork : MonPc.work (if o.spawn = true then .sleep else .off) = s.mon.work := by
      rw [hoff]
      split <;> rfl
    refine h.weaken ?_ (List.Sublist.refl _) (fun i hh => ?_) hsame ?_ (fun hr => by cases hr)
    · rw [decided, decided]
      show (_ ++ (MonPc.work (if o.spawn = true then _ else _)).filterMap _).Sublist _
      rw [hwork]
    · exact h.health i (hwork ▸ hh)
    · intro now k work hcol
      simp only at hcol
      split at hcol
      · cases hcol
      · cases hcol
  | rstFailed =>
    exact h.apart rfl rfl rfl (h.svc_set _ (svcStep_failed _ _)) (fun hr => by cases hr)
  | rstStore =>
    exact h.apart rfl rfl rfl (h.svc_set _ (svcStep_restarted (h.slack _) _ o.now))
      (fun hr => by cases hr)
  | downDelete =>
    refine h.apart rfl rfl rfl (fun j => h.svc_set _ (f := clearedSvc) ?_ j) (fun hr => by cases hr)
    exact SvcStep.idle rfl rfl rfl (by simp [Ready, clearedSvc])
  | runEnd | rstStop | rstDelete | rstLaunch | downJoin | downEnd | downSkip | downStop =>
    exact h.apart rfl rfl rfl hsame (fun hr => by cases hr)

/-- A new spec: nothing has been decided and nothing is ready. -/
theorem limited_begun {s : Sys} (parsed : ParsedSpec) (hoff : s.mon = .off) :
    Limited (begun parsed s) := by
  have hnil : decided (begun parsed s) = [] := by
    rw [decided, begun, hoff]
    rfl
  have hsvc : ∀ i, ((begun parsed s).svc i).state = .pending ∧
      ((begun parsed s).svc i).restartCount = 0 := by
    intro i
    simp only [Sys.svc, begun]
    cases hget : parsed.spec.services[i]? with
    | none => exact ⟨rfl, rfl⟩
    | some svc =>
      obtain ⟨-, hst, hcount, -⟩ := parsed.fresh svc (List.mem_of_getElem? hget)
      exact ⟨hst, hcount⟩
  have hzero : ∀ i, decisions [] i = 0 := fun _ => rfl
  constructor
  · rw [hnil]; exact List.nil_sublist _
  · rw [hnil]; exact List.forall_mem_nil _
  · intro i hpos; rw [hnil, hzero]; omega
  · intro i; rw [hnil, hzero, (hsvc i).2]; omega
  · intro i; rw [hnil, hzero, (hsvc i).2]; exact fun _ => Int.le_refl _
  · intro i; rw [hnil, hzero, (hsvc i).2]; exact fun _ => Int.le_refl _
  · intro now k work hcollect
    change s.mon = _ at hcollect
    rw [hoff] at hcollect
    cases hcollect
  · exact fun _ => hnil
  · intro i; rw [(hsvc i).2]

theorem Limited.step {s s' : Sys} {a : Action} (h : Limited s) (hin : InOrder s)
    (hs : sysStep s a = some s') : Limited s' := by
  cases sysStep_move hs with
  | refused => exact h
  | run hidle hstopped => exact limited_begun _ (hin.monOff (.inr ⟨hidle, hstopped⟩))
  | restart =>
    refine h.apart rfl rfl rfl (h.svc_set _ (f := restartingSvc) ?_) (fun hr => by cases hr)
    exact SvcStep.idle rfl rfl rfl (by simp [Ready, restartingSvc])
  | down => exact h.apart rfl rfl rfl h.svc_refl (fun hr => by cases hr)
  | cli hs => exact h.cli hin hs
  | mon hs => exact h.mon hin hs
  | user => exact h.apart rfl rfl rfl h.svc_refl (fun hr => hr)

theorem limited_of_runs {m : Manager} {as : List Action} {s : Sys}
    (hrun : Runs sysStep (Sys.init m) as s) : InOrder s ∧ Limited s :=
  hrun.invariant (I := fun s => InOrder s ∧ Limited s)
    (fun _ _ _ h _ hs => ⟨h.1.step hs, h.2.step h.1 hs⟩) ⟨inOrder_init m, limited_init m⟩

end ContainerSim.Orch
