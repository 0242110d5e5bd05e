import ContainerSim.Orch.RestartOnce
import ContainerSim.Orch.Slots

/-!
# No container is left behind

A container made for a service is reachable for `orch_down` through its id: in
the spec, or held by the thread that has started it (`Tracked`). A step may
drop an id once no container lives under it (`Gone`). The one place that drops
an id without looking is the end of a restart: it overwrites `container_id`
although another restart of the service may have entered a container of its own
since (`overwrites`). The health check does compare the id before it writes.
-/

namespace ContainerSim.Orch

open Lib ContainerSim.Runtime

/-! ## The condition -/

/-- `container_stop` succeeds, and so does the stop inside a failing start. -/
def Answers.stops (o : Answers) : Bool :=
  o.stop.works 5 && o.stop.works 1 && o.run.start.stop.works 0

/-- A restart is about to write its container over one that the service got
after the restart had read `container_id`. -/
def overwrites (s : Sys) : Action → Bool
  | .cli _ =>
    match s.cli with
    | .rstStore i old (some _) => (s.svc i).containerId ≠ old
    | _ => false
  | .mon _ =>
    match s.mon with
    | .commit job cid _ _ (some _) _ => s.running && (s.svc job.svc).containerId ≠ cid
    | _ => false
  | _ => false

/-- Only the two threads work, and stops succeed. -/
def undisturbed : Action → Bool
  | .cli o => o.stops
  | .mon o => o.stops
  | .user _ => false
  | _ => true

theorem undisturbed_isUser {a : Action} (h : undisturbed a = true) : a.isUser = false := by
  cases a with
  | user op => cases h
  | _ => rfl

/-! ## Containers made for services -/

def Ours (s : Sys) (c : Container) : Prop := ∃ x ∈ s.log.owned, x.ptr = c.ptr

/-- No container of the orchestrator lives under this id, and none will. -/
structure Gone (s : Sys) (id : Bytes) : Prop where
  past : Past s.mgr id
  dead : ∀ c ∈ s.mgr.list, Ours s c → c.id = id → ¬ Live c

def Tracked (s : Sys) (id : Bytes) : Prop := (∃ i, (s.svc i).containerId = id) ∨ InFlight s id

def WorkItem.cid? : WorkItem → Option Bytes
  | .health _ _ _ _ => none
  | .restart _ cid _ _ => some cid

/-- Ids the monitor is about to give up. -/
def MonPc.doomed : MonPc → List Bytes
  | .commit _ cid _ _ _ rest => cid :: rest.filterMap WorkItem.cid?
  | .undoDelete _ new rest => new :: rest.filterMap WorkItem.cid?
  | mon => mon.work.filterMap WorkItem.cid?

def CliPc.doomed : CliPc → List Bytes
  | .rstDelete _ old => [old]
  | .rstLaunch _ old => [old]
  | .rstStore _ old _ => [old]
  | _ => []

/-- Ids whose containers have been seen to have ended or have been stopped. -/
def Doomed (s : Sys) (id : Bytes) : Prop :=
  id ∈ s.mon.doomed ∨ id ∈ s.cli.doomed ∨
    ∃ i todo, s.cli = .downDelete i todo ∧ (s.svc i).containerId = id

/-- The only record under its id, with a process exactly when its state says so. -/
structure Sole (m : Manager) (c : Container) : Prop where
  id : c.id ≠ []
  pidOk : PidOk c
  only : ∀ d ∈ m.list, d.id = c.id → d.ptr = c.ptr

structure Accounted (s : Sys) : Prop where
  lt : ∀ x ∈ s.log.owned, x.ptr < s.mgr.heap
  sole : ∀ c ∈ s.mgr.list, Ours s c → Sole s.mgr c
  held : ∀ c ∈ s.mgr.list, Ours s c → Live c → Tracked s c.id
  gone : ∀ id, Doomed s id → Gone s id
  old : ∀ job id, s.cli = .rstStop job id → Past s.mgr id

theorem accounted_init (m : Manager) : Accounted (Sys.init m) where
  lt := nofun
  sole := fun _ _ h => by obtain ⟨x, hx, -⟩ := h; exact absurd hx List.not_mem_nil
  held := fun _ _ h => by obtain ⟨x, hx, -⟩ := h; exact absurd hx List.not_mem_nil
  gone := fun id h => by
    rcases h with h | h | ⟨i, todo, h, -⟩
    · exact absurd h List.not_mem_nil
    · exact absurd h List.not_mem_nil
    · cases h
  old := nofun

/-! ## Where a record comes from -/

/-- A record after a step of the orchestrator: what has become of one from
before, or the one just launched. -/
theorem later_sysStep {s s' : Sys} {a : Action} (hwf : Wf s.mgr) (hu : a.isUser = false)
    (hs : sysStep s a = some s') {c' : Container} (hc' : c' ∈ s'.mgr.list) :
    (∃ c ∈ s.mgr.list, Later c c') ∨
    ∃ o job, launches s a = some (o, job) ∧
      c'.ident = newIdent (job.containerSpec o.resolve) s.mgr ∧ PidOk c' := by
  cases hl : launches s a with
  | some r =>
    obtain ⟨o, job⟩ := r
    rw [(sysStep_launch hs hl).1] at hc'
    rcases (callLaunch_grows o job hwf).later c' hc' with hold | hnew
    · exact .inl hold
    · exact .inr ⟨o, job, rfl, hnew⟩
  | none => exact .inl ((sysStep_quiet hwf hs hl hu).1.later c' hc')

/-- A record from before that is ours now was ours then. -/
theorem Ours.back {s s' : Sys} {a : Action} (hwf : Wf s.mgr) (hs : sysStep s a = some s')
    {c c' : Container} (hc : c ∈ s.mgr.list) (hl : Later c c') (h : Ours s' c') : Ours s c := by
  obtain ⟨x, hx, hp⟩ := h
  rcases (owned_sysStep hwf hs).2 x hx with hx | ⟨o, job, -, rfl⟩
  · exact ⟨x, hx, hp.trans hl.same.ptr⟩
  · -- the new address is not one of an old record
    exact absurd (hp.trans hl.same.ptr).symm (Nat.ne_of_lt (hwf.heap c hc))

theorem stops_of_launches {s : Sys} {a : Action} {o : Answers} {job : Job}
    (hok : undisturbed a = true) (hl : launches s a = some (o, job)) : o.stops = true := by
  cases a with
  | cli o' =>
    have hoo : o' = o := by
      simp only [launches] at hl
      split at hl
      · exact congrArg Prod.fst (Option.some.inj hl)
      · exact congrArg Prod.fst (Option.some.inj hl)
      · cases hl
    exact hoo ▸ hok
  | mon o' =>
    have hoo : o' = o := by
      simp only [launches] at hl
      split at hl
      · exact congrArg Prod.fst (Option.some.inj hl)
      · cases hl
    exact hoo ▸ hok
  | _ => cases hl

/-- A launched container runs only if the call has returned its id. -/
theorem launched_live {s s' : Sys} {a : Action} {o : Answers} {job : Job} (hwf : Wf s.mgr)
    (hstops : o.stops = true) (hl : launches s a = some (o, job)) (hs : sysStep s a = some s')
    {c' : Container} (hc' : c' ∈ s'.mgr.list)
    (hk : c'.ident = newIdent (job.containerSpec o.resolve) s.mgr) (hlive : Live c') :
    (callLaunch o job s).2 = some c'.id := by
  simp only [Answers.stops, Bool.and_eq_true] at hstops
  rw [(sysStep_launch hs hl).1] at hc'
  cases hnew : (callLaunch o job s).2 with
  | none =>
    obtain ⟨c, hc, hlater⟩ := containerRunBackground_fail hwf hstops.2 _ hnew c' hc' hlive
    have hptr : c'.ptr = s.mgr.heap := congrArg Ident.ptr hk
    exact absurd (hlater.same.ptr.symm.trans hptr) (Nat.ne_of_lt (hwf.heap c hc))
  | some id =>
    rw [(containerRunBackground_some hnew).1]
    exact congrArg some (congrArg Ident.id hk).symm

/-- A call that has returned an id leaves it in flight. -/
theorem inFlight_launch {s s' : Sys} {a : Action} {o : Answers} {job : Job} {id : Bytes}
    (hl : launches s a = some (o, job)) (hs : sysStep s a = some s')
    (hnew : (callLaunch o job s).2 = some id) : InFlight s' id := by
  cases a with
  | cli o' =>
    simp only [sysStep, cliStep] at hs
    simp only [launches] at hl
    cases hcli : s.cli with
    | runLaunch job' todo =>
      rw [hcli] at hl hs
      cases hl
      cases hs
      exact .inl hnew
    | rstLaunch job' old =>
      rw [hcli] at hl hs
      cases hl
      cases hs
      exact .inl hnew
    | _ => rw [hcli] at hl; cases hl
  | mon o' =>
    simp only [sysStep, monStep] at hs
    simp only [launches] at hl
    cases hmon : s.mon with
    | launch job' cid b ec rest =>
      rw [hmon] at hl hs
      cases hl
      cases hs
      exact .inr hnew
    | _ => rw [hmon] at hl; cases hl
  | _ => cases hl

/-- What is gone stays gone. -/
theorem Gone.step {s s' : Sys} {a : Action} {id : Bytes} (h : Gone s id) (hwf : Wf s.mgr)
    (hu : a.isUser = false) (hs : sysStep s a = some s') : Gone s' id := by
  refine ⟨h.past.mono (seq_le_sysStep hwf hs hu), fun c' hc' hours hid hlive => ?_⟩
  rcases later_sysStep hwf hu hs hc' with ⟨c, hc, hl⟩ | ⟨o, job, -, hk, -⟩
  · exact h.dead c hc (hours.back hwf hs hc hl) (hl.same.id.symm.trans hid) (hl.live hlive)
  · have hnew : c'.id = containerId s.mgr.nextSequence := congrArg Ident.id hk
    exact h.past _ (Nat.le_refl _) (hid.symm.trans hnew)

theorem Accounted.soleStep {s s' : Sys} {a : Action} (h : Accounted s) (hwf : Wf s.mgr)
    (hu : a.isUser = false) (hs : sysStep s a = some s') {c' : Container}
    (hc' : c' ∈ s'.mgr.list) (hours : Ours s' c') : Sole s'.mgr c' := by
  have hfresh : ∀ c ∈ s.mgr.list, c.id ≠ containerId s.mgr.nextSequence :=
    fun c hc => hwf.fresh c hc _ (Nat.le_refl _)
  rcases later_sysStep hwf hu hs hc' with ⟨c, hc, hl⟩ | ⟨o, job, -, hk, hok⟩
  · have hsole := h.sole c hc (hours.back hwf hs hc hl)
    refine ⟨hl.same.id ▸ hsole.id, hl.pidOk hsole.pidOk, fun d' hd' hid => ?_⟩
    rcases later_sysStep hwf hu hs hd' with ⟨d, hd, hl'⟩ | ⟨o', job', -, hk', -⟩
    · rw [hl'.same.ptr, hl.same.ptr]
      exact hsole.only d hd (hl'.same.id.symm.trans (hid.trans hl.same.id))
    · have hnew : d'.id = containerId s.mgr.nextSequence := congrArg Ident.id hk'
      exact absurd (hl.same.id.symm.trans (hid.symm.trans hnew)) (hfresh c hc)
  · have hnew : c'.id = containerId s.mgr.nextSequence := congrArg Ident.id hk
    refine ⟨hnew ▸ containerId_ne_nil _, hok, fun d' hd' hid => ?_⟩
    rcases later_sysStep hwf hu hs hd' with ⟨d, hd, hl'⟩ | ⟨o', job', -, hk', -⟩
    · exact absurd (hl'.same.id.symm.trans (hid.trans hnew)) (hfresh d hd)
    · exact (congrArg Ident.ptr hk').trans (congrArg Ident.ptr hk).symm

/-- After a stop, no container of ours lives under the id. -/
theorem Accounted.gone_of_stop {s s' : Sys} (h : Accounted s) (hwf : Wf s.mgr) {id : Bytes}
    (hpast : Past s.mgr id) {o : Answers} {i : Nat} {t : Int}
    (hworks : o.stop.works t = true) (hmgr : s'.mgr = (callStop o i id t s).mgr)
    (howned : s'.log.owned = s.log.owned) : Gone s' id := by
  have hq : Quiet s.mgr s'.mgr := hmgr ▸ containerStop_quiet hwf o.poll o.stop id t
  refine ⟨hpast.mono (Nat.le_of_eq hq.seq.symm), fun c' hc' hours hid => ?_⟩
  obtain ⟨c, hc, hl⟩ := hq.later c' hc'
  have hcours : Ours s c := by
    obtain ⟨x, hx, hp⟩ := hours
    exact ⟨x, howned ▸ hx, hp.trans hl.same.ptr⟩
  have hsole := h.sole c hc hcours
  have hcid : c.id = id := hl.same.id.symm.trans hid
  have honly : ∀ d ∈ s.mgr.list, d.id = id → d.ptr = c.ptr :=
    fun d hd hdid => hsole.only d hd (hdid.trans hcid.symm)
  rw [hmgr] at hc'
  refine containerStop_dead hworks (hcid ▸ hsole.id) o.poll ?_ ?_ c' hc' hid
  · intro d hd e he hdid heid
    exact (honly d hd hdid).trans (honly e he heid).symm
  · intro d hd hdid
    rw [hwf.ptrs.eq hc hd (honly d hd hdid)]
    exact hsole.pidOk

/-- A container that the pass sees STOPPED is not live. -/
theorem Accounted.gone_of_seen {s s' : Sys} (h : Accounted s) (hwf : Wf s.mgr) {id : Bytes}
    (hpast : Past s.mgr id) {poll : PollOutcome} {ec : Int}
    (hinfo : containerGetInfo poll id s.mgr = (s'.mgr, some (.stopped, ec)))
    (howned : s'.log.owned = s.log.owned) : Gone s' id := by
  have hmgr : s'.mgr = pollStates poll s.mgr := (congrArg Prod.fst hinfo).symm
  have hq : Quiet s.mgr s'.mgr := hmgr ▸ pollStates_quiet poll s.mgr
  refine ⟨hpast.mono (Nat.le_of_eq hq.seq.symm), fun c' hc' hours hid => ?_⟩
  have hseen : (findContainer s'.mgr.list id).map (fun c => (c.state, c.exitCode)) =
      some (.stopped, ec) := hmgr ▸ congrArg Prod.snd hinfo
  obtain ⟨d', hfind, hst⟩ := Option.map_eq_some_iff.mp hseen
  have hd' := (mem_of_findContainer hfind).1
  have hdid := findContainer_id ⟨c', hc', hid⟩ hfind
  obtain ⟨c, hc, hl⟩ := hq.later c' hc'
  obtain ⟨d, hd, hl'⟩ := hq.later d' hd'
  have hcours : Ours s c := by
    obtain ⟨x, hx, hp⟩ := hours
    exact ⟨x, howned ▸ hx, hp.trans hl.same.ptr⟩
  -- the record found is this one
  have hptr : d'.ptr = c'.ptr := by
    rw [hl'.same.ptr, hl.same.ptr]
    refine (h.sole c hc hcours).only d hd ?_
    exact (hl'.same.id.symm.trans hdid).trans (hid.symm.trans hl.same.id)
  rw [← (hwf.quiet hq).ptrs.eq hc' hd' hptr]
  exact not_live_stopped (congrArg Prod.fst hst)

/-! ## What a step does to the ids -/

/-- A step drops only ids that are doomed, and dooms only ids that are gone. -/
structure Keeps (s s' : Sys) : Prop where
  tracked : ∀ id, id ≠ [] → Tracked s id → Tracked s' id ∨ Doomed s id
  doomed : ∀ id, Doomed s' id → Doomed s id ∨ Gone s' id

theorem doomed_of_work {mon mon' : MonPc} (h : mon'.doomed = mon'.work.filterMap WorkItem.cid?)
    (hsub : mon'.work ⊆ mon.work) : ∀ id ∈ mon'.doomed, id ∈ mon.doomed := by
  intro id hid
  rw [h] at hid
  obtain ⟨w, hw, hwid⟩ := List.mem_filterMap.mp hid
  have hmem : id ∈ mon.work.filterMap WorkItem.cid? := List.mem_filterMap.mpr ⟨w, hsub hw, hwid⟩
  unfold MonPc.doomed
  split
  · exact List.mem_cons_of_mem _ hmem
  · exact List.mem_cons_of_mem _ hmem
  · exact hmem

/-- A step of the monitor, by what it does to the spec and to its own ids. -/
theorem Keeps.of_mon {s s' : Sys} (hf : MonFrame s s') (hin : InOrder s)
    (hids : ∀ i, (s'.svc i).containerId = (s.svc i).containerId ∨
      Doomed s (s.svc i).containerId)
    (hnew : ∀ id, s.mon.new = some id → Tracked s' id ∨ Doomed s id)
    (hdoomed : ∀ id ∈ s'.mon.doomed, id ∈ s.mon.doomed ∨ Gone s' id) : Keeps s s' := by
  constructor
  · rintro id - (⟨i, hi⟩ | hc | hm)
    · rcases hids i with hsame | hd
      · exact .inl (.inl ⟨i, hsame.trans hi⟩)
      · rw [hi] at hd
        exact .inr hd
    · refine .inl (.inr (.inl ?_))
      rw [hf.cli]
      exact hc
    · exact hnew id hm
  · rintro id (hm | hc | ⟨i, todo, hc, -⟩)
    · exact (hdoomed id hm).imp_left .inl
    · rw [hf.cli] at hc
      exact .inl (.inr (.inl hc))
    · -- the monitor has been joined before `orch_down` gets there
      rw [hf.cli] at hc
      exact absurd (hin.monOff (.inl (by rw [hc]; rfl))) hf.on

theorem collectSvc_cid (now : Int) (i : Nat) (svc : Service) (cst : ContainerState) (ec : Int) :
    ∀ id ∈ (collectSvc now i svc cst ec).2.filterMap WorkItem.cid?,
      id = svc.containerId ∧ cst = .stopped := by
  intro id hid
  obtain ⟨w, hw, hwid⟩ := List.mem_filterMap.mp hid
  have hmove := collectSvc_move now i svc cst ec
  generalize collectSvc now i svc cst ec = r at hmove hw
  cases hmove with
  | restart hexit =>
    rw [List.mem_singleton.mp hw] at hwid
    simp only [exitNoticed, decide_eq_true_eq] at hexit
    exact ⟨(Option.some.inj hwid).symm, hexit.1⟩
  | check =>
    rw [List.mem_singleton.mp hw] at hwid
    cases hwid
  | ended | up | nothing => exact absurd hw List.not_mem_nil

theorem MonPc.between_doomed {mon : MonPc} (h : mon.between = true) :
    mon.doomed = mon.work.filterMap WorkItem.cid? := by
  cases mon with
  | commit | undoDelete => cases h
  | _ => rfl

theorem monStep_keeps {o : Answers} {s s' : Sys} (hs : monStep o s = some s') (hin : InOrder s)
    (h : Accounted s) (hwf : Wf s.mgr) (honce : Once s) (hslots : Slots s)
    (hstops : o.stops = true) (hover : overwrites s (.mon o) = false) : Keeps s s' := by
  have hf := monStep_frame hs
  have hold : ∀ s' : Sys, s.mon.new = none → ∀ id, s.mon.new = some id →
      Tracked s' id ∨ Doomed s id := by
    intro s' hnone id hid
    rw [hnone] at hid
    cases hid
  cases monStep_move hs with
  | goOn _ hnew hwork hbetween =>
    refine .of_mon hf hin (fun i => .inl rfl) (hold _ hnew) fun id hid => .inl ?_
    exact doomed_of_work (MonPc.between_doomed hbetween) hwork.subset id hid
  | skip hmon =>
    refine .of_mon hf hin (fun i => .inl rfl) (hold _ (by rw [hmon]; rfl)) fun id hid => .inl ?_
    rw [hmon]
    exact hid
  | @seen now k work cst ec hmon hk hskip hinfo =>
    refine .of_mon hf hin (fun i => .inl ?_) (hold _ (by rw [hmon]; rfl)) fun id hid => ?_
    · exact containerId_setSvc s k i
        (f := fun svc => (collectSvc now k svc cst ec).1)
        fun svc => collectSvc_containerId now k svc cst ec
    · change id ∈ (work ++ (collectSvc now k (s.svc k) cst ec).2).filterMap WorkItem.cid? at hid
      rw [List.filterMap_append] at hid
      rcases List.mem_append.mp hid with hid | hid
      · rw [hmon]
        exact .inl hid
      · obtain ⟨rfl, rfl⟩ := collectSvc_cid now k (s.svc k) cst ec id hid
        exact .inr (h.gone_of_seen hwf (honce.ids k) hinfo rfl)
  | @health svc cid hcmd name hc rest hmon =>
    refine .of_mon hf hin (fun i => .inl ?_) (hold _ (by rw [hmon]; rfl)) fun id hid => .inl ?_
    · refine containerId_setSvc s svc i fun svc => ?_
      unfold applyHealth
      split <;> rfl
    · rw [hmon]
      exact hid
  | delete hmon | launch hmon =>
    -- the item's id is given up from here on, as it was before
    refine .of_mon hf hin (fun i => .inl rfl) (hold _ (by rw [hmon]; rfl)) fun id hid => .inl ?_
    rw [hmon]
    exact hid
  | @commit job cid new backoffS ec rest hmon hrun =>
    -- the id it drops is the one the restart was for
    have hlt : job.svc < s.spec.count := by
      refine hslots.mon _ ?_
      rw [hmon]
      exact List.mem_cons_self
    have hcid : (s.svc job.svc).containerId = cid := by
      simp only [overwrites, hmon, hrun, Bool.true_and, decide_eq_false_iff_not,
        not_not] at hover
      exact hover
    have hset := s.svc_setSvc_eq (restarted new o.now) hlt
    refine .of_mon hf hin (fun i => ?_) (fun id hid => .inl (.inl ⟨job.svc, ?_⟩))
      fun id hid => .inl ?_
    · by_cases hi : i = job.svc
      · refine .inr (.inl ?_)
        rw [hi, hcid, hmon]
        exact List.mem_cons_self
      · exact .inl (congrArg Service.containerId (s.svc_setSvc_ne (restarted new o.now) hi))
    · rw [hmon] at hid
      exact (congrArg Service.containerId hset).trans (Option.some.inj hid)
    · rw [hmon]
      exact List.mem_cons_of_mem _ hid
  | @failed job cid backoffS ec rest hmon =>
    refine .of_mon hf hin (fun i => .inl ?_) (hold _ (by rw [hmon]; rfl)) fun id hid => .inl ?_
    · exact containerId_setSvc s job.svc i fun _ => rfl
    · rw [hmon]
      exact List.mem_cons_of_mem _ hid
  | takeBack hmon =>
    refine .of_mon hf hin (fun i => .inl rfl) (fun id hid => ?_) fun id hid => .inl ?_
    · rw [hmon] at hid
      exact .inl (.inr (.inr hid))
    · rw [hmon]
      exact List.mem_cons_of_mem _ hid
  | giveUp hmon =>
    refine .of_mon hf hin (fun i => .inl rfl) (hold _ (by rw [hmon]; rfl)) fun id hid => .inl ?_
    rw [hmon]
    exact List.mem_cons_of_mem _ hid
  | @undoStop svc new rest hmon =>
    simp only [Answers.stops, Bool.and_eq_true] at hstops
    refine .of_mon hf hin (fun i => .inl rfl) (fun id hid => ?_) fun id hid => ?_
    · rw [hmon] at hid
      exact .inl (.inr (.inr hid))
    · rcases List.mem_cons.mp hid with rfl | hid
      · have hpast := (honce.new id (.inr (by rw [hmon]; rfl))).2.1
        exact .inr (h.gone_of_stop (i := svc) hwf hpast hstops.1.2 rfl rfl)
      · rw [hmon]
        exact .inl hid
  | undoDelete hmon =>
    refine .of_mon hf hin (fun i => .inl rfl) (fun id hid => .inr (.inl ?_)) fun id hid => .inl ?_
    · rw [hmon] at hid ⊢
      rw [← Option.some.inj hid]
      exact List.mem_cons_self
    · rw [hmon]
      exact List.mem_cons_of_mem _ hid

/-- A step of the command line, by what it does to the spec and to its own ids. -/
theorem Keeps.of_cli {s s' : Sys}
    (hmon : s'.mon.new = s.mon.new ∧ ∀ id ∈ s'.mon.doomed, id ∈ s.mon.doomed)
    (hids : ∀ i, (s.svc i).containerId ≠ [] →
      (s'.svc i).containerId = (s.svc i).containerId ∨ Doomed s (s.svc i).containerId)
    (hnew : ∀ id, s.cli.new = some id → Tracked s' id)
    (hdoomed : ∀ id ∈ s'.cli.doomed, Doomed s id ∨ Gone s' id)
    (hdown : ∀ i todo, s'.cli = .downDelete i todo → Gone s' (s'.svc i).containerId) :
    Keeps s s' := by
  constructor
  · rintro id hne (⟨i, rfl⟩ | hc | hm)
    · exact (hids i hne).imp_left fun hsame => .inl ⟨i, hsame⟩
    · exact .inl (hnew id hc)
    · refine .inl (.inr (.inr ?_))
      rw [hmon.1]
      exact hm
  · rintro id (hm | hc | ⟨i, todo, hc, rfl⟩)
    · exact .inl (.inl (hmon.2 id hm))
    · exact hdoomed id hc
    · exact .inr (hdown i todo hc)

/-- The loop of `orch_down` is at a delete. -/
def CliPc.deleting : CliPc → Bool
  | .downDelete .. => true
  | _ => false

/-- A step of the command line with no container of its own to enter or to drop. -/
theorem Keeps.of_plain {s s' : Sys} (hmon : s'.mon = s.mon)
    (hids : ∀ i, (s.svc i).containerId ≠ [] → (s'.svc i).containerId = (s.svc i).containerId)
    (hnew : s.cli.new = none) (hdoomed : s'.cli.doomed ⊆ s.cli.doomed)
    (hdel : s'.cli.deleting = false) : Keeps s s' := by
  refine .of_cli ?_ (fun i hi => .inl (hids i hi)) (fun id hid => ?_)
    (fun id hid => .inl (.inr (.inl (hdoomed hid)))) (fun i todo hcli => ?_)
  · rw [hmon]
    exact ⟨rfl, fun _ hid => hid⟩
  · rw [hnew] at hid
    cases hid
  · rw [hcli] at hdel
    cases hdel

theorem tracked_of_stored {s s' : Sys} {i : Nat} {f : Service → Service} {id : Bytes}
    (hspec : s'.spec = (s.setSvc i f).spec) (hi : i < s.spec.count)
    (hf : (f (s.svc i)).containerId = id) : Tracked s' id := by
  refine .inl ⟨i, ?_⟩
  rw [← hf, ← s.svc_setSvc_eq f hi, Sys.svc, Sys.svc, hspec]

theorem cliStep_keeps {o : Answers} {s s' : Sys} (hs : cliStep o s = some s') (hin : InOrder s)
    (h : Accounted s) (hwf : Wf s.mgr) (honce : Once s) (hslots : Slots s)
    (hstops : o.stops = true) (hover : overwrites s (.cli o) = false) : Keeps s s' := by
  have hmon : s.mon.new = s.mon.new ∧ ∀ id ∈ s.mon.doomed, id ∈ s.mon.doomed :=
    ⟨rfl, fun _ hid => hid⟩
  simp only [Answers.stops, Bool.and_eq_true] at hstops
  cases cliStep_move hs with
  | runEnd hcli | runLaunch hcli | downJoin hcli | downEnd hcli | downSkip hcli =>
    exact .of_plain rfl (fun _ _ => rfl) (by rw [hcli]; rfl) (List.nil_subset _) rfl
  | runNext hcli =>
    exact .of_plain rfl (fun j _ => containerId_setSvc s _ j fun _ => rfl) (by rw [hcli]; rfl)
      (List.nil_subset _) rfl
  | runFailed hcli | rstFailed hcli =>
    exact .of_plain rfl (fun j _ => containerId_setSvc s _ j fun _ => rfl) (by rw [hcli]; rfl)
      (List.nil_subset _) rfl
  | rstDelete hcli | rstLaunch hcli =>
    refine .of_plain rfl (fun _ _ => rfl) (by rw [hcli]; rfl) ?_ rfl
    rw [hcli]
    exact fun _ hid => hid
  | @runStore i id todo hcli =>
    -- the service had no container yet
    obtain ⟨hlt, hempty⟩ := hslots.order i (by rw [hcli]; exact List.mem_cons_self)
    refine .of_cli hmon (fun j hj => .inl ?_) (fun id' hid => ?_) (List.forall_mem_nil _) ?_
    · have hji : j ≠ i := fun hji => hj (hji ▸ hempty)
      exact congrArg Service.containerId (s.svc_setSvc_ne (startedSvc id o.now) hji)
    · rw [hcli] at hid
      exact tracked_of_stored (f := startedSvc id o.now) rfl hlt (Option.some.inj hid)
    · intro j todo' heq
      cases heq
  | runSpawn hcli =>
    have hoff := hin.monOff (.inl (by rw [hcli]; rfl))
    refine .of_cli ?_ (fun _ _ => .inl rfl) (fun id hid => ?_) (List.forall_mem_nil _) ?_
    · rw [hoff]
      show (if o.spawn = true then _ else _ : MonPc).new = _ ∧
        ∀ id ∈ (if o.spawn = true then _ else _ : MonPc).doomed, _
      split
      · exact ⟨rfl, List.forall_mem_nil _⟩
      · exact ⟨rfl, List.forall_mem_nil _⟩
    · rw [hcli] at hid
      cases hid
    · intro j todo heq
      cases heq
  | @rstStop job old hcli =>
    refine .of_cli hmon (fun _ _ => .inl rfl) (fun id hid => ?_) (fun id hid => ?_) ?_
    · rw [hcli] at hid
      cases hid
    · rw [List.mem_singleton.mp hid]
      exact .inr (h.gone_of_stop (i := job.svc) hwf (h.old job old hcli) hstops.1.1 rfl rfl)
    · intro j todo heq
      cases heq
  | @rstStore i old id hcli =>
    -- the end of a restart: the id it drops is the one it was for
    have hlt : i < s.spec.count :=
      hslots.cli i (by rw [hcli]; exact List.mem_singleton_self _)
    have hold : (s.svc i).containerId = old := by
      simp only [overwrites, hcli, decide_eq_false_iff_not, not_not] at hover
      exact hover
    refine .of_cli hmon (fun j _ => ?_) (fun id' hid => ?_) (List.forall_mem_nil _) ?_
    · by_cases hji : j = i
      · rw [hji, hold]
        refine .inr (.inr (.inl ?_))
        rw [hcli]
        exact List.mem_singleton_self _
      · exact .inl (congrArg Service.containerId (s.svc_setSvc_ne (restarted id o.now) hji))
    · rw [hcli] at hid
      exact tracked_of_stored (f := restarted id o.now) rfl hlt (Option.some.inj hid)
    · intro j todo heq
      cases heq
  | @downStop i todo hcli =>
    refine .of_cli hmon (fun _ _ => .inl rfl) (fun id hid => ?_) (List.forall_mem_nil _) ?_
    · rw [hcli] at hid
      cases hid
    · intro j todo' heq
      cases heq
      refine h.gone_of_stop (i := i) (o := o) (t := 5) hwf (honce.ids i) hstops.1.1 ?_ rfl
      rfl
  | @downDelete i todo hcli =>
    refine .of_cli hmon (fun j hj => ?_) (fun id hid => ?_) (List.forall_mem_nil _) ?_
    · by_cases hji : j = i
      · exact .inr (.inr (.inr ⟨i, todo, hcli, by rw [hji]⟩))
      · exact .inl (congrArg Service.containerId
          ((callDelete o i (s.svc i).containerId s).svc_setSvc_ne clearedSvc hji))
    · rw [hcli] at hid
      cases hid
    · intro j todo' heq
      cases heq

theorem sysStep_keeps {s s' : Sys} {a : Action} (hs : sysStep s a = some s') (hin : InOrder s)
    (h : Accounted s) (hwf : Wf s.mgr) (honce : Once s) (hslots : Slots s)
    (hok : undisturbed a = true) (hover : overwrites s a = false) : Keeps s s' := by
  cases sysStep_move hs with
  | refused => exact ⟨fun id _ ht => .inl ht, fun id hd => .inl hd⟩
  | run hidle hstopped =>
    -- a new spec replaces one in which no service has a container
    refine .of_plain rfl (fun i hi => ?_) (by rw [hidle]; rfl) (List.nil_subset _) rfl
    have hheld := hslots.down i hi
    rw [mayHold, hidle] at hheld
    exact absurd hheld (Bool.eq_false_iff.mp hstopped)
  | restart hidle =>
    exact .of_plain rfl (fun j _ => containerId_setSvc s _ j fun _ => rfl) (by rw [hidle]; rfl)
      (List.nil_subset _) rfl
  | down hidle => exact .of_plain rfl (fun _ _ => rfl) (by rw [hidle]; rfl) (List.nil_subset _) rfl
  | cli hs' => exact cliStep_keeps hs' hin h hwf honce hslots hok hover
  | mon hs' => exact monStep_keeps hs' hin h hwf honce hslots hok hover
  | user => cases hok

/-- A stop of `orch_restart_service` is for an id that was in the spec. -/
theorem rstStop_step {s s' : Sys} {a : Action} (hs : sysStep s a = some s') {job : Job}
    {id : Bytes} (h : s'.cli = .rstStop job id) :
    s.cli = .rstStop job id ∨ ∃ i, (s.svc i).containerId = id := by
  cases sysStep_move hs with
  | refused => exact .inl h
  | run => cases h
  | @restart name i =>
    cases h
    exact .inr ⟨i, rfl⟩
  | down => cases h
  | cli hs' => cases cliStep_move hs' <;> cases h
  | mon hs' => exact .inl ((monStep_frame hs').cli ▸ h)
  | user => exact .inl h

theorem Accounted.step {s s' : Sys} {a : Action} (h : Accounted s) (hwf : Wf s.mgr)
    (hin : InOrder s) (honce : Once s) (hslots : Slots s) (hok : undisturbed a = true)
    (hover : overwrites s a = false) (hs : sysStep s a = some s') : Accounted s' := by
  have hu := undisturbed_isUser hok
  have hkeeps := sysStep_keeps hs hin h hwf honce hslots hok hover
  have hgone : ∀ id, Doomed s' id → Gone s' id := by
    intro id hd
    rcases hkeeps.doomed id hd with hd | hg
    · exact (h.gone id hd).step hwf hu hs
    · exact hg
  refine ⟨owned_lt_step hwf hs h.lt, fun c' hc' => h.soleStep hwf hu hs hc', ?_, hgone, ?_⟩
  · intro c' hc' hours hlive
    rcases later_sysStep hwf hu hs hc' with ⟨c, hc, hl⟩ | ⟨o, job, hlaunch, hk, -⟩
    · have hcours := hours.back hwf hs hc hl
      have hne := (h.sole c hc hcours).id
      rw [hl.same.id]
      rcases hkeeps.tracked c.id hne (h.held c hc hcours (hl.live hlive)) with ht | hd
      · exact ht
      · -- it would be gone
        exact absurd (hl.live hlive) ((h.gone c.id hd).dead c hc hcours rfl)
    · have hstops := stops_of_launches hok hlaunch
      exact .inr (inFlight_launch hlaunch hs (launched_live hwf hstops hlaunch hs hc' hk hlive))
  · intro job id hcli
    have hseq := seq_le_sysStep hwf hs hu
    rcases rstStop_step hs hcli with hold | ⟨i, rfl⟩
    · exact (h.old job id hold).mono hseq
    · exact (honce.ids i).mono hseq

/-- **No orchestrated container is orphaned** in a run in which no restart
overwrites the container of another one: once `orch_down` has returned, no
container made for a service is running. -/
theorem no_container_orphaned {m : Manager} (hwf : Wf m) {as : List Action} {s : Sys}
    (hrun : RunOk sysStep (fun s a => undisturbed a = true ∧ overwrites s a = false)
      (Sys.init m) as s) (hidle : s.cli = .idle) (hdown : s.running = false) :
    ∀ x ∈ s.log.owned, ∀ c ∈ s.mgr.list, c.ptr = x.ptr → ¬ Live c := by
  have hinv : Wf s.mgr ∧ InOrder s ∧ Limited s ∧ Once s ∧ Slots s ∧ Accounted s := by
    refine hrun.invariant
      (I := fun s => Wf s.mgr ∧ InOrder s ∧ Limited s ∧ Once s ∧ Slots s ∧ Accounted s)
      (fun s a s' h hok hs => ?_)
      ⟨hwf, inOrder_init m, limited_init m, once_init m, slots_init m, accounted_init m⟩
    obtain ⟨hwf, hin, hlim, honce, hslots, hacc⟩ := h
    exact ⟨wf_step hwf hs, hin.step hs, hlim.step hin hs,
      honce.step hwf hin hlim (undisturbed_isUser hok.1) hs, hslots.step hin hs,
      hacc.step hwf hin honce hslots hok.1 hok.2 hs⟩
  obtain ⟨-, hin, -, -, hslots, hacc⟩ := hinv
  intro x hx c hc hp hlive
  have hours : Ours s c := ⟨x, hx, hp.symm⟩
  rcases hacc.held c hc hours hlive with ⟨i, hi⟩ | hnew | hnew
  · have hheld := hslots.down i (hi ▸ (hacc.sole c hc hours).id)
    rw [mayHold, hidle, hdown] at hheld
    cases hheld
  · rw [hidle] at hnew
    cases hnew
  · rw [hin.monOff (.inr ⟨hidle, hdown⟩)] at hnew
    cases hnew

/-- Up, a manual restart of `web`, and down again. -/
def webRestarted : List Action :=
  webUp ++ [.restart (bytes "web")] ++ cliSteps (.ofNat 200) 4 ++ webDown

theorem no_container_orphaned_web :
    ∃ s, RunOk sysStep (fun s a => undisturbed a = true ∧ overwrites s a = false)
        (Sys.init .init) webRestarted s ∧
      s.log.owned = [⟨1, 1, 0⟩, ⟨1, 0, 1⟩, ⟨1, 0, 2⟩] ∧
      ∀ x ∈ s.log.owned, ∀ c ∈ s.mgr.list, c.ptr = x.ptr → ¬ Live c := by
  obtain ⟨s, hrun, hidle, hdown, howned⟩ := exists_runOk_of_exec sysStep
    (fun s a => undisturbed a = true ∧ overwrites s a = false) (Sys.init .init) webRestarted
    (fun s => s.cli = .idle ∧ s.running = false ∧
      s.log.owned = [⟨1, 1, 0⟩, ⟨1, 0, 1⟩, ⟨1, 0, 2⟩]) (by decide +kernel)
  exact ⟨s, hrun, howned, no_container_orphaned wf_init hrun hidle hdown⟩

/-- The monitor has decided to restart `web`, a manual restart of `web` is
carried out meanwhile, then the monitor's, and the spec is taken down. -/
def webRaced : List Action :=
  webUp ++ monSteps (.ofNat 1) 1 ++ [monSees 1 7] ++ monSteps (.ofNat 1) 3 ++
    [.restart (bytes "web")] ++ cliSteps (.ofNat 200) 4 ++ monSteps (.ofNat 300) 5 ++
    webDown

/-- The container of the manual restart, at address 2, keeps running. -/
theorem manual_restart_orphaned :
    ∃ s, RunOk sysStep (fun _ a => undisturbed a = true) (Sys.init .init) webRaced s ∧
      s.cli = .idle ∧ s.running = false ∧ (⟨1, 0, 2⟩ : Owned) ∈ s.log.owned ∧
      (∃ c ∈ s.mgr.list, c.ptr = 2 ∧ c.state = .running) ∧
      ¬ ∀ x ∈ s.log.owned, ∀ c ∈ s.mgr.list, c.ptr = x.ptr → ¬ Live c := by
  obtain ⟨s, hrun, hidle, hdown, howned, c, hc, hp, hrunning⟩ :=
    exists_runOk_of_exec sysStep (fun _ a => undisturbed a = true) (Sys.init .init) webRaced
      (fun s => s.cli = .idle ∧ s.running = false ∧ (⟨1, 0, 2⟩ : Owned) ∈ s.log.owned ∧
        ∃ c ∈ s.mgr.list, c.ptr = 2 ∧ c.state = .running) (by decide +kernel)
  refine ⟨s, hrun, hidle, hdown, howned, ⟨c, hc, hp, hrunning⟩, fun hall => ?_⟩
  exact hall _ howned c hc hp (.inl hrunning)

end ContainerSim.Orch
