import ContainerSim.Orch.Calls
import ContainerSim.Orch.Shutdown

/-!
# Whose containers the orchestrator stops

The orchestrator remembers containers by id and hands the id to
`container_stop` and `container_delete`, where `find_container` looks it up,
first among the ids and then among the names. `container_prune_all` moves the
id counter back, so a remembered id can come to mean a container of somebody
else. It does not as long as no container is made under an id or a name that is
still remembered for another service (`noClash`).
-/

namespace ContainerSim.Orch

open Lib ContainerSim.Runtime

/-! ## What is remembered -/

def WorkItem.holds : WorkItem → Option (Nat × Bytes)
  | .health _ _ _ _ => none
  | .restart job cid _ _ => some (job.svc, cid)

/-- The container of a restart that is not yet in the spec. -/
def MonPc.newFor : MonPc → List (Nat × Bytes)
  | .commit job _ _ _ (some id) _ => [(job.svc, id)]
  | .undoStop svc new _ => [(svc, new)]
  | .undoDelete svc new _ => [(svc, new)]
  | _ => []

def MonPc.holds (mon : MonPc) : List (Nat × Bytes) :=
  mon.work.filterMap WorkItem.holds ++ mon.newFor

def CliPc.holds : CliPc → List (Nat × Bytes)
  | .runStore i (some id) _ => [(i, id)]
  | .rstStop job old => [(job.svc, old)]
  | .rstDelete job old => [(job.svc, old)]
  | .rstStore i _ (some id) => [(i, id)]
  | _ => []

/-- The ids remembered, each with the service it is remembered for. -/
def held (s : Sys) : List (Nat × Bytes) :=
  (((List.range s.spec.count).map fun i => (i, (s.svc i).containerId)) ++
    s.mon.holds ++ s.cli.holds).filter fun p => p.2 ≠ []

theorem mem_held {s : Sys} {p : Nat × Bytes} :
    p ∈ held s ↔
      p.2 ≠ [] ∧ ((s.svc p.1).containerId = p.2 ∨ p ∈ s.mon.holds ∨ p ∈ s.cli.holds) := by
  simp only [held, List.mem_filter, List.mem_append, List.mem_map, List.mem_range,
    decide_eq_true_eq]
  constructor
  · rintro ⟨(⟨i, -, rfl⟩ | hm) | hc, hne⟩
    · exact ⟨hne, .inl rfl⟩
    · exact ⟨hne, .inr (.inl hm)⟩
    · exact ⟨hne, .inr (.inr hc)⟩
  · rintro ⟨hne, hid | hm | hc⟩
    · refine ⟨.inl (.inl ⟨p.1, ?_, Prod.ext rfl hid⟩), hne⟩
      by_contra hge
      have hnone : s.spec.services[p.1]? = none :=
        List.getElem?_eq_none (Nat.le_of_not_lt hge)
      rw [Sys.svc, hnone] at hid
      exact hne hid.symm
    · exact ⟨.inl (.inr hm), hne⟩
    · exact ⟨.inr hc, hne⟩

/-! ## The condition -/

/-- The record to be made has an id or a name that is remembered. -/
def clashes (k : Ident) (p : Nat × Bytes) : Bool := p.2 = k.id ∨ p.2 = k.name

/-- No container is made under an id or a name remembered for another service,
and no service is given an id that a container of somebody else has as name. -/
def noClash (s : Sys) (a : Action) : Bool :=
  match launches s a with
  | some (o, job) =>
    (held s).all (fun p => p.1 = job.svc ||
      !clashes (newIdent (job.containerSpec o.resolve) s.mgr) p) &&
    s.mgr.list.all fun c => c.name ≠ containerId s.mgr.nextSequence ||
      decide (⟨s.log.gen, job.svc, c.ptr⟩ ∈ s.log.owned)
  | none =>
    match a with
    | .user op =>
      match op.creates with
      | some spec => (held s).all fun p => !clashes (newIdent spec s.mgr) p
      | none => true
    | _ => true

/-! ## How it moves on -/

/-- Where a remembered id comes from. -/
def HeldStep (s : Sys) (a : Action) (s' : Sys) : Prop :=
  ∀ p ∈ held s', p ∈ held s ∨
    ∃ o job, launches s a = some (o, job) ∧ p = (job.svc, containerId s.mgr.nextSequence)

/-- A step that remembers nothing new. -/
theorem HeldStep.of_subset {s s' : Sys} {a : Action}
    (hids : ∀ i, (s'.svc i).containerId = (s.svc i).containerId ∨ (s'.svc i).containerId = [] ∨
      (i, (s'.svc i).containerId) ∈ s.mon.holds ∨ (i, (s'.svc i).containerId) ∈ s.cli.holds)
    (hmon : ∀ p ∈ s'.mon.holds, p ∈ s.mon.holds ∨ (s.svc p.1).containerId = p.2)
    (hcli : ∀ p ∈ s'.cli.holds, p ∈ s.cli.holds ∨ (s.svc p.1).containerId = p.2) :
    HeldStep s a s' := by
  intro p hp
  obtain ⟨hne, h⟩ := mem_held.mp hp
  refine .inl (mem_held.mpr ⟨hne, ?_⟩)
  rcases h with h | h | h
  · rcases hids p.1 with hid | hid | hid | hid
    · exact .inl (hid.symm.trans h)
    · exact absurd (h.symm.trans hid) hne
    · rw [h] at hid
      exact .inr (.inl hid)
    · rw [h] at hid
      exact .inr (.inr hid)
  · rcases hmon p h with h | h
    · exact .inr (.inl h)
    · exact .inl h
  · rcases hcli p h with h | h
    · exact .inr (.inr h)
    · exact .inl h

theorem ids_setSvc {s : Sys} {i : Nat} {f : Service → Service}
    (hf : (f (s.svc i)).containerId = (s.svc i).containerId ∨ (f (s.svc i)).containerId = [] ∨
      (i, (f (s.svc i)).containerId) ∈ s.mon.holds ∨
      (i, (f (s.svc i)).containerId) ∈ s.cli.holds) (j : Nat) :
    ((s.setSvc i f).svc j).containerId = (s.svc j).containerId ∨
    ((s.setSvc i f).svc j).containerId = [] ∨
    (j, ((s.setSvc i f).svc j).containerId) ∈ s.mon.holds ∨
    (j, ((s.setSvc i f).svc j).containerId) ∈ s.cli.holds := by
  rcases s.svc_setSvc i j f with hj | ⟨rfl, hj⟩
  · rw [hj]
    exact .inl rfl
  · rw [hj]
    exact hf

theorem holds_of_work {mon : MonPc} (mon' : MonPc) (hwork : mon'.work ⊆ mon.work)
    (hnew : mon'.newFor ⊆ mon.newFor) : ∀ p ∈ mon'.holds, p ∈ mon.holds := by
  intro p hp
  rcases List.mem_append.mp hp with hp | hp
  · obtain ⟨w, hw, hwp⟩ := List.mem_filterMap.mp hp
    exact List.mem_append_left _ (List.mem_filterMap.mpr ⟨w, hwork hw, hwp⟩)
  · exact List.mem_append_right _ (hnew hp)

theorem collectSvc_holds (now : Int) (i : Nat) (svc : Service) (cst : ContainerState) (ec : Int) :
    ∀ w ∈ (collectSvc now i svc cst ec).2, ∀ p, w.holds = some p → p = (i, svc.containerId) := by
  intro w hw p hp
  have hmove := collectSvc_move now i svc cst ec
  generalize collectSvc now i svc cst ec = r at hmove hw
  cases hmove with
  | restart =>
    rw [List.mem_singleton.mp hw] at hp
    exact (Option.some.inj hp).symm
  | check =>
    rw [List.mem_singleton.mp hw] at hp
    cases hp
  | ended | up | nothing => exact absurd hw List.not_mem_nil

theorem MonPc.between_newFor {mon : MonPc} (h : mon.between = true) : mon.newFor = [] := by
  cases mon with
  | commit | undoStop | undoDelete => cases h
  | _ => rfl

theorem monStep_held {o : Answers} {s s' : Sys} (hs : monStep o s = some s') :
    HeldStep s (.mon o) s' := by
  have hsame : ∀ s' : Sys, s'.spec = s.spec → s'.cli = s.cli → s'.mon.work ⊆ s.mon.work →
      s'.mon.newFor ⊆ s.mon.newFor → HeldStep s (.mon o) s' := by
    intro s' hspec hcli hwork hnew
    refine .of_subset (fun i => .inl ?_) (fun p hp => .inl (holds_of_work _ hwork hnew p hp)) ?_
    · rw [Sys.svc, Sys.svc, hspec]
    · rw [hcli]
      exact fun p hp => .inl hp
  -- the item at hand is done with and its service updated
  have hset : ∀ (i : Nat) (f : Service → Service) (rest : List WorkItem), rest ⊆ s.mon.work →
      ((f (s.svc i)).containerId = (s.svc i).containerId ∨
        (i, (f (s.svc i)).containerId) ∈ s.mon.holds) →
      HeldStep s (.mon o) { s.setSvc i f with mon := .items rest } := by
    intro i f rest hwork hf
    exact .of_subset (ids_setSvc (hf.imp_right fun h => .inr (.inl h)))
      (fun p hp => .inl (holds_of_work (.items rest) hwork (List.nil_subset _) p hp))
      (fun p hp => .inl hp)
  cases monStep_move hs with
  | goOn _ _ hwork hbetween =>
    refine hsame _ rfl rfl hwork.subset ?_
    exact MonPc.between_newFor hbetween ▸ List.nil_subset _
  | skip hmon | giveUp hmon | undoDelete hmon =>
    refine hsame _ rfl rfl ?_ (List.nil_subset _)
    rw [hmon]
    exact fun w hw => hw
  | delete hmon | takeBack hmon | undoStop hmon =>
    refine hsame _ rfl rfl ?_ ?_
    · rw [hmon]
      exact fun w hw => hw
    · rw [hmon]
      exact fun p hp => hp
  | @seen now i work cst ec hmon =>
    have hid := collectSvc_containerId now i (s.svc i) cst ec
    have hitems := collectSvc_holds now i (s.svc i) cst ec
    refine .of_subset
      (ids_setSvc (f := fun svc => (collectSvc now i svc cst ec).1) (.inl hid)) ?_
      (fun p hp => .inl hp)
    intro p hp
    rcases List.mem_append.mp hp with hp | hp
    · obtain ⟨w, hw, hwp⟩ := List.mem_filterMap.mp hp
      rcases List.mem_append.mp hw with hw | hw
      · rw [hmon]
        exact .inl (List.mem_append_left _ (List.mem_filterMap.mpr ⟨w, hw, hwp⟩))
      · rw [hitems w hw p hwp]
        exact .inr rfl
    · exact absurd hp List.not_mem_nil
  | @health svc cid hcmd name hc rest hmon =>
    refine hset svc (applyHealth hc) rest ?_ (.inl ?_)
    · rw [hmon]
      exact List.subset_cons_self _ _
    · unfold applyHealth
      split <;> rfl
  | @launch job cid backoffS ec rest hmon =>
    -- the new container is remembered for the service of the item
    intro p hp
    obtain ⟨hne, hid | hm | hc⟩ := mem_held.mp hp
    · exact .inl (mem_held.mpr ⟨hne, .inl hid⟩)
    · rcases List.mem_append.mp hm with hm | hm
      · refine .inl (mem_held.mpr ⟨hne, .inr (.inl ?_)⟩)
        obtain ⟨w, hw, hwp⟩ := List.mem_filterMap.mp hm
        refine List.mem_append_left _ (List.mem_filterMap.mpr ⟨w, ?_, hwp⟩)
        rw [hmon]
        exact List.mem_cons_of_mem _ hw
      · refine .inr ⟨o, job, by rw [launches, hmon], ?_⟩
        change p ∈ (MonPc.commit job cid backoffS ec (callLaunch o job s).2 rest).newFor at hm
        cases hnew : (callLaunch o job s).2 with
        | none =>
          rw [hnew] at hm
          exact absurd hm List.not_mem_nil
        | some id =>
          rw [hnew] at hm
          rw [List.mem_singleton.mp hm, (containerRunBackground_some hnew).1]
    · exact .inl (mem_held.mpr ⟨hne, .inr (.inr hc)⟩)
  | commit hmon =>
    refine hset _ _ _ ?_ (.inr ?_)
    · rw [hmon]
      exact fun w hw => hw
    · rw [hmon]
      exact List.mem_append_right _ (List.mem_singleton_self _)
  | failed hmon =>
    refine hset _ failedSvc _ ?_ (.inl rfl)
    rw [hmon]
    exact fun w hw => hw

/-- The command line has started a container for a service. -/
theorem heldStep_launch (o : Answers) (job : Job) {s s' : Sys} {a : Action}
    (hl : launches s a = some (o, job)) (hspec : s'.spec = s.spec) (hmon : s'.mon = s.mon)
    (hcli : ∀ p ∈ s'.cli.holds, (callLaunch o job s).2 = some p.2 ∧ p.1 = job.svc) :
    HeldStep s a s' := by
  intro p hp
  obtain ⟨hne, hid | hm | hc⟩ := mem_held.mp hp
  · rw [Sys.svc, hspec] at hid
    exact .inl (mem_held.mpr ⟨hne, .inl hid⟩)
  · rw [hmon] at hm
    exact .inl (mem_held.mpr ⟨hne, .inr (.inl hm)⟩)
  · obtain ⟨hnew, hsvc⟩ := hcli p hc
    refine .inr ⟨o, job, hl, ?_⟩
    exact Prod.ext hsvc (containerRunBackground_some hnew).1

theorem cliStep_held {o : Answers} {s s' : Sys} (hs : cliStep o s = some s') :
    HeldStep s (.cli o) s' := by
  -- most steps write no service, and hold no new id
  have hsame : ∀ s' : Sys, s'.spec = s.spec → s'.mon.holds ⊆ s.mon.holds →
      s'.cli.holds ⊆ s.cli.holds → HeldStep s (.cli o) s' := by
    intro s' hspec hmon hcli
    refine .of_subset (fun i => .inl ?_) (fun p hp => .inl (hmon hp)) (fun p hp => .inl (hcli hp))
    rw [Sys.svc, Sys.svc, hspec]
  -- a write puts an id into a slot only if this thread holds it
  have hset : ∀ (s' : Sys) (i : Nat) (f : Service → Service), s'.spec = (s.setSvc i f).spec →
      s'.mon = s.mon → s'.cli.holds = [] →
      ((f (s.svc i)).containerId = (s.svc i).containerId ∨ (f (s.svc i)).containerId = [] ∨
        (i, (f (s.svc i)).containerId) ∈ s.cli.holds) → HeldStep s (.cli o) s' := by
    intro s' i f hspec hmon hcli hf
    refine .of_subset (fun j => ?_) (by rw [hmon]; exact fun p hp => .inl hp)
      (by rw [hcli]; exact List.forall_mem_nil _)
    rw [show s'.svc j = (s.setSvc i f).svc j by rw [Sys.svc, Sys.svc, hspec]]
    exact ids_setSvc (hf.imp_right (Or.imp_right .inr)) j
  have hnil : ∀ l : List (Nat × Bytes), [] ⊆ l := List.nil_subset
  cases cliStep_move hs with
  | runEnd | rstDelete | downJoin | downEnd | downSkip | downStop =>
    exact hsame _ rfl (fun _ h => h) (hnil _)
  | runNext => exact hset _ _ startingSvc rfl rfl rfl (.inl rfl)
  | @runLaunch job todo hcli =>
    refine heldStep_launch o job (by rw [launches, hcli]) rfl rfl ?_
    intro p hp
    change p ∈ (CliPc.runStore job.svc (callLaunch o job s).2 todo).holds at hp
    -- the id that the launch has returned is held until it is stored
    cases hnew : (callLaunch o job s).2 with
    | none =>
      rw [hnew] at hp
      exact absurd hp List.not_mem_nil
    | some id =>
      rw [hnew] at hp
      rw [List.mem_singleton.mp hp]
      exact ⟨rfl, rfl⟩
  | runFailed | rstFailed => exact hset _ _ failedSvc rfl rfl rfl (.inl rfl)
  | runStore hcli =>
    refine hset _ _ (startedSvc _ o.now) rfl rfl rfl (.inr (.inr ?_))
    rw [hcli]
    exact List.mem_singleton_self _
  | rstStore hcli =>
    refine hset _ _ (restarted _ o.now) rfl rfl rfl (.inr (.inr ?_))
    rw [hcli]
    exact List.mem_singleton_self _
  | runSpawn =>
    refine hsame _ rfl ?_ (hnil _)
    show MonPc.holds (if o.spawn = true then _ else _) ⊆ _
    split <;> exact hnil _
  | rstStop hcli =>
    refine hsame _ rfl (fun _ h => h) ?_
    rw [hcli]
    exact fun _ h => h
  | @rstLaunch job old hcli =>
    refine heldStep_launch o job (by rw [launches, hcli]) rfl rfl ?_
    intro p hp
    change p ∈ (CliPc.rstStore job.svc old (callLaunch o job s).2).holds at hp
    cases hnew : (callLaunch o job s).2 with
    | none =>
      rw [hnew] at hp
      exact absurd hp List.not_mem_nil
    | some id =>
      rw [hnew] at hp
      rw [List.mem_singleton.mp hp]
      exact ⟨rfl, rfl⟩
  | downDelete => exact hset _ _ clearedSvc rfl rfl rfl (.inr (.inl rfl))

/-- A new spec is run: the old one left nothing behind to remember. -/
theorem held_begun {s : Sys} (parsed : ParsedSpec) (hoff : s.mon = .off) :
    held (begun parsed s) = [] := by
  refine List.eq_nil_iff_forall_not_mem.mpr fun p hp => ?_
  obtain ⟨hne, hid | hm | hc⟩ := mem_held.mp hp
  · simp only [Sys.svc, begun] at hid
    cases hget : parsed.spec.services[p.1]? with
    | none =>
      rw [hget] at hid
      exact hne hid.symm
    | some svc =>
      rw [hget] at hid
      exact hne (hid.symm.trans (parsed.fresh svc (List.mem_of_getElem? hget)).1)
  · simp only [begun, hoff] at hm
    exact absurd hm List.not_mem_nil
  · exact absurd hc List.not_mem_nil

/-! ## What is acted on -/

/-- The records that a stop or a delete newly works on carry a remembered id. -/
def ActedStep (s s' : Sys) : Prop :=
  s'.log.gen = s.log.gen ∧
  ∀ x ∈ s'.log.acted, x ∈ s.log.acted ∨ ∃ p ∈ held s, ∃ c ∈ s.mgr.list,
    (c.id = p.2 ∨ c.name = p.2) ∧ x = ⟨s.log.gen, p.1, c.ptr⟩

theorem ActedStep.same {s s' : Sys} (hgen : s'.log.gen = s.log.gen)
    (h : s'.log.acted = s.log.acted) : ActedStep s s' :=
  ⟨hgen, fun _ hx => .inl (h ▸ hx)⟩

theorem ActedStep.call {o : Answers} (i : Nat) (id : Bytes) {s s' : Sys}
    (hgen : s'.log.gen = s.log.gen) (h : s'.log.acted = s.log.acted ++ target o i id s)
    (hheld : (s.svc i).containerId = id ∨ (i, id) ∈ s.mon.holds ∨ (i, id) ∈ s.cli.holds) :
    ActedStep s s' := by
  refine ⟨hgen, fun x hx => ?_⟩
  rw [h] at hx
  rcases List.mem_append.mp hx with hx | hx
  · exact .inl hx
  unfold target at hx
  split at hx
  · exact absurd hx List.not_mem_nil
  · rename_i hne
    obtain ⟨c, hc, rfl⟩ := List.mem_map.mp hx
    obtain ⟨hmem, hid⟩ := mem_of_findContainer (Option.mem_toList.mp hc)
    obtain ⟨d, hd, hl⟩ := (pollStates_quiet o.poll s.mgr).later c hmem
    refine .inr ⟨(i, id), mem_held.mpr ⟨hne, hheld⟩, d, hd, ?_, ?_⟩
    · rw [← hl.same.id, ← hl.same.name]
      exact hid
    · rw [hl.same.ptr]

theorem monStep_acted {o : Answers} {s s' : Sys} (hs : monStep o s = some s') :
    ActedStep s s' := by
  cases monStep_move hs with
  | delete hmon =>
    refine .call _ _ rfl rfl (.inr (.inl ?_))
    rw [hmon]
    exact List.mem_append_left _ List.mem_cons_self
  | undoStop hmon | undoDelete hmon =>
    refine .call _ _ rfl rfl (.inr (.inl ?_))
    rw [hmon]
    exact List.mem_append_right _ (List.mem_singleton_self _)
  | goOn | skip | seen | health | launch | commit | failed | takeBack | giveUp =>
    exact .same rfl rfl

theorem cliStep_acted {o : Answers} {s s' : Sys} (hs : cliStep o s = some s') :
    ActedStep s s' := by
  cases cliStep_move hs with
  | rstStop hcli | rstDelete hcli =>
    refine .call _ _ rfl rfl (.inr (.inr ?_))
    rw [hcli]
    exact List.mem_singleton_self _
  | downStop | downDelete => exact .call _ _ rfl rfl (.inl rfl)
  | _ => exact .same rfl rfl

/-! ## The invariant -/

structure Mine (s : Sys) : Prop where
  mine : ∀ p ∈ held s, ∀ c ∈ s.mgr.list, c.id = p.2 ∨ c.name = p.2 →
    (⟨s.log.gen, p.1, c.ptr⟩ : Owned) ∈ s.log.owned
  acted : ∀ x ∈ s.log.acted, x ∈ s.log.owned

/-- A record with the next address can only have been made by this launch. -/
theorem owned_of_launched {s s' : Sys} {a : Action} {o : Answers} {job : Job} (hwf : Wf s.mgr)
    (hs : sysStep s a = some s') (hl : launches s a = some (o, job)) {c' : Container}
    (hc' : c' ∈ s'.mgr.list) (hp : c'.ptr = s.mgr.heap) :
    (⟨s.log.gen, job.svc, c'.ptr⟩ : Owned) ∈ s'.log.owned := by
  obtain ⟨hm, hown, -⟩ := sysStep_launch hs hl
  rw [hown, callLaunch_owned, hp]
  cases hcalloc : o.run.create.calloc with
  | true => exact List.mem_append_right _ (List.mem_singleton_self _)
  | false =>
    rw [hm] at hc'
    have hlist : (callLaunch o job s).1.mgr = s.mgr := by
      simp [callLaunch, containerRunBackground, containerCreate, hcalloc]
    rw [hlist] at hc'
    exact absurd hp (Nat.ne_of_lt (hwf.heap c' hc'))

theorem Mine.step {s s' : Sys} {a : Action} (h : Mine s) (hwf : Wf s.mgr)
    (hok : noClash s a = true) (hs : sysStep s a = some s') (hheld : HeldStep s a s')
    (hacted : ActedStep s s') : Mine s' := by
  obtain ⟨hkeep, -⟩ := owned_sysStep hwf hs
  refine ⟨fun p hp c' hc' hid => ?_, fun x hx => ?_⟩
  · rw [hacted.1]
    rcases mem_sysStep hwf hs hc' with ⟨c, hc, hsame⟩ | ⟨o, job, hl, hk⟩ |
      ⟨op, spec, rfl, hop, hk⟩
    · -- a record from before
      rw [hsame.id, hsame.name] at hid
      rw [hsame.ptr]
      rcases hheld p hp with hp | ⟨o, job, hl, rfl⟩
      · exact hkeep _ (h.mine p hp c hc hid)
      · rcases hid with hid | hid
        · exact absurd hid (hwf.fresh c hc _ (Nat.le_refl _))
        · simp only [noClash, hl, Bool.and_eq_true, List.all_eq_true, Bool.or_eq_true,
            decide_eq_true_eq] at hok
          exact hkeep _ ((hok.2 c hc).resolve_left (not_not.mpr hid))
    · -- the container just launched
      have hptr : c'.ptr = s.mgr.heap := congrArg Ident.ptr hk
      have hsvc : p.1 = job.svc := by
        rcases hheld p hp with hp | ⟨o', job', hl', rfl⟩
        · by_contra hne
          simp only [noClash, hl, Bool.and_eq_true, List.all_eq_true, Bool.or_eq_true,
            decide_eq_true_eq] at hok
          have hclash := (hok.1 p hp).resolve_left hne
          simp only [clashes, ← hk, Container.ident, Bool.not_eq_true',
            decide_eq_false_iff_not] at hclash
          exact hclash (hid.imp Eq.symm Eq.symm)
        · rw [hl] at hl'
          cases hl'
          rfl
      rw [hsvc]
      exact owned_of_launched hwf hs hl hc' hptr
    · -- a container somebody else has just made
      exfalso
      rcases hheld p hp with hp | ⟨o, job, hl, -⟩
      · simp only [noClash, launches, hop, List.all_eq_true] at hok
        have hclash := hok p hp
        simp only [clashes, ← hk, Container.ident, Bool.not_eq_true',
          decide_eq_false_iff_not] at hclash
        exact hclash (hid.imp Eq.symm Eq.symm)
      · cases hl
  · rcases hacted.2 x hx with hx | ⟨p, hp, c, hc, hid, rfl⟩
    · exact hkeep x (h.acted x hx)
    · exact hkeep _ (h.mine p hp c hc hid)

theorem Mine.sysStep {s s' : Sys} {a : Action} (h : Mine s) (hwf : Wf s.mgr) (hin : InOrder s)
    (hok : noClash s a = true) (hs : sysStep s a = some s') : Mine s' := by
  cases sysStep_move hs with
  | refused => exact h
  | @run parsed hidle hstopped =>
    have hnil := held_begun parsed (hin.monOff (.inr ⟨hidle, hstopped⟩))
    refine ⟨?_, h.acted⟩
    rw [hnil]
    exact List.forall_mem_nil _
  | restart =>
    refine h.step hwf hok hs ?_ (.same rfl rfl)
    refine .of_subset (ids_setSvc (f := restartingSvc) (.inl rfl)) (fun p hp => .inl hp)
      (fun p hp => .inr ?_)
    rw [List.mem_singleton.mp hp]
    rfl
  | down =>
    refine h.step hwf hok hs ?_ (.same rfl rfl)
    exact .of_subset (fun _ => .inl rfl) (fun p hp => .inl hp) nofun
  | cli hs' => exact h.step hwf hok hs (cliStep_held hs') (cliStep_acted hs')
  | mon hs' => exact h.step hwf hok hs (monStep_held hs') (monStep_acted hs')
  | user => exact h.step hwf hok hs (fun p hp => .inl hp) (.same rfl rfl)

/-- **The orchestrator only stops and deletes its own containers** in every run
in which no container is made under an id or a name that is remembered for
another service. -/
theorem acts_on_own_containers {m : Manager} (hwf : Wf m) {as : List Action} {s : Sys}
    (hrun : RunOk sysStep (fun s a => noClash s a = true) (Sys.init m) as s) :
    ∀ x ∈ s.log.acted, x ∈ s.log.owned := by
  have hinv : Wf s.mgr ∧ InOrder s ∧ Mine s :=
    hrun.invariant (I := fun s => Wf s.mgr ∧ InOrder s ∧ Mine s)
      (fun _ _ _ h hok hs => ⟨wf_step h.1 hs, h.2.1.step hs, h.2.2.sysStep h.1 h.2.1 hok hs⟩)
      ⟨hwf, inOrder_init m, fun p hp => absurd (show p ∈ [] from hp) List.not_mem_nil, nofun⟩
  exact hinv.2.2.acted

/-- Up, a background run by the user, and down again. -/
def webShared : List Action :=
  webUp ++ [.user (.life (.runBackground (.clean (.ofNat 300)) .zero))] ++ webDown

theorem acts_on_own_containers_web :
    ∃ s, RunOk sysStep (fun s a => noClash s a = true) (Sys.init .init) webShared s ∧
      s.log.acted = [⟨1, 0, 1⟩, ⟨1, 0, 1⟩, ⟨1, 1, 0⟩, ⟨1, 1, 0⟩] ∧
      s.mgr.list.map Container.ptr = [2] ∧ ∀ x ∈ s.log.acted, x ∈ s.log.owned := by
  obtain ⟨s, hrun, hacted, hlist⟩ := exists_runOk_of_exec sysStep (fun s a => noClash s a = true)
    (Sys.init .init) webShared
    (fun s => s.log.acted = [⟨1, 0, 1⟩, ⟨1, 0, 1⟩, ⟨1, 1, 0⟩, ⟨1, 1, 0⟩] ∧
      s.mgr.list.map Container.ptr = [2]) (by decide +kernel)
  exact ⟨s, hrun, hacted, hlist, acts_on_own_containers wf_init hrun⟩

/-- `web` exits, the user prunes and runs a container, and takes the spec down. -/
def webPruned : List Action :=
  webUp ++ [.user (.prune (.exits 1 0) true),
    .user (.life (.runBackground (.clean (.ofNat 300)) .zero))] ++ webDown

/-- The user's container, at address 2, gets the pruned id `container-0002`; the
orchestrator stops and deletes it in place of its own. -/
theorem orch_down_deletes_user_container :
    ∃ s, Runs sysStep (Sys.init .init) webPruned s ∧
      (⟨1, 0, 2⟩ : Owned) ∈ s.log.acted ∧ (∀ x ∈ s.log.owned, x.ptr ≠ 2) ∧ s.mgr.list = [] ∧
      ¬ ∀ x ∈ s.log.acted, x ∈ s.log.owned := by
  obtain ⟨s, hrun, h⟩ := exists_runOk_of_exec sysStep (fun _ _ => True) (Sys.init .init) webPruned
    (fun s => (⟨1, 0, 2⟩ : Owned) ∈ s.log.acted ∧ (∀ x ∈ s.log.owned, x.ptr ≠ 2) ∧
      s.mgr.list = [] ∧ ¬ ∀ x ∈ s.log.acted, x ∈ s.log.owned) (by decide +kernel)
  exact ⟨s, hrun, h⟩

end ContainerSim.Orch
