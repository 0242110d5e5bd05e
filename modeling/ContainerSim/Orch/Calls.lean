import ContainerSim.Orch.Moves

/-!
# What the steps do to the container list

A step of the orchestrator either leaves the list quiet or is one of the three
places that start a container for a service (`launches`); operations by others
may do anything the manager offers.
-/

namespace ContainerSim.Orch

open Lib ContainerSim.Runtime

/-! ## Services -/

theorem Sys.svc_setSvc (s : Sys) (i j : Nat) (f : Service → Service) :
    (s.setSvc i f).svc j = s.svc j ∨ (j = i ∧ (s.setSvc i f).svc j = f (s.svc i)) := by
  simp only [Sys.svc, Sys.setSvc, List.getElem?_modify]
  by_cases hij : i = j
  · subst hij
    cases s.spec.services[i]? with
    | none => exact .inl rfl
    | some svc => exact .inr ⟨rfl, by simp⟩
  · refine .inl ?_
    simp [hij]

theorem Sys.svc_setSvc_ne (s : Sys) {i j : Nat} (f : Service → Service) (h : j ≠ i) :
    (s.setSvc i f).svc j = s.svc j := by
  rcases s.svc_setSvc i j f with hj | ⟨hj, -⟩
  · exact hj
  · exact absurd hj h

theorem Sys.svc_setSvc_eq (s : Sys) {i : Nat} (f : Service → Service) (h : i < s.spec.count) :
    (s.setSvc i f).svc i = f (s.svc i) := by
  have hget : s.spec.services[i]? = some s.spec.services[i] := List.getElem?_eq_getElem h
  simp [Sys.svc, Sys.setSvc, hget]

/-- A field that the update keeps. -/
theorem Sys.svc_setSvc_field {α : Type*} (g : Service → α) (s : Sys) (i j : Nat)
    {f : Service → Service} (hf : ∀ svc, g (f svc) = g svc) :
    g ((s.setSvc i f).svc j) = g (s.svc j) := by
  rcases s.svc_setSvc i j f with hj | ⟨rfl, hj⟩
  · rw [hj]
  · rw [hj, hf]

/-! ## Container calls -/

theorem callLaunch_grows (o : Answers) (job : Job) {s : Sys} (h : Wf s.mgr) :
    Grows (job.containerSpec o.resolve) s.mgr (callLaunch o job s).1.mgr :=
  containerRunBackground_grows h o.run (job.containerSpec o.resolve)

theorem callLaunch_owned (o : Answers) (job : Job) (s : Sys) :
    (callLaunch o job s).1.log.owned = s.log.owned ++
      (if o.run.create.calloc then [⟨s.log.gen, job.svc, s.mgr.heap⟩] else []) := rfl

/-- The container a step starts, if it is one of the three that do. -/
def launches (s : Sys) : Action → Option (Answers × Job)
  | .cli o =>
    match s.cli with
    | .runLaunch job _ => some (o, job)
    | .rstLaunch job _ => some (o, job)
    | _ => none
  | .mon o =>
    match s.mon with
    | .launch job _ _ _ _ => some (o, job)
    | _ => none
  | _ => none

theorem monStep_quiet {o : Answers} {s s' : Sys} (hwf : Wf s.mgr) (hs : monStep o s = some s')
    (hl : launches s (.mon o) = none) :
    Quiet s.mgr s'.mgr ∧ s'.log.owned = s.log.owned := by
  cases monStep_move hs with
  | goOn hm | skip _ _ hm =>
    refine ⟨?_, rfl⟩
    rcases hm with rfl | rfl
    · exact Quiet.refl _
    · exact pollStates_quiet o.poll s.mgr
  | seen => exact ⟨pollStates_quiet o.poll s.mgr, rfl⟩
  | delete | undoDelete => exact ⟨containerDelete_quiet hwf o.poll o.save _, rfl⟩
  | undoStop => exact ⟨containerStop_quiet hwf o.poll o.stop _ 1, rfl⟩
  | launch hmon =>
    rw [launches, hmon] at hl
    cases hl
  | health | commit | failed | takeBack | giveUp => exact ⟨Quiet.refl _, rfl⟩

theorem cliStep_quiet {o : Answers} {s s' : Sys} (hwf : Wf s.mgr) (hs : cliStep o s = some s')
    (hl : launches s (.cli o) = none) :
    Quiet s.mgr s'.mgr ∧ s'.log.owned = s.log.owned := by
  cases cliStep_move hs with
  | runLaunch hcli | rstLaunch hcli =>
    rw [launches, hcli] at hl
    cases hl
  | rstStop | downStop => exact ⟨containerStop_quiet hwf o.poll o.stop _ 5, rfl⟩
  | rstDelete | downDelete => exact ⟨containerDelete_quiet hwf o.poll o.save _, rfl⟩
  | _ => exact ⟨Quiet.refl _, rfl⟩

def Action.isUser : Action → Bool
  | .user _ => true
  | _ => false

/-- A step of the orchestrator that launches nothing adds and starts nothing. -/
theorem sysStep_quiet {s s' : Sys} {a : Action} (hwf : Wf s.mgr) (hs : sysStep s a = some s')
    (hl : launches s a = none) (hu : a.isUser = false) :
    Quiet s.mgr s'.mgr ∧ s'.log.owned = s.log.owned := by
  cases sysStep_move hs with
  | refused => exact ⟨Quiet.refl _, rfl⟩
  | run => exact ⟨Quiet.refl _, rfl⟩
  | restart => exact ⟨Quiet.refl _, rfl⟩
  | down => exact ⟨Quiet.refl _, rfl⟩
  | cli hs => exact cliStep_quiet hwf hs hl
  | mon hs => exact monStep_quiet hwf hs hl
  | user => cases hu

/-- A step that launches does to the list what the call does. -/
theorem sysStep_launch {s s' : Sys} {a : Action} {o : Answers} {job : Job}
    (hs : sysStep s a = some s') (hl : launches s a = some (o, job)) :
    s'.mgr = (callLaunch o job s).1.mgr ∧
    s'.log.owned = (callLaunch o job s).1.log.owned ∧ s'.log.gen = s.log.gen := by
  cases a with
  | cli o' =>
    simp only [sysStep, cliStep] at hs
    simp only [launches] at hl
    cases hcli : s.cli with
    | runLaunch job' todo =>
      rw [hcli] at hl hs
      cases hl
      cases hs
      exact ⟨rfl, rfl, rfl⟩
    | rstLaunch job' old =>
      rw [hcli] at hl hs
      cases hl
      cases hs
      exact ⟨rfl, rfl, rfl⟩
    | _ => rw [hcli] at hl; cases hl
  | mon o' =>
    simp only [sysStep, monStep] at hs
    simp only [launches] at hl
    cases hmon : s.mon with
    | launch job' cid b ec rest =>
      rw [hmon] at hl hs
      cases hl
      cases hs
      exact ⟨rfl, rfl, rfl⟩
    | _ => rw [hmon] at hl; cases hl
  | _ => cases hl

/-! ## Operations by others -/

/-- What an operation by somebody else can do to the list. -/
structure UserEffect (op : UserOp) (m m' : Manager) : Prop where
  wf : Wf m'
  heap : m.heap ≤ m'.heap
  same : ∀ c' ∈ m'.list, (∃ c ∈ m.list, Same c c') ∨
    ∃ spec, op.creates = some spec ∧ c'.ident = newIdent spec m

theorem UserEffect.of_quiet {op : UserOp} {m m' : Manager} (hwf : Wf m) (h : Quiet m m') :
    UserEffect op m m' where
  wf := hwf.quiet h
  heap := Nat.le_of_eq h.heap.symm
  same := by
    intro c' hc'
    obtain ⟨c, hc, hl⟩ := h.later c' hc'
    exact .inl ⟨c, hc, hl.same⟩

theorem UserEffect.of_grows {op : UserOp} {m m' : Manager} {spec : ContainerSpec} (hwf : Wf m)
    (hop : op.creates = some spec) (h : Grows spec m m') : UserEffect op m m' where
  wf := hwf.grows h
  heap := h.heap
  same := by
    intro c' hc'
    rcases h.later c' hc' with ⟨c, hc, hl⟩ | ⟨hk, -⟩
    · exact .inl ⟨c, hc, hl.same⟩
    · exact .inr ⟨spec, hop, hk⟩

theorem containerStart_effect {op : UserOp} {m : Manager} (hwf : Wf m) (poll : PollOutcome)
    (o : StartOutcome) (id : Bytes) : UserEffect op m (containerStart poll o id m).1 := by
  have hsame := startContainer_same o true true
  obtain ⟨hseq, hheap⟩ := withContainer_counters poll id (startContainer o true true) m
  refine ⟨hwf.of_subperm ?_ (Nat.le_of_eq hseq.symm) (Nat.le_of_eq hheap.symm),
    Nat.le_of_eq hheap.symm, fun c' hc' => .inl ?_⟩
  · exact idents_withContainer hwf poll id hsame ▸ List.Subperm.refl _
  · rcases mem_withContainer poll id hc' with hc' | hc' | ⟨c, hfind, rfl⟩
    · exact ⟨c', hc', Same.refl c'⟩
    · obtain ⟨c, hc, hl⟩ := (pollStates_quiet poll m).later c' hc'
      exact ⟨c, hc, hl.same⟩
    · obtain ⟨d, hd, hl⟩ := (pollStates_quiet poll m).later c (mem_of_findContainer hfind).1
      exact ⟨d, hd, hl.same.trans (hsame c _)⟩

theorem userStep_effect {op : UserOp} {m m' : Manager} (hwf : Wf m)
    (h : userStep op m = some m') : UserEffect op m m' := by
  cases op with
  | prune poll save =>
    cases h
    refine ⟨containerPruneAll_wf hwf poll save, Nat.le_refl _, fun c' hc' => .inl ?_⟩
    obtain ⟨c, hc, hl⟩ := (pollStates_quiet poll m).later c' (mem_containerPruneAll hc')
    exact ⟨c, hc, hl.same⟩
  | life a =>
    cases a with
    | create o spec => cases h; exact .of_grows hwf rfl (containerCreate_grows hwf o spec)
    | start poll o id => cases h; exact containerStart_effect hwf poll o id
    | run o spec => cases h; exact .of_grows hwf rfl (containerRun_grows hwf o spec)
    | runBackground o spec =>
      cases h; exact .of_grows hwf rfl (containerRunBackground_grows hwf o spec)
    | stop poll o id timeoutS =>
      cases h; exact .of_quiet hwf (containerStop_quiet hwf poll o id timeoutS)
    | pause poll kill save id =>
      cases h; exact .of_quiet hwf (containerPause_quiet hwf poll kill save id)
    | unpause poll kill save id =>
      cases h; exact .of_quiet hwf (containerUnpause_quiet hwf poll kill save id)
    | delete poll save id => cases h; exact .of_quiet hwf (containerDelete_quiet hwf poll save id)
    | poll o => cases h; exact .of_quiet hwf (pollStates_quiet o m)

/-- Every step keeps the manager well formed. -/
theorem wf_step {s s' : Sys} {a : Action} (hwf : Wf s.mgr) (hs : sysStep s a = some s') :
    Wf s'.mgr := by
  cases hl : launches s a with
  | some r =>
    obtain ⟨o, job⟩ := r
    rw [(sysStep_launch hs hl).1]
    exact hwf.grows (callLaunch_grows o job hwf)
  | none =>
    cases hu : a.isUser with
    | false => exact hwf.quiet (sysStep_quiet hwf hs hl hu).1
    | true =>
      cases a with
      | user op =>
        obtain ⟨m', hm', rfl⟩ := Option.map_eq_some_iff.mp hs
        exact (userStep_effect hwf hm').wf
      | _ => cases hu

/-! ## Whose container it is -/

/-- Every step keeps the recorded addresses allocated. -/
theorem owned_lt_step {s s' : Sys} {a : Action} (hwf : Wf s.mgr) (hs : sysStep s a = some s')
    (h : ∀ o ∈ s.log.owned, o.ptr < s.mgr.heap) : ∀ o ∈ s'.log.owned, o.ptr < s'.mgr.heap := by
  intro x hx
  cases hl : launches s a with
  | some r =>
    obtain ⟨o, job⟩ := r
    obtain ⟨hm, hown, -⟩ := sysStep_launch hs hl
    rw [hown, callLaunch_owned] at hx
    rw [hm]
    rcases List.mem_append.mp hx with hx | hx
    · exact Nat.lt_of_lt_of_le (h x hx) (callLaunch_grows o job hwf).heap
    · split at hx
      · rename_i hcalloc
        rw [List.mem_singleton.mp hx]
        exact containerRunBackground_heap hcalloc _ s.mgr
      · exact absurd hx List.not_mem_nil
  | none =>
    cases hu : a.isUser with
    | false =>
      obtain ⟨hq, hown⟩ := sysStep_quiet hwf hs hl hu
      rw [hq.heap]
      exact h x (hown ▸ hx)
    | true =>
      cases a with
      | user op =>
        obtain ⟨m', hm', rfl⟩ := Option.map_eq_some_iff.mp hs
        exact Nat.lt_of_lt_of_le (h x hx) (userStep_effect hwf hm').heap
      | _ => cases hu

/-- A record after a step: one from before, the one just launched, or one made
by somebody else. -/
theorem mem_sysStep {s s' : Sys} {a : Action} (hwf : Wf s.mgr) (hs : sysStep s a = some s')
    {c' : Container} (hc' : c' ∈ s'.mgr.list) :
    (∃ c ∈ s.mgr.list, Same c c') ∨
    (∃ o job, launches s a = some (o, job) ∧
      c'.ident = newIdent (job.containerSpec o.resolve) s.mgr) ∨
    (∃ op spec, a = .user op ∧ op.creates = some spec ∧ c'.ident = newIdent spec s.mgr) := by
  cases hl : launches s a with
  | some r =>
    obtain ⟨o, job⟩ := r
    rw [(sysStep_launch hs hl).1] at hc'
    rcases (callLaunch_grows o job hwf).later c' hc' with ⟨c, hc, hlater⟩ | ⟨hk, -⟩
    · exact .inl ⟨c, hc, hlater.same⟩
    · exact .inr (.inl ⟨o, job, rfl, hk⟩)
  | none =>
    cases hu : a.isUser with
    | false =>
      obtain ⟨c, hc, hlater⟩ := (sysStep_quiet hwf hs hl hu).1.later c' hc'
      exact .inl ⟨c, hc, hlater.same⟩
    | true =>
      cases a with
      | user op =>
        obtain ⟨m', hm', rfl⟩ := Option.map_eq_some_iff.mp hs
        rcases (userStep_effect hwf hm').same c' hc' with h | ⟨spec, hop, hk⟩
        · exact .inl h
        · exact .inr (.inr ⟨op, spec, rfl, hop, hk⟩)
      | _ => cases hu

/-- Without prunes by others, no id is handed out twice. -/
theorem seq_le_sysStep {s s' : Sys} {a : Action} (hwf : Wf s.mgr) (hs : sysStep s a = some s')
    (hu : a.isUser = false) : s.mgr.nextSequence ≤ s'.mgr.nextSequence := by
  cases hl : launches s a with
  | some r =>
    obtain ⟨o, job⟩ := r
    rw [(sysStep_launch hs hl).1]
    exact (callLaunch_grows o job hwf).seq
  | none => exact Nat.le_of_eq (sysStep_quiet hwf hs hl hu).1.seq.symm

/-- Who is recorded as an owner after a step. -/
theorem owned_sysStep {s s' : Sys} {a : Action} (hwf : Wf s.mgr) (hs : sysStep s a = some s') :
    (∀ x ∈ s.log.owned, x ∈ s'.log.owned) ∧
    ∀ x ∈ s'.log.owned, x ∈ s.log.owned ∨
      ∃ o job, launches s a = some (o, job) ∧ x = ⟨s.log.gen, job.svc, s.mgr.heap⟩ := by
  cases hl : launches s a with
  | some r =>
    obtain ⟨o, job⟩ := r
    rw [(sysStep_launch hs hl).2.1, callLaunch_owned]
    refine ⟨fun x hx => List.mem_append_left _ hx, fun x hx => ?_⟩
    rcases List.mem_append.mp hx with hx | hx
    · exact .inl hx
    · split at hx
      · exact .inr ⟨o, job, rfl, List.mem_singleton.mp hx⟩
      · exact absurd hx List.not_mem_nil
  | none =>
    cases hu : a.isUser with
    | false =>
      rw [(sysStep_quiet hwf hs hl hu).2]
      exact ⟨fun x hx => hx, fun x hx => .inl hx⟩
    | true =>
      cases a with
      | user op =>
        obtain ⟨m', hm', rfl⟩ := Option.map_eq_some_iff.mp hs
        exact ⟨fun x hx => hx, fun x hx => .inl hx⟩
      | _ => cases hu

end ContainerSim.Orch
