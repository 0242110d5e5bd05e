import ContainerSim.Runtime.Restart

/-!
# State and pid, id and counter

Two pairings that every guard of the manager relies on: a record has a process
exactly when its state says so, and the counter is past the number of every id
in use, so that ids stay distinct although pruning takes the counter back.
-/

namespace ContainerSim.Runtime

open Lib Sched

/-! ## State and pid -/

theorem pidOk_lasting : Lasting PidOk := fun _ _ h => h.pidOk

/-- A new record is CREATED and has no process. -/
theorem pidOk_new (spec : ContainerSpec) : OfNew PidOk spec := by
  intro o ptr seq rootfs _
  obtain ⟨hstate, hpid⟩ : (newContainer o spec ptr seq).1.state = .created ∧
      (newContainer o spec ptr seq).1.pid = -1 := ⟨rfl, rfl⟩
  refine ⟨fun hlive => ?_, fun _ => hpid⟩
  change (newContainer o spec ptr seq).1.state = _ ∨ _ at hlive
  rw [hstate] at hlive
  exact absurd hlive (by simp)

/-- From an empty manager on, RUNNING and PAUSED records have a process, CREATED
and STOPPED ones have none. -/
theorem state_pid_agree {m₀ m : Manager} {as : List UserOp} (hempty : m₀.list = [])
    (hrun : Runs (fun m op => userStep op m) m₀ as m) :
    ∀ c ∈ m.list, ((c.state = .running ∨ c.state = .paused) → 0 < c.pid) ∧
      ((c.state = .created ∨ c.state = .stopped) → c.pid = -1) := by
  apply hrun.invariant (I := fun m => ∀ c ∈ m.list, PidOk c)
  · intro m op m' h _ hs
    exact pidOk_lasting.userStep (fun spec _ => pidOk_new spec) hs h
  · rw [hempty]
    exact fun _ hc => absurd hc List.not_mem_nil

theorem state_pid_pauseCycle :
    ∃ m, Runs (fun m op => userStep op m) .init (pauseCycle.map .life) m ∧
      ∃ c ∈ m.list, c.state = .running ∧ 0 < c.pid := by
  obtain ⟨m, hrun, c, hc, hstate⟩ := exists_runOk_of_exec (fun m op => userStep op m)
    (fun _ _ => True) .init (pauseCycle.map .life)
    (fun m => ∃ c ∈ m.list, c.state = .running) (by decide +kernel)
  exact ⟨m, hrun, c, hc, hstate, (state_pid_agree rfl hrun c hc).1 (.inl hstate)⟩

/-! ## Ids -/

/-- The records that an operation leaves, by identity: some of those that were
there, and at most one new one if it creates one. -/
theorem userStep_idents {m m' : Manager} {op : UserOp} (h : Wf m)
    (hs : userStep op m = some m') :
    (idents m').Subperm (idents m) ∨ ∃ spec, op.creates = some spec ∧ Grows spec m m' := by
  cases op with
  | prune poll save =>
    cases hs
    refine .inl ?_
    rw [← idents_pollStates poll m]
    exact ((pruneList_sublist _ _).map Container.ident).subperm
  | life a =>
    cases a with
    | create o spec => cases hs; exact .inr ⟨spec, rfl, containerCreate_grows h o spec⟩
    | start poll o id =>
      cases hs
      have heq := idents_withContainer h poll id (startContainer_same o true true)
      exact .inl (heq ▸ List.Subperm.refl _)
    | run o spec => cases hs; exact .inr ⟨spec, rfl, containerRun_grows h o spec⟩
    | runBackground o spec =>
      cases hs; exact .inr ⟨spec, rfl, containerRunBackground_grows h o spec⟩
    | stop poll o id timeoutS => cases hs; exact .inl (containerStop_quiet h poll o id timeoutS).idents
    | pause poll kill save id => cases hs; exact .inl (containerPause_quiet h poll kill save id).idents
    | unpause poll kill save id =>
      cases hs; exact .inl (containerUnpause_quiet h poll kill save id).idents
    | delete poll save id => cases hs; exact .inl (containerDelete_quiet h poll save id).idents
    | poll o => cases hs; exact .inl (pollStates_quiet o m).idents

/-- Distinct ids of some form. -/
structure IdsOf (P : Bytes → Prop) (m : Manager) : Prop extends Wf m where
  ids : (m.list.map Container.id).Nodup
  form : ∀ c ∈ m.list, P c.id

theorem map_id_eq (m : Manager) : m.list.map Container.id = (idents m).map Ident.id := by
  rw [idents, List.map_map]
  rfl

theorem IdsOf.of_subperm {P : Bytes → Prop} {m m' : Manager} (h : IdsOf P m) (hwf : Wf m')
    (hsub : (idents m').Subperm (idents m)) : IdsOf P m' := by
  refine ⟨hwf, ?_, fun c' hc' => ?_⟩
  · obtain ⟨l, hperm, hl⟩ := hsub
    rw [map_id_eq]
    refine (hperm.map _).nodup_iff.mp ?_
    have hids := h.ids
    rw [map_id_eq] at hids
    exact hids.sublist (hl.map _)
  · obtain ⟨c, hc, hid⟩ := mem_idents.mp (hsub.subset (ident_mem hc'))
    have heq : c.id = c'.id := congrArg Ident.id hid
    rw [← heq]
    exact h.form c hc

/-- A new record takes the number of the counter, which no id has. -/
theorem IdsOf.grows {P : Bytes → Prop} {spec : ContainerSpec} {m m' : Manager} (h : IdsOf P m)
    (hnew : P (containerId m.nextSequence)) (hg : Grows spec m m') : IdsOf P m' := by
  refine ⟨h.toWf.grows hg, ?_, fun c' hc' => ?_⟩
  · have hnd : ((idents m ++ [newIdent spec m]).map Ident.id).Nodup := by
      rw [List.map_append, List.map_singleton, ← map_id_eq, List.nodup_append]
      refine ⟨h.ids, List.nodup_singleton _, fun a ha b hb => ?_⟩
      obtain ⟨c, hc, rfl⟩ := List.mem_map.mp ha
      rw [List.mem_singleton.mp hb]
      exact h.fresh c hc _ (Nat.le_refl _)
    obtain ⟨l, hperm, hl⟩ := hg.idents
    rw [map_id_eq]
    exact (hperm.map _).nodup_iff.mp (hnd.sublist (hl.map _))
  · rcases hg.later c' hc' with ⟨c, hc, hl⟩ | ⟨hid, -⟩
    · rw [hl.same.id]
      exact h.form c hc
    · have heq : c'.id = containerId m.nextSequence := congrArg Ident.id hid
      rw [heq]
      exact hnew

/-- Ids stay distinct and of a form that the ids of new records have. -/
theorem IdsOf.step {P : Bytes → Prop} {m m' : Manager} {op : UserOp} (h : IdsOf P m)
    (hnew : ∀ spec, op.creates = some spec → P (containerId m.nextSequence))
    (hs : userStep op m = some m') : IdsOf P m' := by
  rcases userStep_idents h.toWf hs with hsub | ⟨spec, hspec, hg⟩
  · exact h.of_subperm (h.toWf.userStep hs) hsub
  · exact h.grows (hnew spec hspec) hg

/-- Distinct ids, each printed from a number. -/
structure Numbered (m : Manager) : Prop extends Wf m where
  ids : (m.list.map Container.id).Nodup
  form : ∀ c ∈ m.list, ∃ k : Nat, c.id = containerId k

theorem Numbered.step {m m' : Manager} {op : UserOp} (h : Numbered m)
    (hs : userStep op m = some m') : Numbered m' := by
  have hids : IdsOf (fun id => ∃ k : Nat, id = containerId k) m := ⟨h.toWf, h.ids, h.form⟩
  obtain ⟨hwf, hnodup, hform⟩ := hids.step (fun _ _ => ⟨m.nextSequence, rfl⟩) hs
  exact ⟨hwf, hnodup, hform⟩

/-- The counter is past the number of every id. -/
theorem Numbered.lt {m : Manager} (h : Numbered m) {c : Container} (hc : c ∈ m.list) :
    ∃ k : Nat, idNumber c.id = some (k : Int) ∧ k < m.nextSequence := by
  obtain ⟨k, hk⟩ := h.form c hc
  refine ⟨k, hk ▸ idNumber_containerId k, ?_⟩
  by_contra hge
  exact h.fresh c hc k (Nat.le_of_not_lt hge) hk

/-- A restored list: records of their own, distinct ids as `%04d` prints them,
each fed to `update_next_sequence`. -/
structure RestoredList (m : Manager) : Prop where
  ptrs : (m.list.map Container.ptr).Nodup
  heap : ∀ c ∈ m.list, c.ptr < m.heap
  ids : (m.list.map Container.id).Nodup
  form : ∀ c ∈ m.list, ∃ k : Nat, c.id = containerId k
  seq : m.nextSequence = m.list.foldl (fun next c => updateNextSequence next c.id) 1

theorem restoredList_init : RestoredList Manager.init :=
  ⟨by decide, by decide, by decide, fun _ hc => absurd hc List.not_mem_nil, rfl⟩

theorem RestoredList.numbered {m : Manager} (h : RestoredList m) : Numbered m := by
  refine ⟨⟨h.ptrs, h.heap, fun c hc k hk => ?_⟩, h.ids, h.form⟩
  exact (foldl_updateNextSequence m.list 1).2 c hc k (h.seq ▸ hk)

/-- Ids stay distinct, and the counter is greater than the number read back from
any of them. -/
theorem ids_unique {m₀ m : Manager} {as : List UserOp} (h₀ : RestoredList m₀)
    (hrun : Runs (fun m op => userStep op m) m₀ as m) :
    (m.list.map Container.id).Nodup ∧
    ∀ c ∈ m.list, ∃ k : Nat, idNumber c.id = some (k : Int) ∧ k < m.nextSequence := by
  have hnum : Numbered m := hrun.invariant (fun _ _ _ h _ hs => h.step hs) h₀.numbered
  exact ⟨hnum.ids, fun c hc => hnum.lt hc⟩

/-- Two records restored from the file, the later number first. -/
def restoredPair : Manager :=
  { Manager.init with
    list := [(newContainer .clean .zero 0 12).1, (newContainer .clean .zero 1 7).1]
    nextSequence := 13
    heap := 2 }

/-- `container-0007` is started, then a create, a delete, a prune and another
create: the counter goes 14, 8, 9. -/
def pruneCycle : List UserOp :=
  [.life (.start .quiet (.clean (.ofNat 100)) (containerId 7)), .life (.create .clean .zero),
    .life (.delete .quiet true (containerId 12)), .prune .quiet true,
    .life (.create .clean .zero)]

theorem ids_unique_pruneCycle :
    RestoredList restoredPair ∧
    ∃ m, Runs (fun m op => userStep op m) restoredPair pruneCycle m ∧
      m.list.map Container.id = [containerId 7, containerId 8] ∧
      (m.list.map Container.id).Nodup ∧ m.nextSequence = 9 := by
  obtain ⟨m, hrun, hids, hseq⟩ := exists_runOk_of_exec (fun m op => userStep op m) (fun _ _ => True)
    restoredPair pruneCycle
    (fun m => m.list.map Container.id = [containerId 7, containerId 8] ∧ m.nextSequence = 9)
    (by decide +kernel)
  have hrestored : RestoredList restoredPair := by
    refine ⟨by decide, by decide, by decide, fun c hc => ?_, by decide +kernel⟩
    simp only [restoredPair, List.mem_cons, List.not_mem_nil, or_false] at hc
    rcases hc with rfl | rfl
    · exact ⟨12, rfl⟩
    · exact ⟨7, rfl⟩
  exact ⟨hrestored, m, hrun, hids, (ids_unique hrestored hrun).1, hseq⟩

end ContainerSim.Runtime
