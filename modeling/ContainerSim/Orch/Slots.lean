import ContainerSim.Orch.Calls
import ContainerSim.Orch.Shutdown

/-!
# Which service a container id belongs to

Facts about `container_id` that need no look at the containers: the services a
thread works for exist, `orch_run` enters an id only into a service that has
none, and `orch_down` leaves no id behind.
-/

namespace ContainerSim.Orch

open Lib ContainerSim.Runtime

/-- Services the monitor still works for. -/
def MonPc.slots : MonPc → List Nat
  | .commit job _ _ _ _ rest => job.svc :: rest.map WorkItem.svc
  | mon => mon.work.map WorkItem.svc

/-- The service that `orch_restart_service` works for. -/
def CliPc.slot : CliPc → List Nat
  | .rstStop job _ => [job.svc]
  | .rstDelete job _ => [job.svc]
  | .rstLaunch job _ => [job.svc]
  | .rstStore i _ _ => [i]
  | _ => []

/-- Services whose id `orch_run` has still to enter. -/
def CliPc.unstored : CliPc → List Nat
  | .runNext todo => todo
  | .runLaunch job todo => job.svc :: todo
  | .runStore i _ todo => i :: todo
  | _ => []

/-- Services that may have a container id, while `orch_down` is on its way or
after it. -/
def mayHold (s : Sys) (j : Nat) : Prop :=
  match s.cli with
  | .downNext todo => j ∈ todo
  | .downDelete i todo => j = i ∨ j ∈ todo
  | .idle => s.running = true
  | _ => True

structure Slots (s : Sys) : Prop where
  mon : ∀ i ∈ s.mon.slots, i < s.spec.count
  cli : ∀ i ∈ s.cli.slot, i < s.spec.count
  order : ∀ i ∈ s.cli.unstored, i < s.spec.count ∧ (s.svc i).containerId = []
  nodup : s.cli.unstored.Nodup
  down : ∀ j, (s.svc j).containerId ≠ [] → mayHold s j

theorem slots_init (m : Manager) : Slots (Sys.init m) where
  mon := nofun
  cli := nofun
  order := nofun
  nodup := List.nodup_nil
  down := fun _ h => absurd rfl h

theorem count_setSvc (s : Sys) (i : Nat) (f : Service → Service) :
    (s.setSvc i f).spec.count = s.spec.count := by
  simp [OrchestratorSpec.count, Sys.setSvc]

/-- An index past the services stands for the all-zero record. -/
theorem Sys.svc_of_ge {s : Sys} {i : Nat} (h : s.spec.count ≤ i) : s.svc i = .zero := by
  rw [Sys.svc, List.getElem?_eq_none h]
  rfl

theorem Sys.lt_of_containerId {s : Sys} {i : Nat} (h : (s.svc i).containerId ≠ []) :
    i < s.spec.count := by
  by_contra hge
  rw [Sys.svc_of_ge (Nat.le_of_not_lt hge)] at h
  exact h rfl

/-! ## The monitor -/

theorem slots_of_work {mon mon' : MonPc} (h : mon'.slots = mon'.work.map WorkItem.svc)
    (hsub : mon'.work ⊆ mon.work) : ∀ i ∈ mon'.slots, i ∈ mon.slots := by
  intro i hi
  rw [h] at hi
  obtain ⟨w, hw, rfl⟩ := List.mem_map.mp hi
  have hmap : w.svc ∈ mon.work.map WorkItem.svc := List.mem_map_of_mem (hsub hw)
  unfold MonPc.slots
  split
  · exact List.mem_cons_of_mem _ hmap
  · exact hmap

theorem MonPc.between_slots {mon : MonPc} (h : mon.between = true) :
    mon.slots = mon.work.map WorkItem.svc := by
  cases mon with
  | commit => cases h
  | _ => rfl

/-- The monitor takes up work only for services of the spec. -/
theorem monStep_slots {o : Answers} {s s' : Sys} (hs : monStep o s = some s') :
    ∀ i ∈ s'.mon.slots, i ∈ s.mon.slots ∨ i < s.spec.count := by
  have hrest : ∀ rest : List WorkItem, rest ⊆ s.mon.work →
      ∀ i ∈ rest.map WorkItem.svc, i ∈ s.mon.slots ∨ i < s.spec.count := by
    intro rest hw i hi
    have hslots : (MonPc.items rest).slots = rest.map WorkItem.svc := rfl
    exact .inl (slots_of_work hslots hw i hi)
  cases monStep_move hs with
  | goOn _ _ hwork hbetween =>
    exact fun i hi => .inl (slots_of_work (MonPc.between_slots hbetween) hwork.subset i hi)
  | skip hmon =>
    refine hrest _ ?_
    rw [hmon]
    exact fun w hw => hw
  | seen hmon hi =>
    intro j hj
    obtain ⟨w, hw, rfl⟩ := List.mem_map.mp hj
    rcases List.mem_append.mp hw with hw | hw
    · rw [hmon]
      exact .inl (List.mem_map_of_mem hw)
    · rw [collectSvc_svc _ _ _ _ _ w hw]
      exact .inr hi
  | health hmon =>
    refine hrest _ ?_
    rw [hmon]
    exact List.subset_cons_self _ _
  | delete hmon =>
    refine hrest (.restart _ _ _ _ :: _) ?_
    rw [hmon]
    exact fun w hw => hw
  | launch hmon =>
    -- the service stays the one of the item
    rw [hmon]
    exact fun i hi => .inl hi
  | commit hmon | failed hmon | takeBack hmon | giveUp hmon | undoStop hmon | undoDelete hmon =>
    refine hrest _ ?_
    rw [hmon]
    exact fun w hw => hw

/-- While the monitor runs, neither loop of the command line does. -/
theorem InOrder.monOn {s : Sys} (h : InOrder s) (hon : s.mon ≠ .off) :
    s.cli.unstored = [] ∧ ∀ j, mayHold s j := by
  have hoff : s.cli.monOff ≠ true := fun hc => hon (h.monOff (.inl hc))
  have hidle : s.cli = .idle → s.running = true := by
    intro hc
    cases hr : s.running with
    | true => rfl
    | false => exact absurd (h.monOff (.inr ⟨hc, hr⟩)) hon
  unfold mayHold
  cases hc : s.cli with
  | idle => exact ⟨rfl, fun _ => hidle hc⟩
  | rstStop job old => exact ⟨rfl, fun _ => trivial⟩
  | rstDelete job old => exact ⟨rfl, fun _ => trivial⟩
  | rstLaunch job old => exact ⟨rfl, fun _ => trivial⟩
  | rstStore i old new => exact ⟨rfl, fun _ => trivial⟩
  | downJoin => exact ⟨rfl, fun _ => trivial⟩
  | _ =>
    rw [hc] at hoff
    exact absurd rfl hoff

theorem Slots.monStep {o : Answers} {s s' : Sys} (h : Slots s) (hin : InOrder s)
    (hs : monStep o s = some s') : Slots s' := by
  have hf := monStep_frame hs
  obtain ⟨hun, hhold⟩ := hin.monOn hf.on
  have hcount := count_congr hf.static
  constructor
  · intro i hi
    rw [hcount]
    exact (monStep_slots hs i hi).elim (h.mon i) id
  · rw [hf.cli, hcount]
    exact h.cli
  · rw [hf.cli, hun]
    exact nofun
  · rw [hf.cli]
    exact h.nodup
  · intro j _
    have := hhold j
    rwa [mayHold, ← hf.cli, ← hf.running] at this

/-! ## The command line -/

theorem containerId_setSvc (s : Sys) (i j : Nat) {f : Service → Service}
    (hf : ∀ svc, (f svc).containerId = svc.containerId) :
    ((s.setSvc i f).svc j).containerId = (s.svc j).containerId :=
  s.svc_setSvc_field Service.containerId i j hf

/-- A step that takes up no service. -/
theorem Slots.move {s s' : Sys} (h : Slots s) (hcount : s'.spec.count = s.spec.count)
    (hmon : s'.mon.slots ⊆ s.mon.slots) (hcli : s'.cli.slot ⊆ s.cli.slot)
    (hun : s'.cli.unstored.Sublist s.cli.unstored)
    (hids : ∀ i ∈ s'.cli.unstored, (s'.svc i).containerId = (s.svc i).containerId)
    (hdown : ∀ j, (s'.svc j).containerId ≠ [] → mayHold s' j) : Slots s' := by
  constructor
  · rw [hcount]
    exact fun i hi => h.mon i (hmon hi)
  · rw [hcount]
    exact fun i hi => h.cli i (hcli hi)
  · intro i hi
    rw [hcount, hids i hi]
    exact h.order i (hun.subset hi)
  · exact h.nodup.sublist hun
  · exact hdown

theorem Slots.cliStep {o : Answers} {s s' : Sys} (h : Slots s) (hin : InOrder s)
    (hs : cliStep o s = some s') : Slots s' := by
  have hsub : ∀ l : List Nat, l ⊆ l := fun _ _ hi => hi
  have hnil : ∀ l : List Nat, [] ⊆ l := List.nil_subset
  have hmust := hin.running
  cases cliStep_move hs with
  | runEnd => exact h.move rfl (hsub _) (hnil _) (List.nil_sublist _) nofun fun _ _ => trivial
  | runNext hcli =>
    refine h.move (count_setSvc s _ _) (hsub _) (hnil _) ?_
      (fun j _ => containerId_setSvc s _ j fun _ => rfl) fun _ _ => trivial
    rw [hcli]
    exact List.Sublist.refl _
  | runLaunch hcli =>
    refine h.move rfl (hsub _) (hnil _) ?_ (fun _ _ => rfl) fun _ _ => trivial
    rw [hcli]
    exact List.Sublist.refl _
  | runFailed hcli =>
    refine h.move (count_setSvc s _ _) (hsub _) (hnil _) ?_
      (fun j _ => containerId_setSvc s _ j fun _ => rfl) fun _ _ => trivial
    rw [hcli]
    exact List.sublist_cons_self _ _
  | @runStore i id todo hcli =>
    -- the id is entered, the services still to come have none
    have hnd := h.nodup
    rw [hcli] at hnd
    refine h.move (count_setSvc s i _) (hsub _) (hnil _) ?_ (fun j hj => ?_) fun _ _ => trivial
    · rw [hcli]
      exact List.sublist_cons_self _ _
    · have hne : j ≠ i := fun hji => (List.nodup_cons.mp hnd).1 (hji ▸ hj)
      exact congrArg Service.containerId (s.svc_setSvc_ne _ hne)
  | runSpawn hcli =>
    rw [hcli] at hmust
    refine h.move rfl ?_ (hnil _) (List.nil_sublist _) nofun fun _ _ => hmust rfl
    show (if o.spawn = true then _ else _ : MonPc).slots ⊆ _
    split <;> exact hnil _
  | rstStop hcli | rstDelete hcli | rstLaunch hcli =>
    refine h.move rfl (hsub _) ?_ (List.nil_sublist _) nofun fun _ _ => trivial
    rw [hcli]
    exact hsub _
  | rstFailed hcli | rstStore hcli =>
    rw [hcli] at hmust
    exact h.move (count_setSvc s _ _) (hsub _) (hnil _) (List.nil_sublist _) nofun
      fun _ _ => hmust rfl
  | downJoin =>
    -- every service with an id is in the order
    refine h.move rfl (hsub _) (hnil _) (List.nil_sublist _) nofun fun j hj => ?_
    show j ∈ (downOrder s.spec o.garbage).reverse
    have hperm := topoSort_perm ((topoSort_eq_count_iff _).mp hin.sorts)
    rw [hin.downOrder_eq, List.mem_reverse, hperm.mem_iff, List.mem_range]
    exact Sys.lt_of_containerId hj
  | downEnd hcli =>
    refine h.move rfl (hsub _) (hnil _) (List.nil_sublist _) nofun fun j hj => ?_
    have hheld := h.down j hj
    rw [mayHold, hcli] at hheld
    exact absurd hheld List.not_mem_nil
  | downSkip hcli hid =>
    refine h.move rfl (hsub _) (hnil _) (List.nil_sublist _) nofun fun j hj => ?_
    have hheld := h.down j hj
    rw [mayHold, hcli] at hheld
    rcases List.mem_cons.mp hheld with rfl | hmem
    · exact absurd hid hj
    · exact hmem
  | downStop hcli =>
    refine h.move rfl (hsub _) (hnil _) (List.nil_sublist _) nofun fun j hj => ?_
    have hheld := h.down j hj
    rw [mayHold, hcli] at hheld
    exact List.mem_cons.mp hheld
  | @downDelete i todo hcli =>
    refine h.move (count_setSvc _ i _) (hsub _) (hnil _) (List.nil_sublist _) nofun fun j hj => ?_
    show j ∈ todo
    change (((callDelete o i (s.svc i).containerId s).setSvc i clearedSvc).svc j).containerId ≠ []
      at hj
    rcases (callDelete o i (s.svc i).containerId s).svc_setSvc i j clearedSvc with hsame | ⟨-, hset⟩
    · rw [hsame] at hj
      have hheld := h.down j hj
      rw [mayHold, hcli] at hheld
      refine hheld.resolve_left fun hji => hj ?_
      -- the update would have hit it
      rw [← hsame, hji, Sys.svc_setSvc_eq _ _ (Sys.lt_of_containerId (hji ▸ hj))]
      rfl
    · rw [hset] at hj
      exact absurd rfl hj

theorem Slots.begun {s : Sys} {parsed : ParsedSpec} (hoff : s.mon = .off)
    (hvalid : orchValidate parsed.spec = 0) : Slots (begun parsed s) := by
  have hperm := topoSort_perm (orchValidate_ok hvalid).1
  constructor
  · intro i hi
    simp only [Orch.begun, hoff] at hi
    exact absurd hi List.not_mem_nil
  · exact nofun
  · intro i hi
    have hlt : i < parsed.spec.count := List.mem_range.mp (hperm.mem_iff.mp hi)
    refine ⟨hlt, ?_⟩
    have hget : parsed.spec.services[i]? = some parsed.spec.services[i] :=
      List.getElem?_eq_getElem hlt
    simp only [Orch.begun, Sys.svc, hget, Option.getD_some]
    exact (parsed.fresh _ (List.getElem_mem hlt)).1
  · exact hperm.nodup_iff.mpr List.nodup_range
  · exact fun _ _ => trivial

theorem Slots.step {s s' : Sys} {a : Action} (h : Slots s) (hin : InOrder s)
    (hs : sysStep s a = some s') : Slots s' := by
  cases sysStep_move hs with
  | refused => exact h
  | run hidle hstopped hvalid => exact .begun (hin.monOff (.inr ⟨hidle, hstopped⟩)) hvalid
  | @restart name i hidle hrun hfind =>
    have hcount := count_setSvc s i restartingSvc
    constructor
    · exact fun j hj => Nat.lt_of_lt_of_eq (h.mon j hj) hcount.symm
    · intro j hj
      rw [List.mem_singleton.mp hj]
      exact Nat.lt_of_lt_of_eq (findSvc_lt hfind) hcount.symm
    · exact nofun
    · exact List.nodup_nil
    · exact fun _ _ => trivial
  | down =>
    exact h.move rfl (fun _ hi => hi) (List.nil_subset _) (List.nil_sublist _) nofun
      fun _ _ => trivial
  | cli hs => exact h.cliStep hin hs
  | mon hs => exact h.monStep hin hs
  | user => exact ⟨h.mon, h.cli, h.order, h.nodup, h.down⟩

end ContainerSim.Orch
