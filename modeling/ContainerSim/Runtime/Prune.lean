import ContainerSim.Runtime.Pairing

/-!
# Pruning against deleting

`container_prune_all` removes the records without a process in one pass over the
list. `container_delete`, called for each of them in turn, looks the record up,
checks it, cleans its network up and saves the list. What the two leave and what
they do outside the list is compared from the list that the poll at the start of
the prune leaves, and no process ends while the deletions go on.

The cleaning up is what the prune leaves out: the two agree where there is
nothing to clean up.
-/

namespace ContainerSim.Runtime

open Lib Sched

/-! ## One deletion -/

/-- The effects one after the other. -/
def World.emits (w : World) (es : List Effect) : World := { w with trace := w.trace ++ es }

theorem World.emits_nil (w : World) : w.emits [] = w := by
  rw [World.emits, List.append_nil]

theorem World.emits_emits (w : World) (es es' : List Effect) :
    (w.emits es).emits es' = w.emits (es ++ es') := by
  simp only [World.emits, List.append_assoc]

/-- What `cleanup_container_network` does to the host for a record. -/
def teardown (c : Container) : List Effect :=
  (if c.ipAddress ≠ [] then c.portMaps.map fun pm => .delPortForward pm c.ipAddress else []) ++
    if c.vethHost ≠ [] then [.teardownVeth c.vethHost] else []

theorem delPortForwards_emits (ip : Bytes) (pms : List PortMapping) (w : World) :
    delPortForwards ip pms w = w.emits (pms.map fun pm => .delPortForward pm ip) := by
  induction pms generalizing w with
  | nil => exact w.emits_nil.symm
  | cons pm pms ih =>
    show delPortForwards ip pms (w.emits [.delPortForward pm ip]) = _
    rw [ih, World.emits_emits]
    rfl

theorem cleanupContainerNetwork_emits (c : Container) (w : World) :
    (cleanupContainerNetwork c w).2 = w.emits (teardown c) := by
  have hrules : (if c.ipAddress ≠ [] then delPortForwards c.ipAddress c.portMaps w else w) =
      w.emits (if c.ipAddress ≠ [] then c.portMaps.map fun pm => .delPortForward pm c.ipAddress
        else []) := by
    split
    · exact delPortForwards_emits _ _ w
    · exact w.emits_nil.symm
  unfold cleanupContainerNetwork
  simp only
  rw [hrules, teardown, ← World.emits_emits]
  split
  · rfl
  · exact (World.emits_nil _).symm

/-- There is nothing to clean up: no interface, and no forward that an address
goes with. -/
def Unwired (c : Container) : Prop := c.vethHost = [] ∧ (c.ipAddress = [] ∨ c.portMaps = [])

instance (c : Container) : Decidable (Unwired c) := by unfold Unwired; infer_instance

theorem teardown_eq_nil {c : Container} : teardown c = [] ↔ Unwired c := by
  rw [teardown, List.append_eq_nil_iff, Unwired, and_comm]
  refine and_congr ?_ ?_
  · by_cases hveth : c.vethHost = []
    · simp [hveth]
    · simp [hveth]
  · by_cases hip : c.ipAddress = []
    · simp [hip]
    · simp [hip]

/-- A poll that finds these records as they are. -/
def Still (o : PollOutcome) (list : List Container) : Prop :=
  ∀ c ∈ list, ∀ w, pollRecord (o.sync c.ptr) c w = (c, w, false)

theorem still_quiet (list : List Container) : Still .quiet list := by
  intro c _ w
  rw [pollRecord, if_neg (by simp [PollOutcome.quiet]), syncContainerState]
  split
  · rfl
  · split
    · rfl
    · rfl

theorem Still.pollList {o : PollOutcome} {list : List Container} (h : Still o list) (w : World) :
    pollList o.sync list w = (list, w, false) := by
  induction list with
  | nil => rfl
  | cons c cs ih =>
    rw [Runtime.pollList, h c List.mem_cons_self w]
    simp only
    rw [ih fun d hd => h d (List.mem_cons_of_mem _ hd)]
    rfl

theorem Still.pollStates {o : PollOutcome} {m : Manager} (h : Still o m.list) :
    pollStates o m = m := by
  rw [Runtime.pollStates, h.pollList]
  rfl

theorem find_by_id {list : List Container} (hids : (list.map Container.id).Nodup) {c : Container}
    (hc : c ∈ list) : findContainer list c.id = some c := by
  obtain ⟨d, hfind, hid⟩ := findContainer_of_id ⟨c, hc, rfl⟩
  rw [hfind, List.inj_on_of_nodup_map hids (mem_of_findContainer hfind).1 hc hid]

/-- What the deletion of a record does outside the list. -/
def deletion (c : Container) : List Effect :=
  teardown c ++ [.save true, .event .deleted c.id [] 0]

/-- `container_delete` on a record without a process, found as the poll before
left it. -/
theorem containerDelete_idle {poll : PollOutcome} {m : Manager} {c : Container}
    (hstill : Still poll m.list) (hids : (m.list.map Container.id).Nodup) (hc : c ∈ m.list)
    (hid : c.id ≠ []) (hidle : ¬ Live c) :
    containerDelete poll true c.id m =
      ({ m with
          list := removeContainer m.list c.ptr
          world := m.world.emits (deletion c) }, 0) := by
  have hsame := (cleanupContainerNetwork_spec c m.world).1
  have hworld := cleanupContainerNetwork_emits c m.world
  have hguard : ¬ (c.state = .running ∨ c.state = .paused) := hidle
  rw [containerDelete, if_neg hid, hstill.pollStates]
  simp only
  rw [find_by_id hids hc]
  simp only
  rw [if_neg hguard]
  generalize cleanupContainerNetwork c m.world = r at hsame hworld ⊢
  rw [hsame.ptr, hsame.id, hworld, if_neg (by simp), deletion, ← World.emits_emits]
  simp only [World.emit, World.emits, List.append_assoc, List.cons_append, List.nil_append]

/-! ## All of them -/

/-- The manager with what its metadata file holds. -/
structure Stored where
  manager : Manager
  file : Bytes
  deriving DecidableEq

/-- A deletion whose save succeeds has written the list it leaves. -/
def Stored.delete (poll : PollOutcome) (id : Bytes) (s : Stored) : Stored :=
  let (m, rc) := containerDelete poll true id s.manager
  ⟨m, if rc = 0 then saveMetadata m.list else s.file⟩

/-- The records that `container_delete` accepts. -/
def idle (list : List Container) : List Container := list.filter fun c => ¬ Live c

/-- `container_delete` on each record without a process, in list order, with the
answers that each call gets. -/
def Stored.deleteIdle (polls : Bytes → PollOutcome) (s : Stored) : Stored :=
  (idle s.manager.list).foldl (fun s c => s.delete (polls c.id) c.id) s

/-- `container_prune_all`, the save succeeding. -/
def Stored.prune (poll : PollOutcome) (s : Stored) : Stored :=
  let m := containerPruneAll poll true s.manager
  ⟨m, saveMetadata m.list⟩

theorem idle_cons_live {c : Container} (h : Live c) (cs : List Container) :
    idle (c :: cs) = idle cs := by
  rw [idle, List.filter_cons_of_neg (by simpa using h)]
  rfl

theorem idle_cons_idle {c : Container} (h : ¬ Live c) (cs : List Container) :
    idle (c :: cs) = c :: idle cs := by
  rw [idle, List.filter_cons_of_pos (by simpa using h)]
  rfl

/-- The removal loop keeps the live records and reports the others. -/
theorem pruneList_eq (list : List Container) (w : World) :
    pruneList list w =
      (list.filter Live, w.emits ((idle list).map fun c => .event .deleted c.id [] 0)) := by
  induction list generalizing w with
  | nil => exact congrArg (Prod.mk []) w.emits_nil.symm
  | cons c cs ih =>
    have hlive : (c.state ≠ .running ∧ c.state ≠ .paused) ↔ ¬ Live c := not_or.symm
    rw [pruneList]
    by_cases h : Live c
    · rw [if_neg (fun hidle => hlive.mp hidle h), ih, idle_cons_live h,
        List.filter_cons_of_pos (by simpa using h)]
    · rw [if_pos (hlive.mpr h), ih, idle_cons_idle h, List.filter_cons_of_neg (by simpa using h)]
      show (_, (w.emits [_]).emits _) = _
      rw [World.emits_emits]
      rfl

/-- What the deletions that are still to come leave, with the records in front
of them live. -/
theorem foldl_delete {polls : Bytes → PollOutcome} (m : Manager) (file : Bytes)
    (front : List Container) {rest : List Container} (hptrs : PtrNodup (front ++ rest))
    (hids : ((front ++ rest).map Container.id).Nodup) (hne : ∀ c ∈ rest, c.id ≠ [])
    (hstill : ∀ id, Still (polls id) (front ++ rest)) (w : World) :
    (idle rest).foldl (fun s c => s.delete (polls c.id) c.id)
        (⟨{ m with list := front ++ rest, world := w }, file⟩ : Stored) =
      ⟨{ m with
          list := front ++ rest.filter Live
          world := w.emits ((idle rest).flatMap deletion) },
        if idle rest = [] then file else saveMetadata (front ++ rest.filter Live)⟩ := by
  induction rest generalizing front file w with
  | nil =>
    show (⟨_, file⟩ : Stored) = ⟨{ m with list := front ++ [], world := w.emits [] }, file⟩
    rw [World.emits_nil]
  | cons c cs ih =>
    have hshift : front ++ c :: cs = (front ++ [c]) ++ cs := List.append_cons front c cs
    by_cases h : Live c
    · rw [idle_cons_live h, List.filter_cons_of_pos (by simpa using h), hshift,
        ih file (front ++ [c]) (hshift ▸ hptrs) (hshift ▸ hids)
          (fun d hd => hne d (List.mem_cons_of_mem _ hd)) (fun id => hshift ▸ hstill id) w,
        ← List.append_cons]
    · -- the deletion takes the record out, and the others are the list of the next call
      have hsub : (front ++ cs).Sublist (front ++ c :: cs) :=
        (List.sublist_cons_self c cs).append_left front
      have hc : c ∈ front ++ c :: cs := List.mem_append_right _ List.mem_cons_self
      have hdelete : Stored.delete (polls c.id) c.id
          ⟨{ m with list := front ++ c :: cs, world := w }, file⟩ =
          ⟨{ m with list := front ++ cs, world := w.emits (deletion c) },
            saveMetadata (front ++ cs)⟩ := by
        have hcall := containerDelete_idle (m := { m with list := front ++ c :: cs, world := w })
          (hstill c.id) hids hc (hne c List.mem_cons_self) h
        rw [Stored.delete, hcall, removeContainer_split hptrs]
        rfl
      rw [idle_cons_idle h, List.foldl_cons, hdelete, List.filter_cons_of_neg (by simpa using h),
        ih (saveMetadata (front ++ cs)) front (hptrs.sublist (hsub.map _)) (hids.sublist (hsub.map _))
          (fun d hd => hne d (List.mem_cons_of_mem _ hd))
          (fun id d hd => hstill id d (hsub.subset hd)),
        World.emits_emits, List.flatMap_cons, if_neg (List.cons_ne_nil _ _)]
      congr 1
      split
      · rename_i hnone
        have hall : cs.filter Live = cs := by
          rw [List.filter_eq_self]
          intro d hd
          by_contra hd'
          have hmem : d ∈ idle cs := List.mem_filter.mpr ⟨hd, by simpa using hd'⟩
          rw [hnone] at hmem
          exact absurd hmem List.not_mem_nil
        rw [hall]
      · rfl

/-! ## The counter -/

/-- The largest number of an id in the list, 0 without one. -/
def highestNumber (list : List Container) : Nat :=
  list.foldr (fun c n => max (((idNumber c.id).map Int.toNat).getD 0) n) 0

theorem updateNextSequence_eq {next : Nat} (hpos : 0 < next) (id : Bytes) :
    updateNextSequence next id = max next (((idNumber id).map Int.toNat).getD 0 + 1) := by
  rw [updateNextSequence]
  cases idNumber id with
  | none => exact (max_eq_left hpos).symm
  | some v =>
    show (if v ≥ next then v.toNat + 1 else next) = max next (v.toNat + 1)
    split
    · omega
    · omega

theorem foldl_updateNextSequence_eq (list : List Container) {next : Nat} (hpos : 0 < next) :
    list.foldl (fun next c => updateNextSequence next c.id) next =
      max next (highestNumber list + 1) := by
  induction list generalizing next with
  | nil => exact (max_eq_left hpos).symm
  | cons c cs ih =>
    have hnext := updateNextSequence_eq hpos c.id
    rw [List.foldl_cons, ih (by omega), hnext]
    show _ = max next (max _ (highestNumber cs) + 1)
    omega

theorem containerPruneAll_eq (poll : PollOutcome) (m : Manager) :
    containerPruneAll poll true m =
      { pollStates poll m with
        list := (pollStates poll m).list.filter Live
        nextSequence := highestNumber ((pollStates poll m).list.filter Live) + 1
        world := (pollStates poll m).world.emits
          ((idle (pollStates poll m).list).map (fun c => .event .deleted c.id [] 0) ++
            [.save true]) } := by
  rw [containerPruneAll]
  simp only
  rw [pruneList_eq]
  simp only
  rw [foldl_updateNextSequence_eq _ Nat.one_pos, max_eq_right (Nat.le_add_left 1 _),
    ← World.emits_emits]
  rfl

/-! ## The comparison -/

/-- What is done outside the manager and its file. -/
def outside (trace : List Effect) : List Effect :=
  trace.filter fun e => match e with
    | .save _ => false
    | _ => true

/-- The same but for the counter and for how often the file was written. -/
structure Agree (s s' : Stored) : Prop where
  list : s.manager.list = s'.manager.list
  heap : s.manager.heap = s'.manager.heap
  sched : s.manager.world.sched = s'.manager.world.sched
  nextIpHost : s.manager.world.nextIpHost = s'.manager.world.nextIpHost
  outside : outside s.manager.world.trace = outside s'.manager.world.trace
  file : s.file = s'.file

/-- The prune keeps the RUNNING and PAUSED records in their order and takes the
counter back; for the rest it is the deletion of the records that its poll has
left without a process. -/
structure PruneDeletes (poll : PollOutcome) (polls : Bytes → PollOutcome) (s : Stored) :
    Prop where
  kept : (s.prune poll).manager.list = (pollStates poll s.manager).list.filter Live
  counter : (s.prune poll).manager.nextSequence =
    highestNumber (s.prune poll).manager.list + 1
  agree : Agree (Stored.deleteIdle polls ⟨pollStates poll s.manager, s.file⟩) (s.prune poll)

theorem outside_teardown (c : Container) : outside (teardown c) = teardown c := by
  rw [outside, List.filter_eq_self]
  intro e he
  rw [teardown, List.mem_append] at he
  rcases he with he | he
  · split at he
    · obtain ⟨pm, -, rfl⟩ := List.mem_map.mp he
      rfl
    · exact absurd he List.not_mem_nil
  · split at he
    · rw [List.mem_singleton.mp he]
    · exact absurd he List.not_mem_nil

/-- A list in front of each element is not there exactly if all are empty. -/
theorem flatMap_snoc_eq_map {α β : Type*} (f : α → List β) (g : α → β) (l : List α) :
    (l.flatMap fun a => f a ++ [g a]) = l.map g ↔ ∀ a ∈ l, f a = [] := by
  have hlength : ∀ l : List α, (l.flatMap fun a => f a ++ [g a]).length =
      (l.map fun a => (f a).length).sum + l.length := by
    intro l
    induction l with
    | nil => rfl
    | cons a l ih =>
      simp only [List.flatMap_cons, List.length_append, List.map_cons, List.sum_cons, ih,
        List.length_cons, List.length_nil]
      omega
  constructor
  · intro heq a ha
    have hsum := hlength l
    rw [heq, List.length_map] at hsum
    have hzero : (l.map fun a => (f a).length).sum = 0 := by omega
    exact List.eq_nil_of_length_eq_zero
      (List.sum_eq_zero_iff.mp hzero _ (List.mem_map_of_mem ha))
  · intro hall
    induction l with
    | nil => rfl
    | cons a l ih =>
      rw [List.flatMap_cons, hall a List.mem_cons_self,
        ih fun b hb => hall b (List.mem_cons_of_mem _ hb)]
      rfl

/-- Seen from outside the deletions come to their events exactly if nothing is
cleaned up. -/
theorem outside_deletions {list : List Container} :
    outside (list.flatMap deletion) = list.map (fun c => .event .deleted c.id [] 0) ↔
      ∀ c ∈ list, Unwired c := by
  have hdeletion : ∀ c, outside (deletion c) = teardown c ++ [.event .deleted c.id [] 0] := by
    intro c
    rw [deletion, outside, List.filter_append]
    exact congrArg (· ++ _) (outside_teardown c)
  have houtside : outside (list.flatMap deletion) = list.flatMap fun c => outside (deletion c) :=
    List.filter_flatMap
  rw [houtside, funext hdeletion, flatMap_snoc_eq_map]
  exact forall₂_congr fun c _ => teardown_eq_nil

theorem outside_emits (w : World) (es : List Effect) :
    outside (w.emits es).trace = outside w.trace ++ outside es := List.filter_append ..

theorem outside_pruned (list : List Container) :
    outside (list.map (fun c => .event .deleted c.id [] 0) ++ [.save true]) =
      list.map fun c => .event .deleted c.id [] 0 := by
  rw [outside, List.filter_append, List.filter_eq_self.mpr]
  · exact List.append_nil _
  · intro e he
    obtain ⟨c, -, rfl⟩ := List.mem_map.mp he
    rfl

theorem idle_eq_nil {list : List Container} : idle list = [] ↔ ∀ c ∈ list, Live c := by
  rw [idle, List.filter_eq_nil_iff]
  exact forall₂_congr fun c _ => by simp

/-- What the deletions and the prune leave of one polled list. -/
theorem agree_iff (m : Manager) (file : Bytes) (n : Nat) :
    Agree
        ⟨{ m with
            list := m.list.filter Live
            world := m.world.emits ((idle m.list).flatMap deletion) },
          if idle m.list = [] then file else saveMetadata (m.list.filter Live)⟩
        ⟨{ m with
            list := m.list.filter Live
            nextSequence := n
            world := m.world.emits
              ((idle m.list).map (fun c => .event .deleted c.id [] 0) ++ [.save true]) },
          saveMetadata (m.list.filter Live)⟩ ↔
      (∀ c ∈ idle m.list, Unwired c) ∧ (idle m.list ≠ [] ∨ file = saveMetadata m.list) := by
  have hfile : (if idle m.list = [] then file else saveMetadata (m.list.filter Live)) =
      saveMetadata (m.list.filter Live) ↔ idle m.list ≠ [] ∨ file = saveMetadata m.list := by
    by_cases hnone : idle m.list = []
    · rw [if_pos hnone, List.filter_eq_self.mpr fun c hc => decide_eq_true (idle_eq_nil.mp hnone c hc)]
      exact ⟨.inr, fun h => h.resolve_left (fun hne => hne hnone)⟩
    · rw [if_neg hnone]
      exact ⟨fun _ => .inl hnone, fun _ => rfl⟩
  have htrace : outside (m.world.emits ((idle m.list).flatMap deletion)).trace =
      outside (m.world.emits
        ((idle m.list).map (fun c => .event .deleted c.id [] 0) ++ [.save true])).trace ↔
      ∀ c ∈ idle m.list, Unwired c := by
    rw [outside_emits, outside_emits, outside_pruned, List.append_cancel_left_eq]
    exact outside_deletions
  constructor
  · intro h
    exact ⟨htrace.mp h.outside, hfile.mp h.file⟩
  · rintro ⟨hunwired, hsaved⟩
    exact ⟨rfl, rfl, rfl, rfl, htrace.mpr hunwired, hfile.mpr hsaved⟩

/-- **Pruning is deleting every record without a process** exactly if none of
them has an interface or forwards left, and there is one or the file is up to
date. -/
theorem prune_deletes_iff {m₀ m : Manager} {ops : List UserOp} (h₀ : RestoredList m₀)
    (hrun : Runs (fun m op => userStep op m) m₀ ops m) (poll : PollOutcome)
    {polls : Bytes → PollOutcome} (hstill : ∀ id, Still (polls id) (pollStates poll m).list)
    (file : Bytes) :
    PruneDeletes poll polls ⟨m, file⟩ ↔
      (∀ c ∈ (pollStates poll m).list, ¬ Live c → Unwired c) ∧
      ((∃ c ∈ (pollStates poll m).list, ¬ Live c) ∨
        file = saveMetadata (pollStates poll m).list) := by
  have hnum : Numbered m := hrun.invariant (fun _ _ _ h _ hs => h.step hs) h₀.numbered
  have hquiet := pollStates_quiet poll m
  have hids : ((pollStates poll m).list.map Container.id).Nodup := by
    rw [map_id_eq, idents_pollStates, ← map_id_eq]
    exact hnum.ids
  have hne : ∀ c ∈ (pollStates poll m).list, c.id ≠ [] := by
    intro c hc
    obtain ⟨d, hd, hlater⟩ := hquiet.later c hc
    obtain ⟨k, hk⟩ := hnum.form d hd
    rw [hlater.same.id, hk]
    exact containerId_ne_nil k
  -- both sides are computed, and compared as values
  have hdelete : Stored.deleteIdle polls ⟨pollStates poll m, file⟩ = _ :=
    foldl_delete (pollStates poll m) file [] (hnum.toWf.quiet hquiet).ptrs hids hne
      hstill (pollStates poll m).world
  have hprune : Stored.prune poll ⟨m, file⟩ = _ :=
    congrArg (fun m => (⟨m, saveMetadata m.list⟩ : Stored)) (containerPruneAll_eq poll m)
  have hagree := agree_iff (pollStates poll m) file
    (highestNumber ((pollStates poll m).list.filter Live) + 1)
  have hidle : (∀ c ∈ idle (pollStates poll m).list, Unwired c) ↔
      ∀ c ∈ (pollStates poll m).list, ¬ Live c → Unwired c := by
    simp only [idle, List.mem_filter, and_imp, decide_eq_true_eq]
  have hsome : idle (pollStates poll m).list ≠ [] ↔ ∃ c ∈ (pollStates poll m).list, ¬ Live c := by
    rw [Ne, idle_eq_nil]
    push Not
    rfl
  rw [hidle, hsome] at hagree
  rw [← hagree]
  constructor
  · rintro ⟨-, -, h⟩
    rwa [hdelete, hprune] at h
  · intro h
    refine ⟨?_, ?_, ?_⟩
    · rw [hprune]
    · rw [hprune]
    · rw [hdelete, hprune]
      exact h

/-- A container that was created and never started. -/
def unstarted : Manager := (containerCreate .clean .zero .init).1

theorem unstarted_run :
    Runs (fun m op => userStep op m) .init [.life (.create .clean .zero)] unstarted :=
  .snoc (.nil _) trivial rfl

theorem prune_deletes_unstarted :
    Still .quiet (pollStates .quiet unstarted).list ∧
      PruneDeletes .quiet (fun _ => .quiet) ⟨unstarted, []⟩ := by
  have hstill : Still .quiet (pollStates .quiet unstarted).list := still_quiet _
  refine ⟨hstill, (prune_deletes_iff restoredList_init unstarted_run .quiet
    (fun _ => hstill) []).mpr ⟨?_, ?_⟩⟩
  · decide +kernel
  · exact .inl (by decide +kernel)

/-- Its start then fails after the interface was made: the record keeps it. -/
def halfStarted : Manager :=
  (containerStart .quiet { StartOutcome.clean (.ofNat 100) with ns := .failAfter } (containerId 1)
    unstarted).1

theorem halfStarted_run :
    Runs (fun m op => userStep op m) .init
      [.life (.create .clean .zero),
        .life (.start .quiet { StartOutcome.clean (.ofNat 100) with ns := .failAfter }
          (containerId 1))] halfStarted :=
  unstarted_run.snoc trivial rfl

/-- The deletion takes the interface down, the prune leaves it. -/
theorem not_prune_deletes :
    ¬ ∀ (m : Manager) (ops : List UserOp) (poll : PollOutcome) (polls : Bytes → PollOutcome)
      (file : Bytes), Runs (fun m op => userStep op m) .init ops m →
      (∀ id, Still (polls id) (pollStates poll m).list) → PruneDeletes poll polls ⟨m, file⟩ := by
  intro hclaim
  have hagree := (hclaim halfStarted _ .quiet (fun _ => .quiet) [] halfStarted_run
    fun _ => still_quiet _).agree.outside
  have hmore : outside (Stored.deleteIdle (fun _ => .quiet)
        ⟨pollStates .quiet halfStarted, []⟩).manager.world.trace ≠
      outside (Stored.prune .quiet ⟨halfStarted, []⟩).manager.world.trace := by
    decide +kernel
  exact hmore hagree

end ContainerSim.Runtime
