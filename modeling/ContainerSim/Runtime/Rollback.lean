import ContainerSim.Lib.LinkedList
import ContainerSim.Runtime.Network

/-!
# When a save fails

`container_create` and `container_delete` change the list before they save it,
and take the change back if the save fails. The first takes its record out of
the end of the list again. The second puts its record at the end wherever it
stood, and does not give back the network that it has taken down.
-/

namespace ContainerSim.Runtime

open Lib Sched

/-! ## The list and its pointers -/

/-- The `head`, `tail` and `next` pointers lead through the records of a list. -/
def Linked (l : Links Nat) (list : List Container) : Prop := l.Holds (list.map Container.ptr)

/-- `append_container`. -/
theorem Linked.append {l : Links Nat} {list : List Container} (h : Linked l list) {c : Container}
    (hc : ∀ d ∈ list, d.ptr ≠ c.ptr) : Linked (l.append c.ptr) (list ++ [c]) := by
  have hmem : c.ptr ∉ list.map Container.ptr := by
    intro hmem
    obtain ⟨d, hd, heq⟩ := List.mem_map.mp hmem
    exact hc d hd heq
  rw [Linked, List.map_append, List.map_singleton]
  exact Links.append_holds h hmem

/-- `remove_container`, with its search as long as the list. -/
theorem Linked.remove {l : Links Nat} {list : List Container} (h : Linked l list) {c : Container}
    (hc : c ∈ list) : Linked (l.remove c.ptr list.length) (removeContainer list c.ptr) := by
  obtain ⟨pre, post, rfl⟩ := List.append_of_mem hc
  rw [removeContainer_split h.nodup, Linked, List.map_append]
  rw [Linked, List.map_append, List.map_cons] at h
  refine Links.remove_holds h ?_
  rw [List.length_map, List.length_append, List.length_cons]
  omega

/-! ## What a failed save leaves -/

theorem containerCreate_save_fails {o : CreateOutcome} (hsave : o.save = false)
    (spec : ContainerSpec) (m : Manager) :
    (containerCreate o spec m).1.list = m.list ∧ (containerCreate o spec m).2 = none := by
  unfold containerCreate
  split
  · exact ⟨rfl, rfl⟩
  · simp only
    cases filesystemPrepareRootfs o (newContainer o spec m.heap m.nextSequence).2 with
    | none => exact ⟨rfl, rfl⟩
    | some rootfs =>
      simp only
      rw [if_pos (by simp [hsave])]
      exact ⟨rfl, rfl⟩

/-- The record that was appended for the save is taken out again: the pointers
lead through the list as it was, which is why `containerCreate` may return the old
list on this path. -/
theorem Linked.create_save_fails {l : Links Nat} {m : Manager} (h : Linked l m.list) (hwf : Wf m)
    {o : CreateOutcome} (hsave : o.save = false) (spec : ContainerSpec) :
    Linked ((l.append m.heap).remove m.heap (m.list.length + 1)) (containerCreate o spec m).1.list := by
  rw [(containerCreate_save_fails hsave spec m).1]
  refine Links.remove_append_holds h ?_ ?_
  · intro hmem
    obtain ⟨c, hc, heq⟩ := List.mem_map.mp hmem
    exact absurd (hwf.heap c hc) (by omega)
  · rw [List.length_map]
    omega

section
variable {m : Manager} {poll : PollOutcome} {id : Bytes} {c : Container}

theorem containerDelete_save_fails (hid : id ≠ [])
    (hfind : findContainer (pollStates poll m).list id = some c) (hidle : ¬ Live c) :
    (containerDelete poll false id m).1.list =
        removeContainer (pollStates poll m).list c.ptr ++
          [(cleanupContainerNetwork c (pollStates poll m).world).1] ∧
      (containerDelete poll false id m).2 = -1 := by
  have hptr : (cleanupContainerNetwork c (pollStates poll m).world).1.ptr = c.ptr :=
    (cleanupContainerNetwork_spec c _).1.ptr
  have hguard : ¬ (c.state = .running ∨ c.state = .paused) := hidle
  unfold containerDelete
  rw [if_neg hid]
  simp only [hfind]
  rw [if_neg hguard, hptr]
  exact ⟨rfl, rfl⟩

/-- The record that was taken out for the save comes back at the end: the list
that `containerDelete` returns on this path is the one the pointers lead through. -/
theorem Linked.delete_save_fails {l : Links Nat} (h : Linked l (pollStates poll m).list)
    (hid : id ≠ []) (hfind : findContainer (pollStates poll m).list id = some c)
    (hidle : ¬ Live c) :
    Linked ((l.remove c.ptr (pollStates poll m).list.length).append c.ptr)
      (containerDelete poll false id m).1.list := by
  have hc := (mem_of_findContainer hfind).1
  have hptr : (cleanupContainerNetwork c (pollStates poll m).world).1.ptr = c.ptr :=
    (cleanupContainerNetwork_spec c _).1.ptr
  rw [(containerDelete_save_fails hid hfind hidle).1]
  have happend := (h.remove hc).append
    (c := (cleanupContainerNetwork c (pollStates poll m).world).1) fun d hd heq =>
      ((mem_removeContainer h.nodup).mp hd).2 (heq.trans hptr)
  rwa [hptr] at happend

/-- A record without an interface has nothing to clean up. -/
theorem cleanupContainerNetwork_eq_self (c : Container) (w : World) :
    (cleanupContainerNetwork c w).1 = c ↔ c.vethHost = [] := by
  unfold cleanupContainerNetwork
  simp only
  constructor
  · intro heq
    by_contra hveth
    rw [if_pos hveth] at heq
    exact hveth (congrArg Container.vethHost heq).symm
  · intro hveth
    rw [if_neg (not_not.mpr hveth)]

theorem cleanupContainerNetwork_vethHost (c : Container) (w : World) :
    (cleanupContainerNetwork c w).1.vethHost = [] := by
  unfold cleanupContainerNetwork
  simp only
  split
  · rfl
  · rename_i hveth
    exact not_not.mp hveth

/-- The cleaned-up record was there before the poll, so the poll has not taken
the interface down. -/
theorem vethHost_of_cleanup_mem (hwf : Wf m) (hc : c ∈ (pollStates poll m).list)
    (hmem : (cleanupContainerNetwork c (pollStates poll m).world).1 ∈ m.list) :
    c.vethHost = [] := by
  have hptr : (cleanupContainerNetwork c (pollStates poll m).world).1.ptr = c.ptr :=
    (cleanupContainerNetwork_spec c _).1.ptr
  obtain ⟨d, hd, hdptr, hnet⟩ := forall₂_mem_right
    (pollStates_forall₂ (fun o c w => ⟨(pollRecord_recStep o c w).same.ptr, pollRecord_net o c w⟩)
      poll m : List.Forall₂ (fun d c => c.ptr = d.ptr ∧ NetStep d c) _ _) hc
  have hdc := hwf.ptrs.eq hmem hd (hdptr.symm.trans hptr.symm)
  rcases hnet.vethHost with hsame | hnone
  · rw [hsame, hdc]
    exact cleanupContainerNetwork_vethHost c _
  · exact hnone

theorem eq_nil_of_rotated {α : Type*} {a : α} {xs : List α} (h : xs ++ [a] = a :: xs)
    (hne : ∀ x ∈ xs, x ≠ a) : xs = [] := by
  cases xs with
  | nil => rfl
  | cons x xs =>
    rw [List.cons_append, List.cons.injEq] at h
    exact absurd h.1 (hne x List.mem_cons_self)

theorem containerDelete_save_fails_iff (hwf : Wf m) (hid : id ≠ [])
    (hfind : findContainer (pollStates poll m).list id = some c) (hidle : ¬ Live c) :
    (containerDelete poll false id m).1.list = m.list ↔
      (pollStates poll m).list = m.list ∧ m.list.getLast? = some c ∧ c.vethHost = [] := by
  have hc := (mem_of_findContainer hfind).1
  have hptrs : PtrNodup (pollStates poll m).list := by
    rw [PtrNodup, pollStates_map_ptr]
    exact hwf.ptrs
  obtain ⟨pre, post, hpolled⟩ := List.append_of_mem hc
  have hremove : removeContainer (pollStates poll m).list c.ptr = pre ++ post := by
    rw [hpolled] at hptrs ⊢
    exact removeContainer_split hptrs
  have hptr : (cleanupContainerNetwork c (pollStates poll m).world).1.ptr = c.ptr :=
    (cleanupContainerNetwork_spec c _).1.ptr
  have hbehind : ∀ d ∈ post, d.ptr ≠ c.ptr := by
    rw [hpolled, PtrNodup, List.map_append, List.map_cons] at hptrs
    intro d hd heq
    exact (List.nodup_cons.mp (List.nodup_append.mp hptrs).2.1).1 (heq ▸ List.mem_map_of_mem hd)
  rw [(containerDelete_save_fails hid hfind hidle).1, hremove]
  constructor
  · intro heq
    -- the addresses say that nothing stood behind the record
    have haddresses : post.map Container.ptr ++ [c.ptr] = c.ptr :: post.map Container.ptr := by
      have hmap := congrArg (List.map Container.ptr) heq
      rw [← pollStates_map_ptr poll m, hpolled, List.append_assoc, List.map_append, List.map_append,
        List.map_append, List.map_singleton, List.map_cons, hptr] at hmap
      exact List.append_cancel_left hmap
    have hpost : post = [] := by
      refine List.map_eq_nil_iff.mp (eq_nil_of_rotated haddresses ?_)
      intro p hp
      obtain ⟨d, hd, rfl⟩ := List.mem_map.mp hp
      exact hbehind d hd
    subst hpost
    rw [List.append_nil] at heq
    have hlast : (cleanupContainerNetwork c (pollStates poll m).world).1 ∈ m.list :=
      heq ▸ List.mem_append_right _ (List.mem_singleton_self _)
    have hveth := vethHost_of_cleanup_mem hwf hc hlast
    have hself := (cleanupContainerNetwork_eq_self c (pollStates poll m).world).mpr hveth
    rw [hself] at heq
    refine ⟨hpolled.trans heq, ?_, hveth⟩
    rw [← heq, List.getLast?_concat]
  · rintro ⟨hpoll, hlast, hveth⟩
    have hself := (cleanupContainerNetwork_eq_self c (pollStates poll m).world).mpr hveth
    have hpost : post = [] := by
      rcases List.eq_nil_or_concat post with hnil | ⟨post', d, rfl⟩
      · exact hnil
      · rw [List.concat_eq_append] at *
        rw [← hpoll, hpolled, ← List.cons_append, ← List.append_assoc, List.getLast?_concat,
          Option.some.injEq] at hlast
        have hd := hbehind d (List.mem_append_right _ (List.mem_singleton_self d))
        exact absurd (congrArg Container.ptr hlast) hd
    rw [hself, hpost, List.append_nil, ← hpoll, hpolled, hpost]

end

/-- **A failed save leaves the list as it was** after `container_create`. After
`container_delete` it does if the poll found nothing, and the record has no
interface and stood at the end. -/
theorem failed_saves_iff {m₀ m : Manager} {ops : List UserOp} (h₀ : Wf m₀)
    (hrun : Runs (fun m op => userStep op m) m₀ ops m) :
    (∀ (o : CreateOutcome) (spec : ContainerSpec), o.save = false →
      (containerCreate o spec m).2 = none ∧ (containerCreate o spec m).1.list = m.list) ∧
    ∀ (poll : PollOutcome) (id : Bytes) (c : Container), id ≠ [] →
      findContainer (pollStates poll m).list id = some c → ¬ Live c →
      (containerDelete poll false id m).2 = -1 ∧
        ((containerDelete poll false id m).1.list = m.list ↔
          (pollStates poll m).list = m.list ∧ m.list.getLast? = some c ∧ c.vethHost = []) := by
  have hwf : Wf m := hrun.invariant (fun _ _ _ h _ hs => h.userStep hs) h₀
  refine ⟨fun o spec hsave => ?_, fun poll id c hid hfind hidle => ⟨?_, ?_⟩⟩
  · exact (containerCreate_save_fails hsave spec m).symm
  · exact (containerDelete_save_fails hid hfind hidle).2
  · exact containerDelete_save_fails_iff hwf hid hfind hidle

/-- Two containers that were never started. -/
def twoRecords : Manager := (containerCreate .clean .zero (containerCreate .clean .zero .init).1).1

theorem twoRecords_run :
    Runs (fun m op => userStep op m) .init
      [.life (.create .clean .zero), .life (.create .clean .zero)] twoRecords :=
  .snoc (.snoc (.nil _) trivial rfl) trivial rfl

/-- The second of two records is put back where it was. -/
theorem failed_saves_last :
    (containerDelete .quiet false (containerId 2) twoRecords).2 = -1 ∧
      (containerDelete .quiet false (containerId 2) twoRecords).1.list = twoRecords.list := by
  obtain ⟨d, hfind, hidle, hpoll, hlast, hveth⟩ := exists_of_any
    (p := fun d => ¬ Live d ∧ (pollStates .quiet twoRecords).list = twoRecords.list ∧
      twoRecords.list.getLast? = some d ∧ d.vethHost = [])
    (x := findContainer (pollStates .quiet twoRecords).list (containerId 2)) (by decide +kernel)
  obtain ⟨hresult, hiff⟩ := (failed_saves_iff wf_init twoRecords_run).2 .quiet (containerId 2) d
    (containerId_ne_nil 2) hfind hidle
  exact ⟨hresult, hiff.mpr ⟨hpoll, hlast, hveth⟩⟩

/-- The first of two records is put back behind the second. -/
theorem not_failed_saves :
    ¬ ∀ (m : Manager) (ops : List UserOp), Runs (fun m op => userStep op m) .init ops m →
      (∀ (o : CreateOutcome) (spec : ContainerSpec), o.save = false →
        (containerCreate o spec m).2 = none ∧ (containerCreate o spec m).1.list = m.list) ∧
      ∀ (poll : PollOutcome) (id : Bytes) (c : Container), id ≠ [] →
        findContainer (pollStates poll m).list id = some c → ¬ Live c →
        (containerDelete poll false id m).2 = -1 ∧
          (containerDelete poll false id m).1.list = m.list := by
  intro hclaim
  obtain ⟨c, hfind, hidle, hmoved⟩ := exists_of_any
    (p := fun c => ¬ Live c ∧
      (containerDelete .quiet false (containerId 1) twoRecords).1.list ≠ twoRecords.list)
    (x := findContainer (pollStates .quiet twoRecords).list (containerId 1)) (by decide +kernel)
  exact hmoved ((hclaim twoRecords _ twoRecords_run).2 .quiet (containerId 1) c
    (containerId_ne_nil 1) hfind hidle).2

/-! ## A background run that fails -/

/-- The answers of the system with which `container_create` fails. -/
def CreateFails (o : CreateOutcome) (spec : ContainerSpec) (m : Manager) : Prop :=
  o.calloc = false ∨
    filesystemPrepareRootfs o (newContainer o spec m.heap m.nextSequence).2 = none ∨
    o.save = false

/-- The records are the ones from before, as a poll may have left them, and no
network resource has been added. -/
structure NothingLeft (m m' : Manager) : Prop where
  records : List.Forall₂ PollRel m.list m'.list
  network : ∀ before r, (stock before m'.world).count r ≤ (stock before m.world).count r

theorem containerCreate_fails {o : CreateOutcome} {spec : ContainerSpec} {m : Manager}
    (h : CreateFails o spec m) :
    (containerCreate o spec m).2 = none ∧ (containerCreate o spec m).1.list = m.list ∧
      ∀ before, stock before (containerCreate o spec m).1.world = stock before m.world := by
  unfold containerCreate
  by_cases hcalloc : (!o.calloc) = true
  · rw [if_pos hcalloc]
    exact ⟨rfl, rfl, fun _ => rfl⟩
  rw [if_neg hcalloc]
  simp only
  cases hprepare : filesystemPrepareRootfs o (newContainer o spec m.heap m.nextSequence).2 with
  | none => exact ⟨rfl, rfl, fun _ => rfl⟩
  | some rootfs =>
    have hsave : o.save = false := by
      rcases h with hc | hp | hs
      · exact absurd (by simp [hc]) hcalloc
      · rw [hprepare] at hp
        cases hp
      · exact hs
    simp only
    rw [if_pos (by simp [hsave])]
    refine ⟨rfl, rfl, fun before => ?_⟩
    rw [stock_emit]
    rfl

theorem containerCreate_succeeds {o : CreateOutcome} {spec : ContainerSpec} {m : Manager}
    (h : ¬ CreateFails o spec m) :
    (containerCreate o spec m).2 = some (containerId m.nextSequence) ∧
      (containerCreate o spec m).1.list.length = m.list.length + 1 := by
  rw [CreateFails, not_or, not_or] at h
  obtain ⟨hcalloc, hprepare, hsave⟩ := h
  obtain ⟨rootfs, hrootfs⟩ := Option.ne_none_iff_exists'.mp hprepare
  unfold containerCreate
  rw [if_neg (by simpa using hcalloc)]
  simp only [hrootfs]
  rw [if_neg (by simpa using hsave)]
  exact ⟨rfl, List.length_append⟩

theorem length_startContainerById (poll : PollOutcome) (o : StartOutcome) (id : Bytes)
    (schedule capture : Bool) (m : Manager) :
    (startContainerById poll o id schedule capture m).1.list.length = m.list.length := by
  have hptrs := withContainer_map_ptr poll id (startContainer o schedule capture) m
  have hlength := congrArg List.length hptrs
  rwa [List.length_map, List.length_map] at hlength

theorem length_recordLogPath (save : Bool) (id : Bytes) (m : Manager) :
    (recordLogPath save id m).list.length = m.list.length := by
  have hlength := congrArg List.length (recordLogPath_map_ptr save id m)
  rwa [List.length_map, List.length_map] at hlength

theorem PollRel.refl (c : Container) : PollRel c c := ⟨.refl c, id, fun _ => rfl, .inl rfl⟩

/-- **A failed background run leaves nothing behind** exactly if it failed in
`container_create`: a start that fails leaves the new record in the list. -/
theorem background_failure_iff {o : RunOutcome} {spec : ContainerSpec} {m : Manager}
    (hfail : (containerRunBackground o spec m).2 = none) :
    NothingLeft m (containerRunBackground o spec m).1 ↔ CreateFails o.create spec m := by
  constructor
  · intro hleft
    by_contra hcreate
    obtain ⟨hid, hlength⟩ := containerCreate_succeeds hcreate
    have hsame := hleft.records.length_eq
    unfold containerRunBackground at hfail hsame
    cases hrun : containerCreate o.create spec m with
    | mk m₁ r =>
      rw [hrun] at hid hlength hfail hsame
      simp only at hid hlength
      subst hid
      simp only at hfail hsame
      -- a start that fails has kept the new record; one that works returns an id
      split at hsame
      · rw [length_startContainerById, length_recordLogPath, hlength] at hsame
        omega
      · rename_i hstart
        rw [if_neg hstart] at hfail
        cases hfail
  · intro hcreate
    obtain ⟨hid, hlist, hstock⟩ := containerCreate_fails hcreate
    have hsame : (containerRunBackground o spec m).1 = (containerCreate o.create spec m).1 := by
      unfold containerRunBackground
      cases hrun : containerCreate o.create spec m with
      | mk m₁ r =>
        rw [hrun] at hid
        simp only at hid
        subst hid
        rfl
    refine ⟨?_, fun before r => ?_⟩
    · rw [hsame, hlist]
      exact List.forall₂_same.mpr fun c _ => .refl c
    · rw [hsame, hstock]

/-- The rootfs cannot be prepared. -/
def unprepared : RunOutcome :=
  { RunOutcome.clean (.ofNat 100) with
    create := { CreateOutcome.clean with prepareRootfs := fun _ => none } }

theorem background_failure_unprepared :
    NothingLeft .init (containerRunBackground unprepared .zero .init).1 :=
  (background_failure_iff rfl).mpr (.inr (.inl rfl))

/-- The child is lost after its veth was made. -/
def lostChild : RunOutcome :=
  { RunOutcome.clean (.ofNat 100) with
    start := { StartOutcome.clean (.ofNat 100) with ns := .failAfter } }

/-- A record that nothing refers to is left, and an interface. -/
theorem lostChild_leaves :
    (containerRunBackground lostChild .zero .init).2 = none ∧
      (containerRunBackground lostChild .zero .init).1.list.length = 1 ∧
      stock [] (containerRunBackground lostChild .zero .init).1.world ≠ [] := by
  decide +kernel

theorem not_background_failure :
    ¬ ∀ (m : Manager) (ops : List UserOp) (o : RunOutcome) (spec : ContainerSpec),
      Runs (fun m op => userStep op m) .init ops m → (containerRunBackground o spec m).2 = none →
      List.Forall₂ PollRel m.list (containerRunBackground o spec m).1.list ∧
        ∀ before r, (stock before (containerRunBackground o spec m).1.world).count r ≤
          (stock before m.world).count r := by
  intro hclaim
  obtain ⟨hfail, hone, -⟩ := lostChild_leaves
  have hlength := (hclaim .init [] lostChild .zero (.nil _) hfail).1.length_eq
  rw [hone] at hlength
  cases hlength

end ContainerSim.Runtime
