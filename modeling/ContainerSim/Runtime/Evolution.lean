import ContainerSim.Runtime.Records
import Mathlib.Data.List.Perm.Subperm

/-!
# How the container list changes

What outlives an operation on the list: the identity of a record (`Ident`)
never changes, no record becomes live except through a start, and a new record
comes with a fresh address and id. `Quiet` describes the operations that add
and start nothing, `Grows` the ones that create one container. `Wf` is the part
of the manager's invariant that every operation keeps.
-/

namespace ContainerSim.Runtime

open Lib Sched

/-! ## Polling -/

/-- What a poll does to a record: only a running one changes, and then its
state stays or becomes STOPPED. -/
structure PollRel (c c' : Container) : Prop where
  same : Same c c'
  pidOk : PidOk c → PidOk c'
  idle : c.state ≠ .running → c' = c
  state : c'.state = c.state ∨ c'.state = .stopped

theorem syncContainerState_state (o : SyncOutcome) (c : Container) (w : World) :
    (c.state ≠ .running → syncContainerState o c w = (c, w, false)) ∧
    ((syncContainerState o c w).1.state = c.state ∨
      (syncContainerState o c w).1.state = .stopped) := by
  refine ⟨fun hnr => ?_, ?_⟩
  · unfold syncContainerState
    by_cases hp : c.state = .paused
    · by_cases hpid : c.pid ≤ 0 <;> simp [hp, hpid]
    · simp [hnr, hp]
  · unfold syncContainerState
    split
    · exact .inl rfl
    split
    · exact .inl rfl
    cases o.wait with
    | reaped status =>
      exact .inr (cleanupContainerNetwork_spec _ _).2.2.1
    | echild =>
      simp only
      split
      · exact .inl rfl
      · exact .inr (cleanupContainerNetwork_spec _ _).2.2.1
    | nothing => exact .inl rfl
    | eintr => exact .inl rfl
    | error => exact .inl rfl

theorem pollRecord_pollRel (o : SyncOutcome) (c : Container) (w : World) :
    PollRel c (pollRecord o c w).1 := by
  refine ⟨(pollRecord_recStep o c w).same, (pollRecord_recStep o c w).pidOk, ?_, ?_⟩
  · intro hnr
    rw [pollRecord, if_neg (fun h => hnr h.1), (syncContainerState_state o c w).1 hnr]
  · unfold pollRecord
    split
    · exact (syncContainerState_state o { c with oomKillCount := o.oom } _).2
    · exact (syncContainerState_state o c w).2

/-- What the poll does to each record it does to the list, place by place. -/
theorem pollStates_forall₂ {R : Container → Container → Prop}
    (h : ∀ o c w, R c (pollRecord o c w).1) (o : PollOutcome) (m : Manager) :
    List.Forall₂ R m.list (pollStates o m).list := by
  have hlist : ∀ (l : List Container) (w : World), List.Forall₂ R l (pollList o.sync l w).1 := by
    intro l
    induction l with
    | nil => exact fun _ => .nil
    | cons c cs ih => exact fun w => .cons (h (o.sync c.ptr) c w) (ih _)
  exact hlist m.list m.world

theorem pollStates_pollRel (o : PollOutcome) (m : Manager) :
    List.Forall₂ PollRel m.list (pollStates o m).list :=
  pollStates_forall₂ pollRecord_pollRel o m

theorem forall₂_map_eq {α β : Type*} {R : α → α → Prop} {f : α → β}
    (hf : ∀ a b, R a b → f b = f a) {l l' : List α} (h : List.Forall₂ R l l') :
    l'.map f = l.map f := by
  induction h with
  | nil => rfl
  | cons hab _ ih => rw [List.map_cons, List.map_cons, hf _ _ hab, ih]

theorem forall₂_mem_right {α : Type*} {R : α → α → Prop} {l l' : List α}
    (h : List.Forall₂ R l l') {b : α} (hb : b ∈ l') : ∃ a ∈ l, R a b := by
  induction h with
  | nil => exact absurd hb List.not_mem_nil
  | cons hab _ ih =>
    rcases List.mem_cons.mp hb with rfl | hb
    · exact ⟨_, List.mem_cons_self, hab⟩
    · obtain ⟨a, ha, hr⟩ := ih hb
      exact ⟨a, List.mem_cons_of_mem _ ha, hr⟩

theorem forall₂_mem_left {α : Type*} {R : α → α → Prop} {l l' : List α}
    (h : List.Forall₂ R l l') {a : α} (ha : a ∈ l) : ∃ b ∈ l', R a b := by
  induction h with
  | nil => exact absurd ha List.not_mem_nil
  | cons hab _ ih =>
    rcases List.mem_cons.mp ha with rfl | ha
    · exact ⟨_, List.mem_cons_self, hab⟩
    · obtain ⟨b, hb, hr⟩ := ih ha
      exact ⟨b, List.mem_cons_of_mem _ hb, hr⟩

@[simp] theorem pollStates_map_ptr (o : PollOutcome) (m : Manager) :
    (pollStates o m).list.map Container.ptr = m.list.map Container.ptr :=
  forall₂_map_eq (fun _ _ h => h.same.ptr) (pollStates_pollRel o m)

/-! ## Identity -/

/-- What stays of a record for its whole life. -/
structure Ident where
  ptr : Nat
  id : Bytes
  name : Bytes
  security : SecurityConfig
  deriving DecidableEq

def Container.ident (c : Container) : Ident := ⟨c.ptr, c.id, c.name, c.security⟩

theorem Same.ident {c c' : Container} (h : Same c c') : c'.ident = c.ident := by
  rw [Container.ident, h.ptr, h.id, h.name, h.security]
  rfl

def idents (m : Manager) : List Ident := m.list.map Container.ident

theorem mem_idents {m : Manager} {k : Ident} : k ∈ idents m ↔ ∃ c ∈ m.list, c.ident = k := by
  simp [idents]

theorem ident_mem {m : Manager} {c : Container} (hc : c ∈ m.list) : c.ident ∈ idents m :=
  List.mem_map_of_mem hc

theorem map_ptr_eq (m : Manager) : m.list.map Container.ptr = (idents m).map Ident.ptr := by
  rw [idents, List.map_map]
  rfl

/-- Distinct addresses below the allocator, and ids the counter will not hand
out again. -/
structure Wf (m : Manager) : Prop where
  ptrs : PtrNodup m.list
  heap : ∀ c ∈ m.list, c.ptr < m.heap
  fresh : ∀ c ∈ m.list, ∀ k, m.nextSequence ≤ k → c.id ≠ containerId k

/-- `c'` is what has become of `c`, without a start in between. -/
structure Later (c c' : Container) : Prop where
  same : Same c c'
  live : Live c' → Live c
  pidOk : PidOk c → PidOk c'

theorem Later.refl (c : Container) : Later c c := ⟨Same.refl c, id, id⟩

theorem Later.trans {c c' c'' : Container} (h : Later c c') (h' : Later c' c'') : Later c c'' :=
  ⟨h.same.trans h'.same, fun hl => h.live (h'.live hl), fun hok => h'.pidOk (h.pidOk hok)⟩

/-- No record was added and none was started. -/
structure Quiet (m m' : Manager) : Prop where
  idents : (idents m').Subperm (idents m)
  later : ∀ c' ∈ m'.list, ∃ c ∈ m.list, Later c c'
  seq : m'.nextSequence = m.nextSequence
  heap : m'.heap = m.heap

theorem Quiet.refl (m : Manager) : Quiet m m :=
  ⟨List.Subperm.refl _, fun c hc => ⟨c, hc, Later.refl c⟩, rfl, rfl⟩

theorem Quiet.trans {m m' m'' : Manager} (h : Quiet m m') (h' : Quiet m' m'') : Quiet m m'' := by
  refine ⟨h'.idents.trans h.idents, ?_, h'.seq.trans h.seq, h'.heap.trans h.heap⟩
  intro c'' hc''
  obtain ⟨c', hc', hl'⟩ := h'.later c'' hc''
  obtain ⟨c, hc, hl⟩ := h.later c' hc'
  exact ⟨c, hc, hl.trans hl'⟩

/-- Fewer records, and counters that did not go back. -/
theorem Wf.of_subperm {m m' : Manager} (h : Wf m) (hsub : (idents m').Subperm (idents m))
    (hseq : m.nextSequence ≤ m'.nextSequence) (hheap : m.heap ≤ m'.heap) : Wf m' := by
  have hback : ∀ c' ∈ m'.list, ∃ c ∈ m.list, c.ident = c'.ident :=
    fun c' hc' => mem_idents.mp (hsub.subset (ident_mem hc'))
  refine ⟨?_, fun c' hc' => ?_, fun c' hc' k hk => ?_⟩
  · rw [PtrNodup, map_ptr_eq]
    obtain ⟨l, hperm, hl⟩ := hsub
    have hnd : (l.map Ident.ptr).Nodup := by
      have := h.ptrs
      rw [PtrNodup, map_ptr_eq] at this
      exact this.sublist (hl.map _)
    exact (hperm.map _).nodup_iff.mp hnd
  · obtain ⟨c, hc, hid⟩ := hback c' hc'
    have hp : c.ptr = c'.ptr := congrArg Ident.ptr hid
    have := h.heap c hc
    omega
  · obtain ⟨c, hc, hid⟩ := hback c' hc'
    rw [← show c.id = c'.id from congrArg Ident.id hid]
    exact h.fresh c hc k (Nat.le_trans hseq hk)

theorem Wf.quiet {m m' : Manager} (h : Wf m) (hq : Quiet m m') : Wf m' :=
  h.of_subperm hq.idents (Nat.le_of_eq hq.seq.symm) (Nat.le_of_eq hq.heap.symm)

/-- The bookkeeping is about the list and its counters, not about the world. -/
theorem Wf.world {m : Manager} (h : Wf m) (w : World) : Wf { m with world := w } :=
  ⟨h.ptrs, h.heap, h.fresh⟩

/-! ## Operations that add and start nothing -/

theorem idents_pollStates (o : PollOutcome) (m : Manager) : idents (pollStates o m) = idents m :=
  forall₂_map_eq (fun _ _ h => h.same.ident) (pollStates_pollRel o m)

theorem not_live_stopped {c : Container} (h : c.state = .stopped) : ¬ Live c := by
  rintro (hl | hl) <;> rw [h] at hl <;> cases hl

theorem PollRel.later {c c' : Container} (h : PollRel c c') : Later c c' := by
  refine ⟨h.same, fun hl => ?_, h.pidOk⟩
  rcases h.state with hs | hs
  · rwa [Live, hs] at hl
  · exact absurd hl (not_live_stopped hs)

theorem pollStates_quiet (o : PollOutcome) (m : Manager) : Quiet m (pollStates o m) := by
  refine ⟨(idents_pollStates o m ▸ List.Subperm.refl _), fun c' hc' => ?_, rfl, rfl⟩
  obtain ⟨c, hc, hrel⟩ := forall₂_mem_right (pollStates_pollRel o m) hc'
  exact ⟨c, hc, hrel.later⟩

/-- Writing a record back under its identity. -/
theorem idents_setContainer {m : Manager} (h : PtrNodup m.list) {c c' : Container}
    (hc : c ∈ m.list) (hsame : Same c c') (w : World) :
    idents { m with list := setContainer m.list c', world := w } = idents m :=
  setContainer_map Container.ident h hc hsame.ptr hsame.ident

/-- `withContainer` never changes who is in the list. -/
theorem idents_withContainer {m : Manager} (h : Wf m) (poll : PollOutcome) (id : Bytes)
    {f : Container → World → Container × World × Int} (hf : ∀ c w, Same c (f c w).1) :
    idents (withContainer poll id f m).1 = idents m := by
  unfold withContainer
  split
  · rfl
  · simp only
    cases hfind : findContainer (pollStates poll m).list id with
    | none => exact idents_pollStates poll m
    | some c =>
      have hp := h.quiet (pollStates_quiet poll m)
      exact (idents_setContainer hp.ptrs (mem_of_findContainer hfind).1 (hf c _) _).trans
        (idents_pollStates poll m)

/-- A record in the list after `withContainer` is the one it worked on, or one
the poll left there. -/
theorem mem_withContainer {m : Manager} (poll : PollOutcome) (id : Bytes)
    {f : Container → World → Container × World × Int} {c' : Container}
    (hc' : c' ∈ (withContainer poll id f m).1.list) :
    c' ∈ m.list ∨ c' ∈ (pollStates poll m).list ∨
      ∃ c, findContainer (pollStates poll m).list id = some c ∧
        c' = (f c (pollStates poll m).world).1 := by
  unfold withContainer at hc'
  split at hc'
  · exact .inl hc'
  · simp only at hc'
    cases hfind : findContainer (pollStates poll m).list id with
    | none =>
      rw [hfind] at hc'
      exact .inr (.inl hc')
    | some c =>
      rw [hfind] at hc'
      rcases mem_setContainer.mp hc' with ⟨_, _, _, rfl⟩ | ⟨hc', -⟩
      · exact .inr (.inr ⟨c, rfl, rfl⟩)
      · exact .inr (.inl hc')

/-- No operation on one record moves it. -/
theorem withContainer_map_ptr (poll : PollOutcome) (id : Bytes)
    (f : Container → World → Container × World × Int) (m : Manager) :
    (withContainer poll id f m).1.list.map Container.ptr = m.list.map Container.ptr := by
  unfold withContainer
  split
  · rfl
  · simp only
    cases findContainer (pollStates poll m).list id with
    | none => exact pollStates_map_ptr poll m
    | some c => exact (setContainer_map_ptr _ _).trans (pollStates_map_ptr poll m)

theorem recordLogPath_map_ptr (save : Bool) (id : Bytes) (m : Manager) :
    (recordLogPath save id m).list.map Container.ptr = m.list.map Container.ptr := by
  unfold recordLogPath
  cases findContainer m.list id with
  | none => rfl
  | some c => exact setContainer_map_ptr _ _

theorem withContainer_counters (poll : PollOutcome) (id : Bytes)
    (f : Container → World → Container × World × Int) (m : Manager) :
    (withContainer poll id f m).1.nextSequence = m.nextSequence ∧
    (withContainer poll id f m).1.heap = m.heap := by
  unfold withContainer
  split
  · exact ⟨rfl, rfl⟩
  · simp only
    cases findContainer (pollStates poll m).list id with
    | none => exact ⟨rfl, rfl⟩
    | some c => exact ⟨rfl, rfl⟩

theorem withContainer_quiet {m : Manager} (h : Wf m) (poll : PollOutcome) (id : Bytes)
    {f : Container → World → Container × World × Int} (hf : ∀ c w, Later c (f c w).1) :
    Quiet m (withContainer poll id f m).1 := by
  obtain ⟨hseq, hheap⟩ := withContainer_counters poll id f m
  refine ⟨idents_withContainer h poll id (fun c w => (hf c w).same) ▸ List.Subperm.refl _, ?_,
    hseq, hheap⟩
  intro c' hc'
  rcases mem_withContainer poll id hc' with hc' | hc' | ⟨c, hfind, rfl⟩
  · exact ⟨c', hc', Later.refl c'⟩
  · exact (pollStates_quiet poll m).later c' hc'
  · obtain ⟨d, hd, hld⟩ := (pollStates_quiet poll m).later c (mem_of_findContainer hfind).1
    exact ⟨d, hd, hld.trans (hf c _)⟩

theorem stopContainerProcess_state (o : StopOutcome) (timeoutS : Int) (c : Container)
    (w : World) :
    (stopContainerProcess o timeoutS c w).1 = c ∨
    (stopContainerProcess o timeoutS c w).1.state = .stopped := by
  unfold stopContainerProcess
  split
  · exact .inl rfl
  · simp only
    generalize stopSignals o timeoutS c.pid _ = r
    split
    · exact .inl rfl
    · exact .inr rfl

theorem waitForContainerProcess_state (o : WaitOutcome) (c : Container) (w : World) :
    (waitForContainerProcess o c w).1 = c ∨
    (waitForContainerProcess o c w).1.state = .stopped := by
  unfold waitForContainerProcess
  split
  · exact .inl rfl
  · simp only
    cases o.wait with
    | reaped status => exact .inr (cleanupContainerNetwork_spec _ _).2.2.1
    | echild =>
      simp only
      split
      · exact .inl rfl
      · exact .inr (cleanupContainerNetwork_spec _ _).2.2.1
    | nothing => exact .inl rfl
    | eintr => exact .inl rfl
    | error => exact .inl rfl

/-- An operation that changes nothing or leaves the record STOPPED. -/
theorem RecStep.later_of_stopped {c c' : Container} {w w' : World} (h : RecStep c w c' w')
    (hstate : c' = c ∨ c'.state = .stopped) : Later c c' := by
  refine ⟨h.same, fun hl => ?_, h.pidOk⟩
  rcases hstate with rfl | hs
  · exact hl
  · exact absurd hl (not_live_stopped hs)

theorem containerStop_quiet {m : Manager} (h : Wf m) (poll : PollOutcome) (o : StopOutcome)
    (id : Bytes) (timeoutS : Int) : Quiet m (containerStop poll o id timeoutS m).1 :=
  withContainer_quiet h poll id fun c w =>
    (stopContainerProcess_recStep o timeoutS c w).later_of_stopped
      (stopContainerProcess_state o timeoutS c w)

/-- `container_delete` removes one record, or moves it to the end. -/
theorem containerDelete_quiet {m : Manager} (h : Wf m) (poll : PollOutcome) (save : Bool)
    (id : Bytes) : Quiet m (containerDelete poll save id m).1 := by
  have hpoll := pollStates_quiet poll m
  have hwf := h.quiet hpoll
  unfold containerDelete
  split
  · exact Quiet.refl m
  · simp only
    cases hfind : findContainer (pollStates poll m).list id with
    | none => exact hpoll
    | some c =>
      simp only
      split
      · exact hpoll
      · have hc := (mem_of_findContainer hfind).1
        obtain ⟨hsame, hpid, hstate, -⟩ :=
          cleanupContainerNetwork_spec c (pollStates poll m).world
        generalize cleanupContainerNetwork c (pollStates poll m).world = r
          at hsame hpid hstate ⊢
        have hrest := removeContainer_sublist (pollStates poll m).list r.1.ptr
        -- by whether the save failed: the record is then put back at the end
        refine hpoll.trans ?_
        split
        · refine ⟨?_, fun c' hc' => ?_, rfl, rfl⟩
          · show (List.map _ (_ ++ [r.1])).Subperm _
            rw [List.map_append, List.map_singleton, hsame.ident]
            refine List.Perm.subperm ?_
            have hperm : (removeContainer (pollStates poll m).list r.1.ptr ++ [c]).Perm
                (pollStates poll m).list := by
              rw [hsame.ptr]
              exact (List.perm_append_singleton _ _).trans (removeContainer_perm hwf.ptrs hc)
            have := hperm.map Container.ident
            rwa [List.map_append, List.map_singleton] at this
          · rcases List.mem_append.mp hc' with hc' | hc'
            · exact ⟨c', hrest.subset hc', Later.refl c'⟩
            · rw [List.mem_singleton.mp hc']
              refine ⟨c, hc, hsame, ?_, ?_⟩
              · rw [Live, Live, hstate]
                exact fun hl => hl
              · rw [PidOk, PidOk, hstate, hpid]
                exact fun hok => hok
        · exact ⟨(hrest.map _).subperm, fun c' hc' => ⟨c', hrest.subset hc', Later.refl c'⟩,
            rfl, rfl⟩

theorem containerPause_quiet {m : Manager} (h : Wf m) (poll : PollOutcome) (kill save : Bool)
    (id : Bytes) : Quiet m (containerPause poll kill save id m).1 := by
  refine withContainer_quiet h poll id fun c w => ?_
  have hstep := pauseContainer_recStep kill save c w
  refine ⟨hstep.same, fun hl => ?_, hstep.pidOk⟩
  unfold pauseContainer at hl
  split at hl
  · exact hl
  split at hl
  · exact hl
  · rename_i hrun _
    push Not at hrun
    exact .inl hrun.1

theorem containerUnpause_quiet {m : Manager} (h : Wf m) (poll : PollOutcome)
    (kill save : Bool) (id : Bytes) : Quiet m (containerUnpause poll kill save id m).1 := by
  refine withContainer_quiet h poll id fun c w => ?_
  have hstep := unpauseContainer_recStep kill save c w
  refine ⟨hstep.same, fun hl => ?_, hstep.pidOk⟩
  unfold unpauseContainer at hl
  split at hl
  · exact hl
  split at hl
  · exact hl
  · rename_i hrun _
    push Not at hrun
    exact .inr hrun.1

/-! ## Creating -/

theorem containerId_injective : Function.Injective containerId := by
  intro a b h
  exact fmtPadded_injective 4 (List.append_cancel_left h)

theorem containerId_ne_nil (n : Nat) : containerId n ≠ [] := by
  simp [containerId, fmtPadded_ne_nil]

/-- `container_create` appends a CREATED record under the next id, or leaves the
list alone. -/
theorem containerCreate_cases (o : CreateOutcome) (spec : ContainerSpec) (m : Manager) :
    ((containerCreate o spec m).2 = none ∧ (containerCreate o spec m).1.list = m.list ∧
      m.nextSequence ≤ (containerCreate o spec m).1.nextSequence ∧
      m.heap ≤ (containerCreate o spec m).1.heap ∧
      outstanding (containerCreate o spec m).1.world.trace = outstanding m.world.trace) ∨
    (∃ rootfs, (containerCreate o spec m).2 = some (containerId m.nextSequence) ∧
      (containerCreate o spec m).1.list =
        m.list ++ [{ (newContainer o spec m.heap m.nextSequence).1 with rootfs }] ∧
      (containerCreate o spec m).1.nextSequence = m.nextSequence + 1 ∧
      (containerCreate o spec m).1.heap = m.heap + 1 ∧
      outstanding (containerCreate o spec m).1.world.trace = outstanding m.world.trace) := by
  unfold containerCreate
  split
  · exact .inl ⟨rfl, rfl, Nat.le_refl _, Nat.le_refl _, rfl⟩
  · simp only
    cases filesystemPrepareRootfs o (newContainer o spec m.heap m.nextSequence).2 with
    | none => exact .inl ⟨rfl, rfl, Nat.le_succ _, Nat.le_succ _, rfl⟩
    | some rootfs =>
      simp only
      split
      · refine .inl ⟨rfl, rfl, Nat.le_succ _, Nat.le_succ _, ?_⟩
        rw [outstanding_emit]
        rfl
      · refine .inr ⟨rootfs, rfl, rfl, rfl, rfl, ?_⟩
        rw [outstanding_emit, outstanding_emit]
        rfl

/-- The record under `id` has been created and not started since. -/
def JustCreated (list : List Container) (id : Bytes) : Prop :=
  (∃ c ∈ list, c.id = id) ∧ ∀ c ∈ list, c.id = id → c.state = .created

theorem JustCreated.poll {m : Manager} {id : Bytes} (h : JustCreated m.list id)
    (o : PollOutcome) : JustCreated (pollStates o m).list id := by
  have hrel := pollStates_pollRel o m
  constructor
  · obtain ⟨c, hc, hid⟩ := h.1
    obtain ⟨c', hc', hcc⟩ := forall₂_mem_left hrel hc
    exact ⟨c', hc', hcc.same.id.trans hid⟩
  · intro c' hc' hid
    obtain ⟨c, hc, hcc⟩ := forall₂_mem_right hrel hc'
    have hst := h.2 c hc (hcc.same.id.symm.trans hid)
    rw [hcc.idle (by simp [hst]), hst]


/-- Who the record is that `container_create` would make now. -/
def newIdent (spec : ContainerSpec) (m : Manager) : Ident :=
  { ptr := m.heap
    id := containerId m.nextSequence
    name := copyString nameLen (orDefault spec.name (containerId m.nextSequence))
    security := spec.security }

/-- At most one record was added, and only that one may have been started. -/
structure Grows (spec : ContainerSpec) (m m' : Manager) : Prop where
  idents : (idents m').Subperm (idents m ++ [newIdent spec m])
  later : ∀ c' ∈ m'.list,
    (∃ c ∈ m.list, Later c c') ∨ (c'.ident = newIdent spec m ∧ PidOk c')
  seq : m.nextSequence ≤ m'.nextSequence
  heap : m.heap ≤ m'.heap
  /-- the record, if it is there, has used up its address and its number -/
  used : newIdent spec m ∈ Runtime.idents m' →
    m.nextSequence < m'.nextSequence ∧ m.heap < m'.heap

/-- The number of the new container belongs to no other record. -/
theorem Grows.of_id {spec : ContainerSpec} {m m' : Manager} (h : Grows spec m m') (hwf : Wf m)
    {c' : Container} (hc : c' ∈ m'.list) (hid : c'.id = containerId m.nextSequence) :
    c'.ident = newIdent spec m ∧ PidOk c' := by
  rcases h.later c' hc with ⟨c, hc, hk⟩ | hk
  · exact absurd (hk.same.id.symm.trans hid) (hwf.fresh c hc _ (Nat.le_refl _))
  · exact hk

theorem Wf.grows {spec : ContainerSpec} {m m' : Manager} (hwf : Wf m) (h : Grows spec m m') :
    Wf m' := by
  have hnd : ((idents m ++ [newIdent spec m]).map Ident.ptr).Nodup := by
    rw [List.map_append, List.map_singleton, ← map_ptr_eq, List.nodup_append]
    refine ⟨hwf.ptrs, List.nodup_singleton _, ?_⟩
    intro a ha b hb hab
    obtain ⟨c, hc, rfl⟩ := List.mem_map.mp ha
    rw [List.mem_singleton.mp hb] at hab
    exact absurd hab (Nat.ne_of_lt (hwf.heap c hc))
  refine ⟨?_, fun c' hc' => ?_, fun c' hc' k hk => ?_⟩
  · rw [PtrNodup, map_ptr_eq]
    obtain ⟨l, hperm, hl⟩ := h.idents
    exact (hperm.map _).nodup_iff.mp (hnd.sublist (hl.map _))
  · rcases h.later c' hc' with ⟨c, hc, hl⟩ | ⟨hid, -⟩
    · rw [hl.same.ptr]
      exact Nat.lt_of_lt_of_le (hwf.heap c hc) h.heap
    · rw [show c'.ptr = m.heap from congrArg Ident.ptr hid]
      exact (h.used (hid ▸ ident_mem hc')).2
  · rcases h.later c' hc' with ⟨c, hc, hl⟩ | ⟨hid, -⟩
    · rw [hl.same.id]
      exact hwf.fresh c hc k (Nat.le_trans h.seq hk)
    · rw [show c'.id = containerId m.nextSequence from congrArg Ident.id hid]
      have hlt := (h.used (hid ▸ ident_mem hc')).1
      intro heq
      have := containerId_injective heq
      omega

/-- What follows a creation: it adds nobody, and starts at most the new one. -/
theorem Grows.extend {spec : ContainerSpec} {m m' m'' : Manager} (h : Grows spec m m')
    (hid : Runtime.idents m'' = Runtime.idents m')
    (hlater : ∀ c'' ∈ m''.list,
      (∃ c' ∈ m'.list, Later c' c'') ∨ (c''.ident = newIdent spec m ∧ PidOk c''))
    (hseq : m''.nextSequence = m'.nextSequence) (hheap : m''.heap = m'.heap) :
    Grows spec m m'' := by
  refine ⟨hid ▸ h.idents, fun c'' hc'' => ?_, hseq ▸ h.seq, hheap ▸ h.heap, fun hnew => ?_⟩
  · rcases hlater c'' hc'' with ⟨c', hc', hl'⟩ | hnew
    · rcases h.later c' hc' with ⟨c, hc, hl⟩ | ⟨hk, hok⟩
      · exact .inl ⟨c, hc, hl.trans hl'⟩
      · exact .inr ⟨hl'.same.ident.trans hk, hl'.pidOk hok⟩
    · exact .inr hnew
  · rw [hseq, hheap]
    exact h.used (hid ▸ hnew)

theorem pidOk_created {c : Container} (hs : c.state = .created) (hp : c.pid = -1) : PidOk c := by
  rw [PidOk, hs]
  refine ⟨fun h => ?_, fun _ => hp⟩
  rcases h with h | h
  · cases h
  · cases h

theorem containerCreate_grows {m : Manager} (hwf : Wf m) (o : CreateOutcome)
    (spec : ContainerSpec) : Grows spec m (containerCreate o spec m).1 := by
  rcases containerCreate_cases o spec m with ⟨-, hlist, hseq, hheap, -⟩ |
    ⟨rootfs, -, hlist, hseq, hheap, -⟩
  · refine ⟨?_, ?_, hseq, hheap, fun hnew => ?_⟩
    · rw [idents, hlist]
      exact (List.sublist_append_left _ _).subperm
    · rw [hlist]
      exact fun c hc => .inl ⟨c, hc, Later.refl c⟩
    · obtain ⟨c, hc, hk⟩ := mem_idents.mp hnew
      rw [hlist] at hc
      exact absurd (congrArg Ident.ptr hk) (Nat.ne_of_lt (hwf.heap c hc))
  · refine ⟨?_, ?_, hseq ▸ Nat.le_succ _, hheap ▸ Nat.le_succ _, fun _ => ?_⟩
    · rw [idents, hlist, List.map_append]
      exact List.Subperm.refl _
    · rw [hlist]
      intro c hc
      rcases List.mem_append.mp hc with hc | hc
      · exact .inl ⟨c, hc, Later.refl c⟩
      · rw [List.mem_singleton.mp hc]
        exact .inr ⟨rfl, pidOk_created rfl rfl⟩
    · rw [hseq, hheap]
      exact ⟨Nat.lt_succ_self _, Nat.lt_succ_self _⟩

/-! ## Starting -/

theorem startContainer_same (o : StartOutcome) (schedule capture : Bool) (c : Container)
    (w : World) : Same c (startContainer o schedule capture c w).1 := by
  have hmove := startContainer_move o schedule capture c w
  generalize startContainer o schedule capture c w = r at hmove ⊢
  cases hmove with
  | refused => exact Same.refl c
  | noProcess _ _ hns => exact (startedRecord_spec hns).1
  | @finish r pid _ _ hns =>
    exact ((startedRecord_spec hns).1.trans (r.1.launched_same o pid)).trans
      (finishStart_recStep o schedule (r.1.launched o pid) r.2.1).same

/-- A start leaves state and pid in agreement, also when it overwrites the pid
of a paused container. -/
theorem startContainer_pidOk (o : StartOutcome) (schedule capture : Bool) {c : Container}
    (w : World) (h : PidOk c) : PidOk (startContainer o schedule capture c w).1 := by
  have hmove := startContainer_move o schedule capture c w
  generalize startContainer o schedule capture c w = r at hmove ⊢
  cases hmove with
  | refused => exact h
  | noProcess _ _ hns =>
    obtain ⟨-, hpid, hstate, -⟩ := startedRecord_spec hns
    rw [PidOk, hpid, hstate]
    exact h
  | @finish r pid =>
    exact (finishStart_recStep o schedule (r.1.launched o pid) r.2.1).pidOk
      (r.1.launched_pidOk o pid)

/-- Starting, right after its creation, the container just created. -/
theorem Grows.start {spec : ContainerSpec} {m m' : Manager} (h : Grows spec m m') (hwf : Wf m)
    (hnew : ∃ c ∈ m'.list, c.id = containerId m.nextSequence) (poll : PollOutcome)
    (o : StartOutcome) (schedule capture : Bool) :
    Grows spec m
      (startContainerById poll o (containerId m.nextSequence) schedule capture m').1 := by
  have hq := pollStates_quiet poll m'
  have hpolled : Grows spec m (pollStates poll m') :=
    h.extend (idents_pollStates poll m') (fun c hc => .inl (hq.later c hc)) rfl rfl
  obtain ⟨hseq, hheap⟩ := withContainer_counters poll (containerId m.nextSequence)
    (startContainer o schedule capture) m'
  refine h.extend (idents_withContainer (hwf.grows h) poll _
    (startContainer_same o schedule capture)) (fun c'' hc'' => ?_) hseq hheap
  rcases mem_withContainer poll _ hc'' with hc'' | hc'' | ⟨c, hfind, rfl⟩
  · exact .inl ⟨c'', hc'', Later.refl c''⟩
  · exact .inl (hq.later c'' hc'')
  · -- the record found is the new one: no other has its number
    have hex : ∃ d ∈ (pollStates poll m').list, d.id = containerId m.nextSequence := by
      obtain ⟨d, hd, hid⟩ := hnew
      obtain ⟨d', hd', hrel⟩ := forall₂_mem_left (pollStates_pollRel poll m') hd
      exact ⟨d', hd', hrel.same.id.trans hid⟩
    obtain ⟨hk, hok⟩ := hpolled.of_id hwf (mem_of_findContainer hfind).1
      (findContainer_id hex hfind)
    exact .inr ⟨(startContainer_same o schedule capture c _).ident.trans hk,
      startContainer_pidOk o schedule capture _ hok⟩

theorem containerCreate_new {o : CreateOutcome} {spec : ContainerSpec} {m m' : Manager}
    {id : Bytes} (h : containerCreate o spec m = (m', some id)) :
    id = containerId m.nextSequence ∧ ∃ c ∈ m'.list, c.id = containerId m.nextSequence := by
  rcases containerCreate_cases o spec m with ⟨hnone, -⟩ | ⟨rootfs, hid, hlist, -⟩
  · rw [h] at hnone
    cases hnone
  · rw [h] at hid hlist
    refine ⟨Option.some.inj hid, ?_⟩
    rw [show m'.list = _ from hlist]
    exact ⟨_, List.mem_append_right _ (List.mem_singleton_self _), rfl⟩

theorem recordLogPath_grows {spec : ContainerSpec} {m m' : Manager} (h : Grows spec m m')
    (hwf : Wf m') (save : Bool) (id : Bytes) : Grows spec m (recordLogPath save id m') := by
  unfold recordLogPath
  cases hfind : findContainer m'.list id with
  | none => exact h
  | some c =>
    obtain ⟨hsame, hpid, hstate⟩ := ensureContainerLogPath_spec c
    have hc := (mem_of_findContainer hfind).1
    refine h.extend (idents_setContainer hwf.ptrs hc hsame _) (fun d hd => .inl ?_) rfl rfl
    rcases mem_setContainer.mp hd with ⟨_, _, _, rfl⟩ | ⟨hd, -⟩
    · refine ⟨c, hc, hsame, ?_, ?_⟩
      · rw [Live, Live, hstate]
        exact fun hl => hl
      · rw [PidOk, PidOk, hstate, hpid]
        exact fun hok => hok
    · exact ⟨d, hd, Later.refl d⟩

/-- The new record is still there under its id. -/
theorem exists_id_of_idents {m m' : Manager} (h : idents m' = idents m) {id : Bytes}
    (hex : ∃ c ∈ m.list, c.id = id) : ∃ c ∈ m'.list, c.id = id := by
  obtain ⟨c, hc, hid⟩ := hex
  obtain ⟨c', hc', hk⟩ := mem_idents.mp (h ▸ ident_mem hc)
  exact ⟨c', hc', (congrArg Ident.id hk).trans hid⟩

theorem idents_recordLogPath {m : Manager} (h : Wf m) (save : Bool) (id : Bytes) :
    idents (recordLogPath save id m) = idents m := by
  unfold recordLogPath
  cases hfind : findContainer m.list id with
  | none => rfl
  | some c =>
    exact idents_setContainer h.ptrs (mem_of_findContainer hfind).1
      (ensureContainerLogPath_spec c).1 _

theorem containerRunBackground_grows {m : Manager} (hwf : Wf m) (o : RunOutcome)
    (spec : ContainerSpec) : Grows spec m (containerRunBackground o spec m).1 := by
  have hc := containerCreate_grows hwf o.create spec
  unfold containerRunBackground
  cases hcreate : containerCreate o.create spec m with
  | mk m₁ r =>
    rw [hcreate] at hc
    cases r with
    | none => exact hc
    | some id =>
      obtain ⟨rfl, hnew⟩ := containerCreate_new hcreate
      have hwf₁ : Wf m₁ := hwf.grows hc
      have hs := (recordLogPath_grows hc hwf₁ o.saveLogPath (containerId m.nextSequence)).start hwf
        (exists_id_of_idents (idents_recordLogPath hwf₁ o.saveLogPath _) hnew)
        o.poll o.start true true
      simp only
      split
      · exact hs
      · exact hs

theorem containerCreate_heap {o : CreateOutcome} (h : o.calloc = true) (spec : ContainerSpec)
    (m : Manager) : (containerCreate o spec m).1.heap = m.heap + 1 := by
  unfold containerCreate
  rw [h]
  simp only [Bool.not_true, Bool.false_eq_true, if_false]
  cases filesystemPrepareRootfs o (newContainer o spec m.heap m.nextSequence).2 with
  | none => rfl
  | some rootfs =>
    simp only
    split <;> rfl

theorem recordLogPath_counters (save : Bool) (id : Bytes) (m : Manager) :
    (recordLogPath save id m).nextSequence = m.nextSequence ∧
    (recordLogPath save id m).heap = m.heap := by
  unfold recordLogPath
  cases findContainer m.list id with
  | none => exact ⟨rfl, rfl⟩
  | some c => exact ⟨rfl, rfl⟩

/-- Past the creation, a background run keeps the counters. -/
theorem containerRunBackground_counters (o : RunOutcome) (spec : ContainerSpec) (m : Manager) :
    (containerRunBackground o spec m).1.nextSequence =
      (containerCreate o.create spec m).1.nextSequence ∧
    (containerRunBackground o spec m).1.heap = (containerCreate o.create spec m).1.heap := by
  unfold containerRunBackground
  cases hcreate : containerCreate o.create spec m with
  | mk m₁ r =>
    cases r with
    | none => exact ⟨rfl, rfl⟩
    | some id =>
      obtain ⟨hseq, hheap⟩ := withContainer_counters o.poll id (startContainer o.start true true)
        (recordLogPath o.saveLogPath id m₁)
      obtain ⟨hseq', hheap'⟩ := recordLogPath_counters o.saveLogPath id m₁
      simp only
      split
      · exact ⟨hseq.trans hseq', hheap.trans hheap'⟩
      · exact ⟨hseq.trans hseq', hheap.trans hheap'⟩

theorem containerRunBackground_heap {o : RunOutcome} (h : o.create.calloc = true)
    (spec : ContainerSpec) (m : Manager) :
    m.heap < (containerRunBackground o spec m).1.heap := by
  rw [(containerRunBackground_counters o spec m).2, containerCreate_heap h]
  exact Nat.lt_succ_self _

/-- A background run that succeeds hands out the next id. -/
theorem containerRunBackground_some {o : RunOutcome} {spec : ContainerSpec} {m : Manager}
    {id : Bytes} (h : (containerRunBackground o spec m).2 = some id) :
    id = containerId m.nextSequence ∧ o.create.calloc = true ∧
    m.nextSequence < (containerRunBackground o spec m).1.nextSequence := by
  have hseq := (containerRunBackground_counters o spec m).1
  unfold containerRunBackground at h
  cases hcreate : containerCreate o.create spec m with
  | mk m₁ r =>
    rw [hcreate] at h hseq
    cases r with
    | none => cases h
    | some id' =>
      simp only at h
      split at h
      · cases h
      · refine ⟨?_, ?_, ?_⟩
        · rw [← Option.some.inj h]
          exact (containerCreate_new hcreate).1
        · cases hcalloc : o.create.calloc with
          | true => rfl
          | false => simp [containerCreate, hcalloc] at hcreate
        · rcases containerCreate_cases o.create spec m with ⟨hnone, -⟩ | ⟨_, -, -, hs, -⟩
          · rw [hcreate] at hnone
            cases hnone
          · rw [hcreate] at hs
            rw [hseq, hs]
            exact Nat.lt_succ_self _

theorem containerRun_grows {m : Manager} (hwf : Wf m) (o : RunOutcome) (spec : ContainerSpec) :
    Grows spec m (containerRun o spec m).1 := by
  have hc := containerCreate_grows hwf o.create spec
  unfold containerRun
  cases hcreate : containerCreate o.create spec m with
  | mk m₁ r =>
    rw [hcreate] at hc
    cases r with
    | none => exact hc
    | some id =>
      obtain ⟨rfl, hnew⟩ := containerCreate_new hcreate
      have hs := hc.start hwf hnew o.poll o.start false false
      simp only
      generalize startContainerById o.poll o.start _ false false m₁ = r at hs ⊢
      split
      · exact hs
      · cases hfind : findContainer r.1.list (containerId m.nextSequence) with
        | none => exact hs
        | some c =>
          have hcm := (mem_of_findContainer hfind).1
          have hl : Later c _ := (waitForContainerProcess_recStep o.wait c r.1.world).later_of_stopped
            (waitForContainerProcess_state o.wait c r.1.world)
          refine hs.extend (idents_setContainer (hwf.grows hs).ptrs hcm hl.same _)
            (fun d hd => .inl ?_) rfl rfl
          rcases mem_setContainer.mp hd with ⟨_, _, _, rfl⟩ | ⟨hd, -⟩
          · exact ⟨c, hcm, hl⟩
          · exact ⟨d, hd, Later.refl d⟩

/-! ## A start that fails, and a stop that works -/

theorem justCreated_create {m m' : Manager} (h : Wf m) {o : CreateOutcome} {spec : ContainerSpec}
    {id : Bytes} (hcreate : containerCreate o spec m = (m', some id)) : JustCreated m'.list id := by
  have hcases := containerCreate_cases o spec m
  rw [hcreate] at hcases
  rcases hcases with ⟨hnone, -⟩ | ⟨rootfs, hid, hlist, -⟩
  · cases hnone
  · rw [Option.some.injEq] at hid
    subst hid
    rw [show m'.list = _ from hlist]
    constructor
    · exact ⟨_, List.mem_append_right _ (List.mem_singleton_self _), rfl⟩
    · intro c hc hcid
      rcases List.mem_append.mp hc with hc | hc
      · exact absurd hcid (h.fresh c hc _ (Nat.le_refl _))
      · rw [List.mem_singleton.mp hc]
        rfl

theorem JustCreated.recordLogPath {m : Manager} {id : Bytes} (hnew : JustCreated m.list id)
    (save : Bool) : JustCreated (Runtime.recordLogPath save id m).list id := by
  unfold Runtime.recordLogPath
  cases hfind : findContainer m.list id with
  | none => exact hnew
  | some c =>
    obtain ⟨hsame, -, hstate⟩ := ensureContainerLogPath_spec c
    have hcm := (mem_of_findContainer hfind).1
    have hcid := findContainer_id hnew.1 hfind
    constructor
    · exact ⟨_, mem_setContainer.mpr (.inl ⟨c, hcm, hsame.ptr.symm, rfl⟩), hsame.id.trans hcid⟩
    · intro d hd hdid
      rcases mem_setContainer.mp hd with ⟨_, _, _, rfl⟩ | ⟨hd, -⟩
      · rw [hstate]
        exact hnew.2 c hcm hcid
      · exact hnew.2 d hd hdid

/-- A stop succeeds on a live process: it ends within the grace period, or
SIGKILL can be sent and the process then be collected. -/
def StopOutcome.works (o : StopOutcome) (timeoutS : Int) : Bool :=
  (termPhase o timeoutS).isSome ||
    (o.kill != .error &&
      match o.finalWait with
      | .reaped _ | .echild => true
      | _ => false)

theorem stopSignals_works {o : StopOutcome} {timeoutS : Int} (h : o.works timeoutS = true)
    (pid : Int) (w : World) : (stopSignals o timeoutS pid w).2 ≠ .failed := by
  unfold stopSignals
  simp only
  cases hterm : termPhase o timeoutS with
  | some status =>
    intro hfailed
    cases hfailed
  | none =>
    simp only [StopOutcome.works, hterm, Option.isSome_none, Bool.false_or, Bool.and_eq_true,
      bne_iff_ne] at h
    obtain ⟨hkill, hwait⟩ := h
    simp only [killPhase]
    rw [if_neg hkill]
    cases hw : o.finalWait with
    | reaped status =>
      intro hfailed
      cases hfailed
    | echild =>
      intro hfailed
      cases hfailed
    | nothing => rw [hw] at hwait; cases hwait
    | eintr => rw [hw] at hwait; cases hwait
    | error => rw [hw] at hwait; cases hwait

theorem stopContainerProcess_dead {o : StopOutcome} {timeoutS : Int}
    (h : o.works timeoutS = true) {c : Container} (hok : PidOk c) (w : World) :
    ¬ Live (stopContainerProcess o timeoutS c w).1 := by
  unfold stopContainerProcess
  split
  · rename_i hidle
    intro hl
    have hpos := hok.1 hl
    rcases hidle with ⟨hr, hp⟩ | hp
    · exact hl.elim hr hp
    · omega
  · simp only
    generalize (if c.state = .paused ∧ o.cont = true then w.emit (.signal c.pid .cont) else w) = w₁
    have hworks := stopSignals_works h c.pid w₁
    generalize stopSignals o timeoutS c.pid w₁ = r at hworks ⊢
    rw [if_neg hworks]
    exact not_live_stopped rfl

/-- After a stop that works, the container under that id is not live. -/
theorem containerStop_dead {m : Manager} {id : Bytes} {o : StopOutcome} {timeoutS : Int}
    (hworks : o.works timeoutS = true) (hid : id ≠ []) (poll : PollOutcome)
    (hone : ∀ c ∈ m.list, ∀ d ∈ m.list, c.id = id → d.id = id → c.ptr = d.ptr)
    (hok : ∀ c ∈ m.list, c.id = id → PidOk c) :
    ∀ c' ∈ (containerStop poll o id timeoutS m).1.list, c'.id = id → ¬ Live c' := by
  intro c' hc' hid'
  have hq := (pollStates_quiet poll m).later
  unfold containerStop withContainer at hc'
  rw [if_neg hid] at hc'
  simp only at hc'
  cases hfind : findContainer (pollStates poll m).list id with
  | none =>
    rw [hfind] at hc'
    obtain ⟨c, hc, -⟩ := findContainer_of_id ⟨c', hc', hid'⟩
    rw [hfind] at hc
    cases hc
  | some c =>
    rw [hfind] at hc'
    have hc := (mem_of_findContainer hfind).1
    obtain ⟨d, hd, hld⟩ := hq c hc
    have hsame := (stopContainerProcess_recStep o timeoutS c (pollStates poll m).world).same
    rcases mem_setContainer.mp hc' with ⟨_, _, _, rfl⟩ | ⟨hc', hne⟩
    · have hcid : c.id = id := hsame.id.symm.trans hid'
      exact stopContainerProcess_dead hworks
        (hld.pidOk (hok d hd (hld.same.id.symm.trans hcid))) _
    · have hcid : c.id = id := findContainer_id ⟨c', hc', hid'⟩ hfind
      obtain ⟨e, he, hle⟩ := hq c' hc'
      have hptr := hone e he d hd (hle.same.id.symm.trans hid') (hld.same.id.symm.trans hcid)
      refine absurd ?_ hne
      rw [hsame.ptr, hle.same.ptr, hld.same.ptr, hptr]

theorem finishStart_fail (o : StartOutcome) (schedule : Bool) (c : Container) (w : World)
    (h : (finishStart o schedule c w).2.2 ≠ 0) :
    ∃ w', (finishStart o schedule c w).1 = (stopContainerProcess o.stop 0 c w').1 := by
  have hmove := finishStart_move o schedule c w
  generalize finishStart o schedule c w = r at hmove h ⊢
  cases hmove with
  | unpublished => exact ⟨_, rfl⟩
  | undone => exact ⟨_, rfl⟩
  | done => exact absurd rfl h

/-- A start that fails on a CREATED container leaves it without a process. -/
theorem startContainer_fail {o : StartOutcome} (hworks : o.stop.works 0 = true)
    (schedule capture : Bool) {c : Container} (w : World) (hc : c.state = .created)
    (h : (startContainer o schedule capture c w).2.2 ≠ 0) :
    ¬ Live (startContainer o schedule capture c w).1 := by
  have hcreated : ∀ d : Container, d.state = .created → ¬ Live d := by
    rintro d hd (hl | hl) <;> rw [hd] at hl <;> cases hl
  have hmove := startContainer_move o schedule capture c w
  generalize startContainer o schedule capture c w = r at hmove h ⊢
  cases hmove with
  | refused => exact hcreated c hc
  | noProcess _ _ hns => exact hcreated _ ((startedRecord_spec hns).2.2.1.trans hc)
  | @finish r pid =>
    obtain ⟨w', hw'⟩ := finishStart_fail _ _ _ _ h
    rw [hw']
    exact stopContainerProcess_dead hworks (r.1.launched_pidOk o pid) w'

/-- A background run that fails leaves nothing running that was not before. -/
theorem containerRunBackground_fail {m : Manager} (hwf : Wf m) {o : RunOutcome}
    (hworks : o.start.stop.works 0 = true) (spec : ContainerSpec)
    (h : (containerRunBackground o spec m).2 = none) :
    ∀ c' ∈ (containerRunBackground o spec m).1.list, Live c' → ∃ c ∈ m.list, Later c c' := by
  intro c' hc' hlive
  have hg := containerRunBackground_grows hwf o spec
  rcases hg.later c' hc' with hold | ⟨hk, -⟩
  · exact hold
  -- the new record: it was CREATED when the start failed
  exfalso
  have hid : c'.id = containerId m.nextSequence := congrArg Ident.id hk
  have hcg := containerCreate_grows hwf o.create spec
  unfold containerRunBackground at hc' h
  cases hcreate : containerCreate o.create spec m with
  | mk m₁ r =>
    rw [hcreate] at hc' h hcg
    cases r with
    | none =>
      rcases containerCreate_cases o.create spec m with ⟨-, hlist, -⟩ | ⟨_, hsome, -⟩
      · rw [hcreate] at hlist
        rw [show m₁.list = m.list from hlist] at hc'
        exact hwf.fresh c' hc' _ (Nat.le_refl _) hid
      · rw [hcreate] at hsome
        cases hsome
    | some id =>
      obtain ⟨rfl, -⟩ := containerCreate_new hcreate
      have hnew := justCreated_create hwf hcreate
      have hpolled := (hnew.recordLogPath o.saveLogPath).poll o.poll
      simp only at hc' h
      split at h
      · rename_i hrc
        rw [if_pos hrc] at hc'
        have hstate : ∀ d ∈ (pollStates o.poll (recordLogPath o.saveLogPath
            (containerId m.nextSequence) m₁)).list, d.id = containerId m.nextSequence →
            ¬ Live d := by
          intro d hd hdid hl
          rcases hl with hl | hl <;> rw [hpolled.2 d hd hdid] at hl <;> cases hl
        unfold startContainerById withContainer at hc' hrc
        rw [if_neg (containerId_ne_nil _)] at hc' hrc
        simp only at hc' hrc
        cases hfind : findContainer (pollStates o.poll (recordLogPath o.saveLogPath
            (containerId m.nextSequence) m₁)).list (containerId m.nextSequence) with
        | none =>
          rw [hfind] at hc'
          exact hstate c' hc' hid hlive
        | some c =>
          rw [hfind] at hc' hrc
          have hcid := findContainer_id hpolled.1 hfind
          rcases mem_setContainer.mp hc' with ⟨_, _, _, rfl⟩ | ⟨hc', -⟩
          · exact startContainer_fail hworks true true _
              (hpolled.2 c (mem_of_findContainer hfind).1 hcid) hrc hlive
          · exact hstate c' hc' hid hlive
      · cases h

/-! ## Pruning -/

theorem pruneList_sublist (l : List Container) (w : World) : (pruneList l w).1.Sublist l := by
  induction l generalizing w with
  | nil => exact List.Sublist.refl _
  | cons c cs ih =>
    rw [pruneList]
    split
    · exact (ih _).cons c
    · exact (ih w).cons_cons c

theorem idNumber_containerId (k : Nat) : idNumber (containerId k) = some (k : Int) := by
  have hpre : (bytes "container-").isPrefixOf (containerId k) = true := by
    rw [List.isPrefixOf_iff_prefix, containerId]
    exact List.prefix_append _ _
  have hdrop : (containerId k).drop (bytes "container-").length = fmtPadded 4 k ++ [] := by
    rw [containerId, List.drop_left, List.append_nil]
  rw [idNumber]
  simp only [hpre, if_true]
  rw [hdrop, scanInt_digits (fmtPadded_ne_nil 4 k) (fmtPadded_isDigit 4 k) (NoDigit.nil 10),
    readDigits_fmtPadded]
  rfl

theorem le_updateNextSequence (next : Nat) (id : Bytes) : next ≤ updateNextSequence next id := by
  unfold updateNextSequence
  cases idNumber id with
  | none => exact Nat.le_refl _
  | some v =>
    simp only
    split
    · omega
    · exact Nat.le_refl _

theorem lt_updateNextSequence (next k : Nat) : k < updateNextSequence next (containerId k) := by
  rw [updateNextSequence, idNumber_containerId]
  simp only
  split
  · omega
  · rename_i h
    omega

/-- After the recount no record has an id from the counter on. -/
theorem foldl_updateNextSequence (l : List Container) (next : Nat) :
    next ≤ l.foldl (fun next c => updateNextSequence next c.id) next ∧
    ∀ c ∈ l, ∀ k, l.foldl (fun next c => updateNextSequence next c.id) next ≤ k →
      c.id ≠ containerId k := by
  induction l generalizing next with
  | nil => exact ⟨Nat.le_refl _, fun c hc => absurd hc List.not_mem_nil⟩
  | cons c cs ih =>
    obtain ⟨hle, hids⟩ := ih (updateNextSequence next c.id)
    refine ⟨(le_updateNextSequence next c.id).trans hle, fun d hd k hk => ?_⟩
    rcases List.mem_cons.mp hd with rfl | hd
    · intro heq
      rw [List.foldl_cons] at hk
      have hlt := lt_updateNextSequence next k
      rw [← heq] at hlt
      omega
    · exact hids d hd k hk

theorem mem_containerPruneAll {poll : PollOutcome} {save : Bool} {m : Manager} {c : Container}
    (hc : c ∈ (containerPruneAll poll save m).list) : c ∈ (pollStates poll m).list := by
  have hsub := pruneList_sublist (pollStates poll m).list (pollStates poll m).world
  exact hsub.subset hc

theorem containerPruneAll_wf {m : Manager} (h : Wf m) (poll : PollOutcome) (save : Bool) :
    Wf (containerPruneAll poll save m) := by
  have hp := h.quiet (pollStates_quiet poll m)
  have hsub := pruneList_sublist (pollStates poll m).list (pollStates poll m).world
  unfold containerPruneAll
  simp only
  generalize pruneList (pollStates poll m).list (pollStates poll m).world = r at hsub ⊢
  constructor
  · exact hp.ptrs.sublist (hsub.map _)
  · intro c hc
    exact hp.heap c (hsub.subset hc)
  · exact (foldl_updateNextSequence r.1 1).2

end ContainerSim.Runtime
