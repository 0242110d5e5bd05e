import ContainerSim.Runtime.Lifecycle

/-!
# One rule for all operations

An operation of the manager is a sequence of changes to one record and its
world, of additions and of removals. `Ruled Q` says that each of these changes
keeps a property `Q` of the world and the list; `Ruled.userStep` says that then
every operation keeps it. Starts are left to the user of the rule: what
`start_container_by_id` is called on (`UserOp.startCall`) is exposed, and the
rule asks that `Q` be kept there.
-/

namespace ContainerSim.Runtime

open Lib Sched

/-! ## Where a container is started -/

/-- `start_container_by_id` on the record it has found, with its answers. -/
structure StartCall where
  o : StartOutcome
  schedule : Bool
  capture : Bool
  record : Container
  world : World

/-- The record that a start by id works on, if there is one. -/
def startCallOf (poll : PollOutcome) (o : StartOutcome) (id : Bytes) (schedule capture : Bool)
    (m : Manager) : Option StartCall :=
  if id = [] then none
  else (findContainer (pollStates poll m).list id).map fun c =>
    { o, schedule, capture, record := c, world := (pollStates poll m).world }

/-- The start that an operation makes. -/
def UserOp.startCall (m : Manager) : UserOp → Option StartCall
  | .life (.start poll o id) => startCallOf poll o id true true m
  | .life (.run o spec) =>
    (containerCreate o.create spec m).2.bind fun id =>
      startCallOf o.poll o.start id false false (containerCreate o.create spec m).1
  | .life (.runBackground o spec) =>
    (containerCreate o.create spec m).2.bind fun id =>
      startCallOf o.poll o.start id true true
        (recordLogPath o.saveLogPath id (containerCreate o.create spec m).1)
  | _ => none

/-- `container_net_setup` gets as far as a veth of its own. -/
def NetOutcome.attaches (o : NetOutcome) (w : World) : Bool :=
  o.bridgeUp && o.preflight && o.setupVeth && decide (w.nextIpHost ≤ 254)

/-- The process is lost after `container_net_setup`. -/
def NsOutcome.failsAfter : NsOutcome → Bool
  | .failAfter => true
  | _ => false

/-- `container_net_setup` with a veth, or without any change to the record. -/
theorem containerNetSetup_cases (o : NetOutcome) (c : Container) (w : World) :
    (o.attaches w = true ∧ ∃ ip, ip ≠ [] ∧
      (containerNetSetup o c w).1 = { c with ipAddress := ip, vethHost := hostVeth c.id } ∧
      (containerNetSetup o c w).2.1.trace = w.trace ++ [.setupVeth (hostVeth c.id)] ∧
      (containerNetSetup o c w).2.2 = 0) ∨
    (o.attaches w = false ∧ (containerNetSetup o c w).1 = c ∧
      (containerNetSetup o c w).2.1.trace = w.trace ∧
      (containerNetSetup o c w).2.2 = if c.portMaps ≠ [] then -1 else 0) := by
  unfold containerNetSetup NetOutcome.attaches
  simp only
  cases o.bridgeUp with
  | false => exact .inr ⟨rfl, rfl, rfl, rfl⟩
  | true =>
    cases o.preflight with
    | false => exact .inr ⟨rfl, rfl, rfl, rfl⟩
    | true =>
      unfold bridgeAllocIp
      by_cases hip : w.nextIpHost > 254
      · simp only [if_pos hip]
        exact .inr ⟨by simp [Int.not_le.mpr hip], rfl, rfl, rfl⟩
      · simp only [if_neg hip]
        cases o.setupVeth with
        | false => exact .inr ⟨rfl, rfl, rfl, rfl⟩
        | true =>
          refine .inl ⟨by simp [Int.not_lt.mp hip], _, ?_, rfl, rfl, rfl⟩
          intro hnil
          have hlen := congrArg List.length hnil
          rw [snprintfStr, List.length_take, List.length_append] at hlen
          simp [bytes] at hlen

/-! ## The rule -/

/-- A record as `container_create` makes it. -/
structure NewRecord (c : Container) : Prop where
  state : c.state = .created
  pid : c.pid = -1
  ipAddress : c.ipAddress = []
  vethHost : c.vethHost = []

/-- Work on one record keeps `Q` of the world and the whole list. -/
def CarriesAt {β : Type} (Q : World → List Container → Prop)
    (f : Container → World → Container × World × β) (c : Container) (w : World) : Prop :=
  ∀ pre post, Q w (pre ++ c :: post) → Q (f c w).2.1 (pre ++ (f c w).1 :: post)

/-- What `Q` has to stand, starts apart. -/
structure Ruled (Q : World → List Container → Prop) : Prop where
  sync : ∀ o c w, CarriesAt Q (pollRecord o) c w
  stop : ∀ o timeoutS c w, CarriesAt Q (stopContainerProcess o timeoutS) c w
  wait : ∀ o c w, CarriesAt Q (waitForContainerProcess o) c w
  pause : ∀ kill save c w, CarriesAt Q (pauseContainer kill save) c w
  unpause : ∀ kill save c w, CarriesAt Q (unpauseContainer kill save) c w
  logPath : ∀ c w, CarriesAt Q (fun c w => (ensureContainerLogPath c, w, ())) c w
  save : ∀ ok w l, Q w l → Q (w.emit (.save ok)) l
  create : ∀ c w l, NewRecord c → (∀ d ∈ l, d.id ≠ c.id) → Q w l →
    Q (w.emit (.event .created c.id c.rootfs 0)) (l ++ [c])
  /-- a record that is not live is cleaned up and put at the end -/
  putBack : ∀ c w pre post, ¬ Live c → Q w (pre ++ c :: post) →
    Q (cleanupContainerNetwork c w).2 (pre ++ post ++ [(cleanupContainerNetwork c w).1])
  /-- a record that is not live is removed -/
  remove : ∀ c w pre post, ¬ Live c → Q w (pre ++ c :: post) →
    Q (w.emit (.event .deleted c.id [] 0)) (pre ++ post)

/-- `Q` is kept by the start. -/
def StartCall.Keeps (Q : World → List Container → Prop) (call : StartCall) : Prop :=
  CarriesAt Q (startContainer call.o call.schedule call.capture) call.record call.world

variable {Q : World → List Container → Prop}

theorem Ruled.pollList (h : Ruled Q) (sync : Nat → SyncOutcome) (pre : List Container)
    {l : List Container} {w : World} (hq : Q w (pre ++ l)) :
    Q (Runtime.pollList sync l w).2.1 (pre ++ (Runtime.pollList sync l w).1) := by
  induction l generalizing pre w with
  | nil => exact hq
  | cons c cs ih =>
    have hnext : Q (pollRecord (sync c.ptr) c w).2.1
        ((pre ++ [(pollRecord (sync c.ptr) c w).1]) ++ cs) := by
      rw [List.append_assoc]
      exact h.sync (sync c.ptr) c w pre cs hq
    have hrest := ih _ hnext
    rw [List.append_assoc] at hrest
    exact hrest

theorem Ruled.pollStates (h : Ruled Q) (o : PollOutcome) {m : Manager} (hq : Q m.world m.list) :
    Q (Runtime.pollStates o m).world (Runtime.pollStates o m).list := by
  have hlist := h.pollList o.sync [] hq
  unfold Runtime.pollStates
  simp only
  split
  · exact h.save o.save _ _ hlist
  · exact hlist

/-- Writing one record back. -/
theorem setContainer_carries {β : Type} {f : Container → World → Container × World × β}
    {m : Manager} {c : Container} (hptrs : PtrNodup m.list) (hc : c ∈ m.list)
    (hptr : (f c m.world).1.ptr = c.ptr) (hf : CarriesAt Q f c m.world) (hq : Q m.world m.list) :
    Q (f c m.world).2.1 (setContainer m.list (f c m.world).1) := by
  obtain ⟨pre, post, hlist, hset⟩ := setContainer_split hptrs hc hptr
  rw [hset]
  exact hf pre post (hlist ▸ hq)

theorem Ruled.withContainer (h : Ruled Q) {m : Manager} (hwf : Wf m) (poll : PollOutcome)
    (id : Bytes) {f : Container → World → Container × World × Int}
    (hptr : ∀ c w, (f c w).1.ptr = c.ptr)
    (hf : id ≠ [] → ∀ c, findContainer (Runtime.pollStates poll m).list id = some c →
      CarriesAt Q f c (Runtime.pollStates poll m).world)
    (hq : Q m.world m.list) :
    Q (Runtime.withContainer poll id f m).1.world (Runtime.withContainer poll id f m).1.list := by
  unfold Runtime.withContainer
  by_cases hid : id = []
  · rw [if_pos hid]
    exact hq
  · rw [if_neg hid]
    have hpolled := h.pollStates poll hq
    simp only
    cases hfind : findContainer (Runtime.pollStates poll m).list id with
    | none => exact hpolled
    | some c =>
      exact setContainer_carries (hwf.quiet (pollStates_quiet poll m)).ptrs
        (mem_of_findContainer hfind).1 (hptr c _) (hf hid c hfind) hpolled

/-- A start by id, given that `Q` is kept where it is made. -/
theorem Ruled.startById (h : Ruled Q) {m : Manager} (hwf : Wf m) (poll : PollOutcome)
    (o : StartOutcome) (id : Bytes) (schedule capture : Bool)
    (hcall : ∀ call, startCallOf poll o id schedule capture m = some call → call.Keeps Q)
    (hq : Q m.world m.list) :
    Q (startContainerById poll o id schedule capture m).1.world
      (startContainerById poll o id schedule capture m).1.list := by
  refine h.withContainer hwf poll id (fun c w => (startContainer_same o schedule capture c w).ptr)
    (fun hid c hfind => ?_) hq
  refine hcall ⟨o, schedule, capture, c, (Runtime.pollStates poll m).world⟩ ?_
  rw [startCallOf, if_neg hid, hfind]
  rfl

theorem Ruled.containerCreate (h : Ruled Q) {m : Manager} (hwf : Wf m) (o : CreateOutcome)
    (spec : ContainerSpec) (hq : Q m.world m.list) :
    Q (Runtime.containerCreate o spec m).1.world (Runtime.containerCreate o spec m).1.list := by
  unfold Runtime.containerCreate
  split
  · exact hq
  · simp only
    cases filesystemPrepareRootfs o (newContainer o spec m.heap m.nextSequence).2 with
    | none => exact hq
    | some rootfs =>
      simp only
      split
      · exact h.save o.save _ _ hq
      · refine h.create { (newContainer o spec m.heap m.nextSequence).1 with rootfs } _ _
          ⟨rfl, rfl, rfl, rfl⟩ (fun d hd => ?_) (h.save o.save _ _ hq)
        exact hwf.fresh d hd m.nextSequence (Nat.le_refl _)

theorem Ruled.recordLogPath (h : Ruled Q) {m : Manager} (hwf : Wf m) (save : Bool) (id : Bytes)
    (hq : Q m.world m.list) :
    Q (Runtime.recordLogPath save id m).world (Runtime.recordLogPath save id m).list := by
  unfold Runtime.recordLogPath
  cases hfind : findContainer m.list id with
  | none => exact hq
  | some c =>
    refine h.save save _ _ ?_
    exact setContainer_carries (f := fun c w => (ensureContainerLogPath c, w, ())) hwf.ptrs
      (mem_of_findContainer hfind).1 (ensureContainerLogPath_spec c).1.ptr (h.logPath c _) hq

/-- `container_run`, given that `Q` is kept by its start. -/
theorem Ruled.containerRun (h : Ruled Q) {m : Manager} (hwf : Wf m) (o : RunOutcome)
    (spec : ContainerSpec)
    (hcall : ∀ call, UserOp.startCall m (.life (.run o spec)) = some call → call.Keeps Q)
    (hq : Q m.world m.list) :
    Q (Runtime.containerRun o spec m).1.world (Runtime.containerRun o spec m).1.list := by
  have hcreate := h.containerCreate hwf o.create spec hq
  have hwf₁ := hwf.grows (containerCreate_grows hwf o.create spec)
  unfold UserOp.startCall at hcall
  unfold Runtime.containerRun
  cases hc : Runtime.containerCreate o.create spec m with
  | mk m₁ r =>
    simp only [hc] at hcreate hcall hwf₁
    cases r with
    | none => exact hcreate
    | some id =>
      have hstart := h.startById hwf₁ o.poll o.start id false false hcall hcreate
      have hptrs : PtrNodup (startContainerById o.poll o.start id false false m₁).1.list := by
        have hidents := idents_withContainer hwf₁ o.poll id (startContainer_same o.start false false)
        rw [PtrNodup, map_ptr_eq, startContainerById, hidents, ← map_ptr_eq]
        exact hwf₁.ptrs
      simp only
      generalize startContainerById o.poll o.start id false false m₁ = r at hstart hptrs ⊢
      split
      · exact hstart
      · cases hfind : findContainer r.1.list id with
        | none => exact hstart
        | some c =>
          exact setContainer_carries hptrs (mem_of_findContainer hfind).1
            (waitForContainerProcess_recStep o.wait c r.1.world).same.ptr (h.wait o.wait c _) hstart

/-- `container_run_background`, given that `Q` is kept by its start. -/
theorem Ruled.containerRunBackground (h : Ruled Q) {m : Manager} (hwf : Wf m) (o : RunOutcome)
    (spec : ContainerSpec)
    (hcall : ∀ call, UserOp.startCall m (.life (.runBackground o spec)) = some call → call.Keeps Q)
    (hq : Q m.world m.list) :
    Q (Runtime.containerRunBackground o spec m).1.world
      (Runtime.containerRunBackground o spec m).1.list := by
  have hcreate := h.containerCreate hwf o.create spec hq
  have hgrows := containerCreate_grows hwf o.create spec
  unfold UserOp.startCall at hcall
  unfold Runtime.containerRunBackground
  cases hc : Runtime.containerCreate o.create spec m with
  | mk m₁ r =>
    simp only [hc] at hcreate hcall hgrows
    have hwf₁ := hwf.grows hgrows
    cases r with
    | none => exact hcreate
    | some id =>
      have hlog := h.recordLogPath hwf₁ o.saveLogPath id hcreate
      have hwf₂ := hwf.grows (recordLogPath_grows hgrows hwf₁ o.saveLogPath id)
      have hstart := h.startById hwf₂ o.poll o.start id true true hcall hlog
      simp only
      split
      · exact hstart
      · exact hstart

theorem Ruled.containerDelete (h : Ruled Q) {m : Manager} (hwf : Wf m) (poll : PollOutcome)
    (save : Bool) (id : Bytes) (hq : Q m.world m.list) :
    Q (Runtime.containerDelete poll save id m).1.world
      (Runtime.containerDelete poll save id m).1.list := by
  unfold Runtime.containerDelete
  split
  · exact hq
  · have hpolled := h.pollStates poll hq
    have hptrs := (hwf.quiet (pollStates_quiet poll m)).ptrs
    simp only
    generalize Runtime.pollStates poll m = m₁ at hpolled hptrs ⊢
    cases hfind : findContainer m₁.list id with
    | none => exact hpolled
    | some c =>
      simp only
      split
      · exact hpolled
      · rename_i hidle
        obtain ⟨pre, post, hlist⟩ := List.append_of_mem (mem_of_findContainer hfind).1
        obtain ⟨hsame, -, hstate, -⟩ := cleanupContainerNetwork_spec c m₁.world
        have hrest : removeContainer m₁.list (cleanupContainerNetwork c m₁.world).1.ptr =
            pre ++ post := by
          rw [hsame.ptr, hlist]
          exact removeContainer_split (hlist ▸ hptrs)
        have hback := h.save save _ _ (h.putBack c m₁.world pre post hidle (hlist ▸ hpolled))
        split
        · simp only [hrest]
          exact hback
        · -- as if it had been put back and then removed
          have hgone := h.remove (cleanupContainerNetwork c m₁.world).1 _ (pre ++ post) []
            (by rw [Live, hstate]; exact hidle) hback
          simp only [hrest]
          rw [List.append_nil] at hgone
          exact hgone

theorem Ruled.pruneList (h : Ruled Q) (pre : List Container) {l : List Container} {w : World}
    (hq : Q w (pre ++ l)) :
    Q (Runtime.pruneList l w).2 (pre ++ (Runtime.pruneList l w).1) := by
  induction l generalizing pre w with
  | nil => exact hq
  | cons c cs ih =>
    rw [Runtime.pruneList]
    split
    · rename_i hidle
      exact ih _ (h.remove c w pre cs (not_or.mpr hidle) hq)
    · have hnext : Q w ((pre ++ [c]) ++ cs) := by
        rw [List.append_assoc]
        exact hq
      have hrest := ih _ hnext
      rw [List.append_assoc] at hrest
      exact hrest

/-- What a ruled property is, every operation keeps, given that its start does. -/
theorem Ruled.userStep (h : Ruled Q) {m m' : Manager} {op : UserOp} (hwf : Wf m)
    (hcall : ∀ call, op.startCall m = some call → call.Keeps Q)
    (hs : Runtime.userStep op m = some m') (hq : Q m.world m.list) : Q m'.world m'.list := by
  cases op with
  | prune poll save =>
    cases hs
    exact h.save save _ _ (h.pruneList [] (h.pollStates poll hq))
  | life a =>
    cases a with
    | create o spec => cases hs; exact h.containerCreate hwf o spec hq
    | start poll o id => cases hs; exact h.startById hwf poll o id true true hcall hq
    | run o spec => cases hs; exact h.containerRun hwf o spec hcall hq
    | runBackground o spec => cases hs; exact h.containerRunBackground hwf o spec hcall hq
    | stop poll o id timeoutS =>
      cases hs
      exact h.withContainer hwf poll id
        (fun c w => (stopContainerProcess_recStep o timeoutS c w).same.ptr)
        (fun _ c _ => h.stop o timeoutS c _) hq
    | pause poll kill save id =>
      cases hs
      exact h.withContainer hwf poll id (fun c w => (pauseContainer_recStep kill save c w).same.ptr)
        (fun _ c _ => h.pause kill save c _) hq
    | unpause poll kill save id =>
      cases hs
      exact h.withContainer hwf poll id
        (fun c w => (unpauseContainer_recStep kill save c w).same.ptr)
        (fun _ c _ => h.unpause kill save c _) hq
    | delete poll save id => cases hs; exact h.containerDelete hwf poll save id hq
    | poll o => cases hs; exact h.pollStates o hq

end ContainerSim.Runtime
