import ContainerSim.Runtime.Metadata
import ContainerSim.Runtime.Lifecycle

/-!
# A manager is restarted

Every record the manager can hold fits the metadata format (`Formed`): its
strings fit their arrays, its port maps came through the parser, and the
strings the manager makes itself (id, log path, address, interface) hold no
separator. So a restart brings the whole list back whenever the strings that
users give hold no separator either and the lines fit the buffer.
-/

namespace ContainerSim.Runtime

open Lib Sched

/-! ## What any operation does to a record -/

/-- The log path of a container, cut to its array. -/
def logPathOf (id : Bytes) : Bytes := snprintfStr logPathLen (bytes "logs/" ++ id ++ bytes ".log")

/-- An address `container_net_setup` writes. -/
def Leased (ip : Bytes) : Prop := ∃ n : Int, ip = snprintfStr 16 (bytes "172.17.0." ++ fmtInt n)

/-- `c'` is `c` after any number of operations, starts included. -/
structure Evolves (c c' : Container) : Prop where
  same : Same c c'
  pidOk : PidOk c → PidOk c'
  logPath : c'.logPath = c.logPath ∨ c'.logPath = logPathOf c.id
  ipAddress : c'.ipAddress = c.ipAddress ∨ c'.ipAddress = [] ∨ Leased c'.ipAddress
  vethHost : c'.vethHost = c.vethHost ∨ c'.vethHost = [] ∨ c'.vethHost = hostVeth c.id

theorem Evolves.refl (c : Container) : Evolves c c := ⟨.refl c, id, .inl rfl, .inl rfl, .inl rfl⟩

theorem Evolves.trans {c c' c'' : Container} (h : Evolves c c') (h' : Evolves c' c'') :
    Evolves c c'' := by
  refine ⟨h.same.trans h'.same, fun hok => h'.pidOk (h.pidOk hok), ?_, ?_, ?_⟩
  · rcases h'.logPath with heq | heq
    · rw [heq]
      exact h.logPath
    · rw [heq, h.same.id]
      exact .inr rfl
  · rcases h'.ipAddress with heq | hnew
    · rw [heq]
      exact h.ipAddress
    · exact .inr hnew
  · rcases h'.vethHost with heq | heq | heq
    · rw [heq]
      exact h.vethHost
    · exact .inr (.inl heq)
    · rw [heq, h.same.id]
      exact .inr (.inr rfl)

/-- The network fields and the log path, with all the rest put aside. -/
structure NetStep (c c' : Container) : Prop where
  logPath : c'.logPath = c.logPath
  ipAddress : c'.ipAddress = c.ipAddress ∨ c'.ipAddress = []
  vethHost : c'.vethHost = c.vethHost ∨ c'.vethHost = []

theorem NetStep.refl (c : Container) : NetStep c c := ⟨rfl, .inl rfl, .inl rfl⟩

theorem NetStep.evolves {c c' : Container} {w w' : World} (h : NetStep c c')
    (hrec : RecStep c w c' w') : Evolves c c' :=
  ⟨hrec.same, hrec.pidOk, .inl h.logPath, h.ipAddress.imp_right .inl, h.vethHost.imp_right .inl⟩

theorem cleanupContainerNetwork_net (c : Container) (w : World) :
    NetStep c (cleanupContainerNetwork c w).1 := by
  unfold cleanupContainerNetwork
  simp only
  split
  · exact ⟨rfl, .inr rfl, .inr rfl⟩
  · exact .refl c

theorem syncContainerState_net (o : SyncOutcome) (c : Container) (w : World) :
    NetStep c (syncContainerState o c w).1 := by
  unfold syncContainerState
  split
  · exact .refl c
  split
  · exact .refl c
  cases o.wait with
  | reaped status =>
    obtain ⟨hlog, hip, hveth⟩ := cleanupContainerNetwork_net
      { c with stoppedAt := o.now, exitCode := status.code, state := .stopped, pid := -1 }
      ((w.emit (.reaped c.pid)).schedRemove c.pid)
    exact ⟨hlog, hip, hveth⟩
  | echild =>
    simp only
    split
    · exact .refl c
    · obtain ⟨hlog, hip, hveth⟩ := cleanupContainerNetwork_net
        { c with state := .stopped, pid := -1 } (w.emit (.foundDead c.pid))
      exact ⟨hlog, hip, hveth⟩
  | nothing => exact .refl c
  | eintr => exact .refl c
  | error => exact .refl c

theorem pollRecord_net (o : SyncOutcome) (c : Container) (w : World) :
    NetStep c (pollRecord o c w).1 := by
  unfold pollRecord
  split
  · obtain ⟨hlog, hip, hveth⟩ := syncContainerState_net o { c with oomKillCount := o.oom }
      (w.emit (.event .oomKill c.id [] o.rssMb))
    exact ⟨hlog, hip, hveth⟩
  · exact syncContainerState_net o c w

theorem pollRecord_evolves (o : SyncOutcome) (c : Container) (w : World) :
    Evolves c (pollRecord o c w).1 := (pollRecord_net o c w).evolves (pollRecord_recStep o c w)

theorem stopContainerProcess_evolves (o : StopOutcome) (timeoutS : Int) (c : Container)
    (w : World) : Evolves c (stopContainerProcess o timeoutS c w).1 := by
  have hrec := stopContainerProcess_recStep o timeoutS c w
  refine NetStep.evolves ?_ hrec
  unfold stopContainerProcess
  split
  · exact .refl c
  · simp only
    generalize (if c.state = .paused ∧ o.cont then w.emit (.signal c.pid .cont) else w) = w₁
    generalize stopSignals o timeoutS c.pid w₁ = r
    split
    · exact .refl c
    · obtain ⟨hlog, hip, hveth⟩ := cleanupContainerNetwork_net c (r.1.schedRemove c.pid)
      exact ⟨hlog, hip, hveth⟩

theorem waitForContainerProcess_evolves (o : WaitOutcome) (c : Container) (w : World) :
    Evolves c (waitForContainerProcess o c w).1 := by
  have hrec := waitForContainerProcess_recStep o c w
  have hfinish : ∀ (code : Int) (w' : World), NetStep c (cleanupContainerNetwork
      { c with stoppedAt := o.now, exitCode := code, pid := -1, state := .stopped } w').1 := by
    intro code w'
    obtain ⟨hlog, hip, hveth⟩ := cleanupContainerNetwork_net
      { c with stoppedAt := o.now, exitCode := code, pid := -1, state := .stopped } w'
    exact ⟨hlog, hip, hveth⟩
  refine NetStep.evolves ?_ hrec
  unfold waitForContainerProcess
  split
  · exact .refl c
  · cases o.wait with
    | reaped status => exact hfinish status.code _
    | echild =>
      simp only
      split
      · exact .refl c
      · exact hfinish _ _
    | nothing => exact .refl c
    | eintr => exact .refl c
    | error => exact .refl c

theorem pauseContainer_evolves (kill save : Bool) (c : Container) (w : World) :
    Evolves c (pauseContainer kill save c w).1 := by
  have hrec := pauseContainer_recStep kill save c w
  refine NetStep.evolves ?_ hrec
  unfold pauseContainer
  split
  · exact .refl c
  split
  · exact .refl c
  · exact ⟨rfl, .inl rfl, .inl rfl⟩

theorem unpauseContainer_evolves (kill save : Bool) (c : Container) (w : World) :
    Evolves c (unpauseContainer kill save c w).1 := by
  have hrec := unpauseContainer_recStep kill save c w
  refine NetStep.evolves ?_ hrec
  unfold unpauseContainer
  split
  · exact .refl c
  split
  · exact .refl c
  · exact ⟨rfl, .inl rfl, .inl rfl⟩

theorem ensureContainerLogPath_evolves (c : Container) : Evolves c (ensureContainerLogPath c) := by
  obtain ⟨hsame, hpid, hstate⟩ := ensureContainerLogPath_spec c
  have hok : PidOk c → PidOk (ensureContainerLogPath c) := by
    intro h
    rw [PidOk, hstate, hpid]
    exact h
  unfold ensureContainerLogPath at hsame hok ⊢
  split
  · exact .refl c
  · rename_i hlog
    rw [if_neg hlog] at hsame hok
    exact ⟨hsame, hok, .inr rfl, .inl rfl, .inl rfl⟩

/-- `container_net_setup` leaves the fields or writes a lease. -/
theorem containerNetSetup_net (o : NetOutcome) (c : Container) (w : World) :
    (containerNetSetup o c w).1.logPath = c.logPath ∧
    ((containerNetSetup o c w).1.ipAddress = c.ipAddress ∨
      Leased (containerNetSetup o c w).1.ipAddress) ∧
    ((containerNetSetup o c w).1.vethHost = c.vethHost ∨
      (containerNetSetup o c w).1.vethHost = hostVeth c.id) := by
  unfold containerNetSetup
  simp only
  split
  · exact ⟨rfl, .inl rfl, .inl rfl⟩
  split
  · exact ⟨rfl, .inl rfl, .inl rfl⟩
  · cases halloc : bridgeAllocIp w with
    | none => exact ⟨rfl, .inl rfl, .inl rfl⟩
    | some r =>
      obtain ⟨ip, w'⟩ := r
      have hip : ip = bytes "172.17.0." ++ fmtInt w.nextIpHost := by
        unfold bridgeAllocIp at halloc
        split at halloc
        · cases halloc
        · simp only [Option.some.injEq, Prod.mk.injEq] at halloc
          exact halloc.1.symm
      simp only
      split
      · exact ⟨rfl, .inl rfl, .inl rfl⟩
      · exact ⟨rfl, .inr ⟨w.nextIpHost, hip ▸ rfl⟩, .inr rfl⟩

theorem namespaceStartContainer_net (ns : NsOutcome) (net : NetOutcome) (c : Container)
    (w : World) :
    (namespaceStartContainer ns net c w).1.logPath = c.logPath ∧
    ((namespaceStartContainer ns net c w).1.ipAddress = c.ipAddress ∨
      Leased (namespaceStartContainer ns net c w).1.ipAddress) ∧
    ((namespaceStartContainer ns net c w).1.vethHost = c.vethHost ∨
      (namespaceStartContainer ns net c w).1.vethHost = hostVeth c.id) := by
  have hnet := containerNetSetup_net net c w
  unfold namespaceStartContainer
  split
  · exact ⟨rfl, .inl rfl, .inl rfl⟩
  · cases ns with
    | failBefore => exact ⟨rfl, .inl rfl, .inl rfl⟩
    | failAfter => exact hnet
    | ok pid =>
      simp only
      split
      · exact hnet
      · exact hnet

theorem finishStart_evolves (o : StartOutcome) (schedule : Bool) (c : Container) (w : World) :
    Evolves c (finishStart o schedule c w).1 := by
  have hmove := finishStart_move o schedule c w
  generalize finishStart o schedule c w = r at hmove ⊢
  cases hmove with
  | unpublished => exact stopContainerProcess_evolves o.stop 0 c _
  | undone => exact stopContainerProcess_evolves o.stop 0 c _
  | done => exact .refl c

/-- Up to the assignment of the new process. -/
theorem startedRecord_evolves {o : StartOutcome} {capture : Bool} {c : Container} {w : World}
    {r : Container × World × Option Pid}
    (hns : namespaceStartContainer o.ns o.net (c.cleared capture) w = r) : Evolves c r.1 := by
  have hlog : Evolves c (if capture then ensureContainerLogPath c else c) := by
    split
    · exact ensureContainerLogPath_evolves c
    · exact .refl c
  obtain ⟨hsame, hpid, hstate, -⟩ :=
    namespaceStartContainer_spec o.ns o.net (c.cleared capture) w
  obtain ⟨hlogPath, hip, hveth⟩ :=
    namespaceStartContainer_net o.ns o.net (c.cleared capture) w
  rw [hns] at hsame hpid hstate hlogPath hip hveth
  refine hlog.trans ⟨Same.trans (by constructor <;> rfl) hsame, fun h => ?_, .inl hlogPath,
    .inr hip, .inr hveth⟩
  rw [PidOk, hpid, hstate]
  exact h

theorem startContainer_evolves (o : StartOutcome) (schedule capture : Bool) (c : Container)
    (w : World) : Evolves c (startContainer o schedule capture c w).1 := by
  have hmove := startContainer_move o schedule capture c w
  generalize startContainer o schedule capture c w = r at hmove ⊢
  cases hmove with
  | refused => exact .refl c
  | noProcess _ _ hns => exact startedRecord_evolves hns
  | @finish r pid _ _ hns =>
    have hlaunched : Evolves r.1 (r.1.launched o pid) :=
      ⟨r.1.launched_same o pid, fun _ => r.1.launched_pidOk o pid, .inl rfl, .inl rfl, .inl rfl⟩
    exact ((startedRecord_evolves hns).trans hlaunched).trans
      (finishStart_evolves o schedule (r.1.launched o pid) r.2.1)

/-! ## What any operation does to the list -/

/-- A property that every record keeps whatever is done to it. -/
def Lasting (P : Container → Prop) : Prop := ∀ c c', Evolves c c' → P c → P c'

/-- The property holds of every record `container_create` can make of `spec`. -/
def OfNew (P : Container → Prop) (spec : ContainerSpec) : Prop :=
  ∀ (o : CreateOutcome) (ptr seq : Nat) (rootfs : Bytes), rootfs.length < rootfsLen →
    P { (newContainer o spec ptr seq).1 with rootfs }

section
variable {P : Container → Prop}

theorem Lasting.pollStates (hP : Lasting P) (o : PollOutcome) {m : Manager}
    (h : ∀ c ∈ m.list, P c) : ∀ c ∈ (Runtime.pollStates o m).list, P c := by
  have hlist : ∀ (l : List Container) (w : World), (∀ c ∈ l, P c) →
      ∀ c ∈ (pollList o.sync l w).1, P c := by
    intro l
    induction l with
    | nil => exact fun _ _ _ hc => absurd hc List.not_mem_nil
    | cons d l ih =>
      intro w hl c hc
      rcases List.mem_cons.mp hc with rfl | hc
      · exact hP d _ (pollRecord_evolves (o.sync d.ptr) d w) (hl d List.mem_cons_self)
      · exact ih _ (fun c hc => hl c (List.mem_cons_of_mem _ hc)) c hc
  exact hlist m.list m.world h

theorem Lasting.setContainer (hP : Lasting P) {l : List Container} {c c' : Container}
    (hc : c ∈ l) (hc' : Evolves c c') (h : ∀ c ∈ l, P c) : ∀ d ∈ setContainer l c', P d := by
  intro d hd
  rcases mem_setContainer.mp hd with ⟨-, -, -, rfl⟩ | ⟨hd, -⟩
  · exact hP c d hc' (h c hc)
  · exact h d hd

theorem Lasting.withContainer (hP : Lasting P) (poll : PollOutcome) (id : Bytes)
    {f : Container → World → Container × World × Int} (hf : ∀ c w, Evolves c (f c w).1)
    {m : Manager} (h : ∀ c ∈ m.list, P c) :
    ∀ c ∈ (Runtime.withContainer poll id f m).1.list, P c := by
  intro c' hc'
  have hpolled := hP.pollStates poll h
  rcases mem_withContainer poll id hc' with hc' | hc' | ⟨c, hfind, rfl⟩
  · exact h c' hc'
  · exact hpolled c' hc'
  · exact hP c _ (hf c _) (hpolled c (mem_of_findContainer hfind).1)

/-- The list after `container_create`: the new record's rootfs has passed
`filesystem_prepare_rootfs`. -/
theorem containerCreate_list (o : CreateOutcome) (spec : ContainerSpec) (m : Manager) :
    (containerCreate o spec m).1.list = m.list ∨
    ∃ rootfs : Bytes, rootfs.length < rootfsLen ∧ (containerCreate o spec m).1.list =
      m.list ++ [{ (newContainer o spec m.heap m.nextSequence).1 with rootfs }] := by
  unfold containerCreate
  split
  · exact .inl rfl
  · simp only
    cases hprep : filesystemPrepareRootfs o (newContainer o spec m.heap m.nextSequence).2 with
    | none => exact .inl rfl
    | some rootfs =>
      have hlen : rootfs.length < rootfsLen := by
        have := (Option.filter_eq_some_iff.mp hprep).2
        simpa using this
      simp only
      split
      · exact .inl rfl
      · exact .inr ⟨rootfs, hlen, rfl⟩

theorem all_containerCreate {o : CreateOutcome} {spec : ContainerSpec} {m : Manager}
    (hnew : OfNew P spec) (h : ∀ c ∈ m.list, P c) : ∀ c ∈ (containerCreate o spec m).1.list, P c := by
  intro c hc
  rcases containerCreate_list o spec m with heq | ⟨rootfs, hlen, heq⟩
  · exact h c (heq ▸ hc)
  · rw [heq] at hc
    rcases List.mem_append.mp hc with hc | hc
    · exact h c hc
    · rw [List.mem_singleton.mp hc]
      exact hnew o m.heap m.nextSequence rootfs hlen

theorem Lasting.containerRun (hP : Lasting P) {o : RunOutcome} {spec : ContainerSpec}
    {m : Manager} (hnew : OfNew P spec) (h : ∀ c ∈ m.list, P c) :
    ∀ c ∈ (Runtime.containerRun o spec m).1.list, P c := by
  have hcreate := all_containerCreate (o := o.create) hnew h
  unfold Runtime.containerRun
  cases hr : containerCreate o.create spec m with
  | mk m₁ id =>
    rw [hr] at hcreate
    cases id with
    | none => exact hcreate
    | some id =>
      have hstart : ∀ c ∈ (startContainerById o.poll o.start id false false m₁).1.list, P c :=
        hP.withContainer o.poll id (startContainer_evolves o.start false false) hcreate
      simp only
      generalize startContainerById o.poll o.start id false false m₁ = r at hstart ⊢
      split
      · exact hstart
      · cases hfind : findContainer r.1.list id with
        | none => exact hstart
        | some c =>
          exact hP.setContainer (mem_of_findContainer hfind).1
            (waitForContainerProcess_evolves o.wait c r.1.world) hstart

theorem Lasting.containerRunBackground (hP : Lasting P) {o : RunOutcome} {spec : ContainerSpec}
    {m : Manager} (hnew : OfNew P spec) (h : ∀ c ∈ m.list, P c) :
    ∀ c ∈ (Runtime.containerRunBackground o spec m).1.list, P c := by
  have hcreate := all_containerCreate (o := o.create) hnew h
  unfold Runtime.containerRunBackground
  cases hr : containerCreate o.create spec m with
  | mk m₁ id =>
    rw [hr] at hcreate
    cases id with
    | none => exact hcreate
    | some id =>
      have hlog : ∀ c ∈ (recordLogPath o.saveLogPath id m₁).list, P c := by
        unfold recordLogPath
        cases hfind : findContainer m₁.list id with
        | none => exact hcreate
        | some c =>
          exact hP.setContainer (mem_of_findContainer hfind).1 (ensureContainerLogPath_evolves c)
            hcreate
      have hstart : ∀ c ∈ (startContainerById o.poll o.start id true true
          (recordLogPath o.saveLogPath id m₁)).1.list, P c :=
        hP.withContainer o.poll id (startContainer_evolves o.start true true) hlog
      simp only
      generalize startContainerById o.poll o.start id true true
        (recordLogPath o.saveLogPath id m₁) = r at hstart ⊢
      split
      · exact hstart
      · exact hstart

theorem Lasting.containerDelete (hP : Lasting P) (poll : PollOutcome) (save : Bool) (id : Bytes)
    {m : Manager} (h : ∀ c ∈ m.list, P c) :
    ∀ c ∈ (Runtime.containerDelete poll save id m).1.list, P c := by
  have hpolled := hP.pollStates poll h
  unfold Runtime.containerDelete
  split
  · exact h
  · simp only
    cases hfind : findContainer (Runtime.pollStates poll m).list id with
    | none => exact hpolled
    | some c =>
      have hc := hpolled c (mem_of_findContainer hfind).1
      have hrest : ∀ ptr, ∀ d ∈ removeContainer (Runtime.pollStates poll m).list ptr, P d :=
        fun ptr d hd => hpolled d ((removeContainer_sublist _ ptr).subset hd)
      have hclean : P (cleanupContainerNetwork c (Runtime.pollStates poll m).world).1 := by
        obtain ⟨hsame, hpid, hstate, -⟩ :=
          cleanupContainerNetwork_spec c (Runtime.pollStates poll m).world
        obtain ⟨hlog, hip, hveth⟩ :=
          cleanupContainerNetwork_net c (Runtime.pollStates poll m).world
        refine hP c _ ⟨hsame, fun hok => ?_, .inl hlog, hip.imp_right .inl, hveth.imp_right .inl⟩ hc
        rw [PidOk, hstate, hpid]
        exact hok
      simp only
      split
      · exact hpolled
      split
      · intro d hd
        rcases List.mem_append.mp hd with hd | hd
        · exact hrest _ d hd
        · rw [List.mem_singleton.mp hd]
          exact hclean
      · exact hrest _

/-- A property that records keep and new ones have is kept by every operation. -/
theorem Lasting.userStep (hP : Lasting P) {m m' : Manager} {op : UserOp}
    (hnew : ∀ spec, op.creates = some spec → OfNew P spec) (hs : Runtime.userStep op m = some m')
    (h : ∀ c ∈ m.list, P c) : ∀ c ∈ m'.list, P c := by
  cases op with
  | prune poll save =>
    cases hs
    exact fun c hc => hP.pollStates poll h c (mem_containerPruneAll hc)
  | life a =>
    cases a with
    | create o spec => cases hs; exact all_containerCreate (hnew spec rfl) h
    | start poll o id =>
      cases hs; exact hP.withContainer poll id (startContainer_evolves o true true) h
    | run o spec => cases hs; exact hP.containerRun (hnew spec rfl) h
    | runBackground o spec => cases hs; exact hP.containerRunBackground (hnew spec rfl) h
    | stop poll o id timeoutS =>
      cases hs; exact hP.withContainer poll id (stopContainerProcess_evolves o timeoutS) h
    | pause poll kill save id =>
      cases hs; exact hP.withContainer poll id (pauseContainer_evolves kill save) h
    | unpause poll kill save id =>
      cases hs; exact hP.withContainer poll id (unpauseContainer_evolves kill save) h
    | delete poll save id => cases hs; exact hP.containerDelete poll save id h
    | poll o => cases hs; exact hP.pollStates o h

end

/-! ## The records a manager can hold -/

/-- What the callers of the manager pass as port maps. -/
def ParsedPorts (spec : ContainerSpec) : Prop := ∀ pm ∈ spec.portMaps, pm.Valid

/-- The shape of every record, whatever its strings hold. -/
structure Formed (c : Container) : Prop where
  id : ∃ k, c.id = containerId k
  name : c.name.length < nameLen
  hostname : c.hostname.length < hostnameLen
  rootfs : c.rootfs.length < rootfsLen
  commandLine : c.commandLine.length < commandLen
  imageRef : c.imageRef.length < imageRefLen
  portCount : c.portMaps.length ≤ maxPortMaps
  portMaps : ∀ pm ∈ c.portMaps, pm.Valid
  pidOk : PidOk c
  logPath : c.logPath = [] ∨ c.logPath = logPathOf c.id
  ipAddress : c.ipAddress = [] ∨ Leased c.ipAddress
  vethHost : c.vethHost = [] ∨ c.vethHost = hostVeth c.id

theorem formed_lasting : Lasting Formed := by
  intro c c' he h
  have hs := he.same
  refine
    { id := hs.id ▸ h.id, name := hs.name ▸ h.name, hostname := hs.hostname ▸ h.hostname
      rootfs := hs.rootfs ▸ h.rootfs, commandLine := hs.commandLine ▸ h.commandLine
      imageRef := hs.imageRef ▸ h.imageRef, portCount := hs.portMaps ▸ h.portCount
      portMaps := hs.portMaps ▸ h.portMaps, pidOk := he.pidOk h.pidOk
      logPath := ?_, ipAddress := ?_, vethHost := ?_ }
  · rw [hs.id]
    rcases he.logPath with heq | heq
    · rw [heq]
      exact h.logPath
    · exact .inr heq
  · rcases he.ipAddress with heq | hnew
    · rw [heq]
      exact h.ipAddress
    · exact hnew
  · rw [hs.id]
    rcases he.vethHost with heq | hnew
    · rw [heq]
      exact h.vethHost
    · exact hnew

theorem copyString_length_lt {size : Nat} (hpos : 0 < size) (s : Bytes) :
    (copyString size s).length < size :=
  Nat.lt_of_le_of_lt (snprintfStr_length_le size s) (by omega)

theorem formed_new {spec : ContainerSpec} (hports : ParsedPorts spec) : OfNew Formed spec := by
  intro o ptr seq rootfs hrootfs
  have himage : (newContainer o spec ptr seq).1.imageRef.length < imageRefLen := by
    have hnone : ([] : Bytes).length < imageRefLen := by decide
    simp only [newContainer]
    split
    · exact hnone
    · exact hnone
    · split
      · exact copyString_length_lt (by decide) _
      · exact hnone
  exact
    { id := ⟨seq, rfl⟩
      name := copyString_length_lt (by decide) _
      hostname := copyString_length_lt (by decide) _
      rootfs := hrootfs
      commandLine := copyString_length_lt (by decide) _
      imageRef := himage
      portCount := List.length_take_le _ _
      portMaps := fun pm hpm => hports pm (List.mem_of_mem_take hpm)
      pidOk := pidOk_created rfl rfl
      logPath := .inl rfl, ipAddress := .inl rfl, vethHost := .inl rfl }

/-! ## What the manager writes itself -/

theorem containerId_length_lt {k : Nat} (h : k < 2 ^ 31) : (containerId k).length < idLen := by
  have hpad := fmtPadded_length_le 4 (k := 10) (n := k) (by omega) (by omega)
  have hpre : (bytes "container-").length = 10 := by decide
  have hmax : max 4 10 = 10 := by omega
  rw [containerId, List.length_append, hpre]
  show _ < 64
  omega

theorem plain_containerId (k : Nat) : Plain (containerId k) :=
  Plain.append (by decide) (plain_of_isDigit (fmtPadded_isDigit 4 k))

theorem plain_logPathOf {id : Bytes} (h : Plain id) : Plain (logPathOf id) := by
  refine Plain.snprintfStr ?_ logPathLen
  exact (Plain.append (by decide) h).append (by decide)

theorem plain_hostVeth {id : Bytes} (h : Plain id) : Plain (hostVeth id) := by
  refine Plain.snprintfStr (Plain.append (by decide) ?_) 16
  intro c hc
  have hrev := (List.takeWhile_prefix _).subset (List.mem_reverse.mp hc)
  exact h c (List.mem_reverse.mp hrev)

theorem Leased.plain {ip : Bytes} (h : Leased ip) : Plain ip := by
  obtain ⟨n, rfl⟩ := h
  exact Plain.snprintfStr (Plain.append (by decide) (plain_fmtInt n)) 16

theorem plain_nil : Plain [] := fun _ hc => absurd hc List.not_mem_nil

theorem Formed.sized {c : Container} (h : Formed c) (hid : c.id.length < idLen) : Sized c := by
  have hcut : ∀ {s t : Bytes} {size : Nat}, 0 < size → s = [] ∨ s = snprintfStr size t →
      s.length < size := by
    rintro s t size hpos (rfl | rfl)
    · exact hpos
    · exact copyString_length_lt hpos t
  have hip : c.ipAddress.length < 16 := by
    rcases h.ipAddress with heq | ⟨n, heq⟩
    · exact hcut (t := []) (by omega) (.inl heq)
    · exact hcut (by omega) (.inr heq)
  exact
    { id := hid, name := h.name, hostname := h.hostname, rootfs := h.rootfs
      commandLine := h.commandLine, logPath := hcut (by decide) h.logPath
      imageRef := h.imageRef, ipAddress := hip, vethHost := hcut (by omega) h.vethHost
      portCount := h.portCount, portMaps := h.portMaps }

/-- What a record must satisfy for the text format: the strings that users
choose hold no separator, and the line has room. -/
structure Fits (c : Container) : Prop where
  name : Plain c.name
  hostname : Plain c.hostname
  rootfs : Plain c.rootfs
  commandLine : Plain c.commandLine
  imageRef : Plain c.imageRef
  room : lineLength c ≤ 1023

instance (c : Container) : Decidable (Fits c) :=
  decidable_of_iff (Plain c.name ∧ Plain c.hostname ∧ Plain c.rootfs ∧ Plain c.commandLine ∧
      Plain c.imageRef ∧ lineLength c ≤ 1023)
    ⟨fun ⟨h1, h2, h3, h4, h5, h6⟩ => ⟨h1, h2, h3, h4, h5, h6⟩,
      fun ⟨h1, h2, h3, h4, h5, h6⟩ => ⟨h1, h2, h3, h4, h5, h6⟩⟩

theorem Formed.writable {c : Container} (h : Formed c) (hf : Fits c) : Writable c := by
  have hid : Plain c.id := by
    obtain ⟨k, hk⟩ := h.id
    rw [hk]
    exact plain_containerId k
  have hlog : Plain c.logPath := by
    rcases h.logPath with heq | heq
    · rw [heq]
      exact plain_nil
    · rw [heq]
      exact plain_logPathOf hid
  have hip : Plain c.ipAddress := by
    rcases h.ipAddress with heq | hleased
    · rw [heq]
      exact plain_nil
    · exact hleased.plain
  have hveth : Plain c.vethHost := by
    rcases h.vethHost with heq | heq
    · rw [heq]
      exact plain_nil
    · rw [heq]
      exact plain_hostVeth hid
  exact
    { id := hid, name := hf.name, hostname := hf.hostname, rootfs := hf.rootfs
      commandLine := hf.commandLine, logPath := hlog, imageRef := hf.imageRef
      ipAddress := hip, vethHost := hveth, room := hf.room }

/-! ## Runs over several lifetimes of the manager -/

/-- An operation of the user, or an end of the manager and a new start from the
file it saved last. -/
inductive SessionOp where
  | op (op : UserOp)
  | restart (o : InitOutcome)

def sessionStep (m : Manager) : SessionOp → Option Manager
  | .op op => userStep op m
  | .restart o => some (containerManagerInit o (some (saveMetadata m.list))).1

/-- The counter behind the ids is an `int`. -/
def CounterOk (m : Manager) : Prop := m.nextSequence ≤ 2 ^ 31

/-- Callers take port maps from the parser; a restart finds records that fit. -/
def SessionOk (m : Manager) : SessionOp → Prop
  | .op op => ∀ spec, op.creates = some spec →
      ∀ pm ∈ spec.portMaps, ∃ str maxMaps, pm ∈ bridgeParsePortMaps str maxMaps
  | .restart o => CounterOk m ∧ (∀ c ∈ m.list, Fits c) ∧ ∀ k, o.calloc k = true

/-- The invariant over all lifetimes. -/
structure Session (m : Manager) : Prop extends Wf m where
  formed : ∀ c ∈ m.list, Formed c

theorem session_init : Session Manager.init :=
  ⟨wf_init, fun _ hc => absurd hc List.not_mem_nil⟩

theorem Session.sized {m : Manager} (h : Session m) (hint : CounterOk m) :
    ∀ c ∈ m.list, Sized c := by
  intro c hc
  have hf := h.formed c hc
  obtain ⟨k, hk⟩ := hf.id
  -- an id in use is below the counter
  have hlt : k < m.nextSequence := by
    by_contra hge
    exact h.fresh c hc k (Nat.le_of_not_lt hge) hk
  exact hf.sized (hk ▸ containerId_length_lt (Nat.lt_of_lt_of_le hlt hint))

theorem Formed.revive {alive : Int → Bool} {ptr : Nat} {c : Container} (h : Formed c) :
    Formed (Runtime.revive alive ptr c) := by
  unfold Runtime.revive
  split
  · exact
      { id := h.id, name := h.name, hostname := h.hostname, rootfs := h.rootfs
        commandLine := h.commandLine, imageRef := h.imageRef, portCount := h.portCount
        portMaps := h.portMaps, pidOk := pidOk_stopped rfl rfl, logPath := h.logPath
        ipAddress := h.ipAddress, vethHost := h.vethHost }
  · exact
      { id := h.id, name := h.name, hostname := h.hostname, rootfs := h.rootfs
        commandLine := h.commandLine, imageRef := h.imageRef, portCount := h.portCount
        portMaps := h.portMaps, pidOk := h.pidOk, logPath := h.logPath
        ipAddress := h.ipAddress, vethHost := h.vethHost }

theorem revive_ident (alive : Int → Bool) (ptr : Nat) (c : Container) :
    (revive alive ptr c).ptr = ptr ∧ (revive alive ptr c).id = c.id := by
  unfold revive
  split
  · exact ⟨rfl, rfl⟩
  · exact ⟨rfl, rfl⟩

theorem Session.restart {m : Manager} {o : InitOutcome} (h : Session m) (hint : CounterOk m)
    (hfits : ∀ c ∈ m.list, Fits c) (hcalloc : ∀ k, o.calloc k = true) :
    Session (containerManagerInit o (some (saveMetadata m.list))).1 := by
  obtain ⟨m₁, hinit, hlist, hheap, hseq, -⟩ := restore_saveMetadata (o := o) (h.sized hint)
    (fun c hc => (h.formed c hc).writable (hfits c hc)) hcalloc
  have hmem : ∀ d ∈ m₁.list, ∃ c k, m.list[k]? = some c ∧ d = revive o.alive k c := by
    intro d hd
    rw [hlist] at hd
    obtain ⟨⟨c, k⟩, hck, rfl⟩ := List.mem_map.mp hd
    exact ⟨c, k, List.mem_zipIdx_iff_getElem?.mp hck, rfl⟩
  -- the records are numbered afresh in the order of the file
  have hptrs : m₁.list.map Container.ptr = List.range m.list.length := by
    rw [hlist, List.map_map]
    calc m.list.zipIdx.map (Container.ptr ∘ fun p => revive o.alive p.2 p.1)
        = m.list.zipIdx.map Prod.snd :=
          List.map_congr_left fun p _ => (revive_ident o.alive p.2 p.1).1
      _ = List.range m.list.length := by rw [List.zipIdx_map_snd, List.range_eq_range']
  have hwf : Wf m₁ := by
    refine ⟨?_, ?_, ?_⟩
    · rw [PtrNodup, hptrs]
      exact List.nodup_range
    · intro d hd
      -- ids in use are below the next number
      have hptr : d.ptr ∈ m₁.list.map Container.ptr := List.mem_map_of_mem hd
      rw [hptrs, List.mem_range] at hptr
      rwa [hheap]
    · intro d hd k hk
      obtain ⟨c, j, hc, rfl⟩ := hmem d hd
      rw [(revive_ident o.alive j c).2]
      exact (foldl_updateNextSequence m.list 1).2 c (List.mem_of_getElem? hc) k (hseq ▸ hk)
  have hformed : ∀ d ∈ m₁.list, Formed d := by
    intro d hd
    obtain ⟨c, j, hc, rfl⟩ := hmem d hd
    exact (h.formed c (List.mem_of_getElem? hc)).revive
  rw [hinit]
  exact ⟨hwf.quiet (pollStates_quiet o.poll m₁), formed_lasting.pollStates o.poll hformed⟩

theorem Session.step {m m' : Manager} {a : SessionOp} (h : Session m) (hok : SessionOk m a)
    (hs : sessionStep m a = some m') : Session m' := by
  cases a with
  | op op =>
    refine ⟨h.toWf.userStep hs, formed_lasting.userStep (fun spec hspec => ?_) hs h.formed⟩
    refine formed_new fun pm hpm => ?_
    obtain ⟨str, maxMaps, hparsed⟩ := hok spec hspec pm hpm
    exact bridgeParsePortMaps_valid hparsed
  | restart o =>
    obtain ⟨hint, hfits, hcalloc⟩ := hok
    cases hs
    exact h.restart hint hfits hcalloc

/-- **Metadata survives a restart** when no string that a user chose holds a tab
or an end of line and every line fits the buffer. -/
theorem metadata_survives_restart {m : Manager} {as : List SessionOp} {o : InitOutcome}
    (hrun : RunOk sessionStep SessionOk .init as m) (hint : CounterOk m)
    (hfits : ∀ c ∈ m.list, Fits c) (halive : StillAlive o m.list) :
    (containerManagerInit o (some (saveMetadata m.list))).2 = 0 ∧
    (containerManagerInit o (some (saveMetadata m.list))).1.list.map persisted =
      m.list.map persisted := by
  have hsession : Session m := hrun.invariant (fun _ _ _ h hok hs => h.step hok hs) session_init
  refine containerManagerInit_saveMetadata (hsession.sized hint) (fun c hc => ?_) (fun c hc => ?_)
    halive
  · exact (hsession.formed c hc).writable (hfits c hc)
  · exact (hsession.formed c hc).pidOk

instance (m : Manager) : Decidable (CounterOk m) := by unfold CounterOk; infer_instance

/-- Memory does not run out, no process has ended. -/
def InitOutcome.quiet : InitOutcome :=
  { calloc := fun _ => true, alive := fun _ => true, poll := .quiet }

theorem stillAlive_quiet (l : List Container) : StillAlive .quiet l :=
  ⟨fun _ => rfl, fun _ _ _ => rfl, fun _ _ _ _ => ⟨nofun, rfl⟩⟩

/-- A background container with ports, paused, and one that is only created. -/
def persistSession : List SessionOp :=
  [.op (.life (.runBackground (.clean (.ofNat 100))
      { ContainerSpec.zero with
        name := some (bytes "persist1"), commandLine := some (bytes "/bin/sleep 9999")
        portMaps := bridgeParsePortMaps (bytes "8080:80,53:53/udp") maxPortMaps })),
    .op (.life (.pause .quiet true true (containerId 1))),
    .op (.life (.create .clean .zero))]

theorem metadata_survives_restart_persist1 :
    ∃ m, RunOk sessionStep SessionOk .init persistSession m ∧ m.list.length = 2 ∧
      (containerManagerInit .quiet (some (saveMetadata m.list))).2 = 0 ∧
      (containerManagerInit .quiet (some (saveMetadata m.list))).1.list.map persisted =
        m.list.map persisted := by
  obtain ⟨m, hrun, hlen, hint, hfits⟩ := exists_runOk_of_exec sessionStep (fun _ _ => True) .init
    persistSession
    (fun m => m.list.length = 2 ∧ CounterOk m ∧ ∀ c ∈ m.list, Fits c) (by decide +kernel)
  have hok : ∀ a ∈ persistSession, ∀ m, SessionOk m a := by
    intro a ha m
    simp only [persistSession, List.mem_cons, List.not_mem_nil, or_false] at ha
    rcases ha with rfl | rfl | rfl
    · rintro spec hspec pm hpm
      cases hspec
      exact ⟨_, _, hpm⟩
    · rintro spec hspec
      cases hspec
    · rintro spec hspec pm hpm
      cases hspec
      exact absurd hpm List.not_mem_nil
  have hrun' : RunOk sessionStep SessionOk .init persistSession m :=
    (hrun.of_forall (p := fun a => ∀ m, SessionOk m a) hok).mono fun m _ h => h m
  exact ⟨m, hrun', hlen, metadata_survives_restart hrun' hint hfits (stillAlive_quiet m.list)⟩

/-- A tab in a quoted argument ends the command in the file: `a<TAB>b` comes
back as `a`, and the limits are read from `b`. -/
theorem tab_in_command_lost :
    ∃ m as, RunOk sessionStep SessionOk .init as m ∧ CounterOk m ∧ StillAlive .quiet m.list ∧
      (containerManagerInit .quiet (some (saveMetadata m.list))).1.list.map persisted ≠
        m.list.map persisted := by
  obtain ⟨m, hrun, hint, hlost⟩ := exists_runOk_of_exec sessionStep (fun _ _ => True) .init
    [.op (.life (.create .clean
      { ContainerSpec.zero with commandLine := some (bytes "a\tb") }))]
    (fun m => CounterOk m ∧ (containerManagerInit .quiet
      (some (saveMetadata m.list))).1.list.map persisted ≠ m.list.map persisted) (by decide +kernel)
  refine ⟨m, _, (hrun.of_forall (p := fun a => ∀ m, SessionOk m a) ?_).mono fun m _ h => h m, hint,
    stillAlive_quiet m.list, hlost⟩
  intro a ha m
  rw [List.mem_singleton] at ha
  subst ha
  rintro spec hspec pm hpm
  cases hspec
  exact absurd hpm List.not_mem_nil

end ContainerSim.Runtime
