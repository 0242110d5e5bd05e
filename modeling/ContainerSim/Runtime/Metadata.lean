import ContainerSim.Runtime.PortMaps
import ContainerSim.Runtime.Signals

/-!
# The metadata file

`save_metadata` writes a line of 22 tab-separated fields for each record;
`container_manager_init` reads the lines back. Nothing is quoted, so a record
comes back as it was only if its strings hold no separator (`Plain`) and its
line fits the buffer of 1024 bytes.
-/

namespace ContainerSim.Runtime

open Lib Sched

/-! ## Writing -/

def stateToString : ContainerState → Bytes
  | .created => bytes "CREATED"
  | .running => bytes "RUNNING"
  | .paused => bytes "PAUSED"
  | .stopped => bytes "STOPPED"

/-- `%PRIx64`. -/
def fmtHex (n : UInt64) : Bytes := fmtBase 16 n.toNat

def metadataFields (c : Container) : List Bytes :=
  [c.id, c.name, fmtInt c.pid, c.hostname, c.rootfs, stateToString c.state, c.commandLine,
    fmtNat c.resourceLimits.cpuSeconds.toNat, fmtNat c.resourceLimits.memoryMb.toNat,
    fmtNat c.resourceLimits.maxProcesses.toNat, fmtInt c.startedAt, fmtInt c.stoppedAt,
    fmtInt c.exitCode, c.logPath, c.imageRef, c.ipAddress, c.vethHost,
    bridgeSerializePortMaps c.portMaps 128, fmtInt c.security.privileged,
    fmtInt c.security.seccompEnabled, fmtInt c.security.readonlyRootfs, fmtHex c.security.capKeep]

def metadataLine (c : Container) : Bytes := [9].intercalate (metadataFields c)

/-- What `save_metadata` leaves in the file. -/
def saveMetadata (list : List Container) : Bytes := list.flatMap fun c => metadataLine c ++ [10]

/-! ## Reading -/

def stringToState (value : Bytes) : ContainerState :=
  if value = bytes "RUNNING" then .running
  else if value = bytes "PAUSED" then .paused
  else if value = bytes "STOPPED" then .stopped
  else .created

/-- The record `container_manager_init` builds from the fields of a line. -/
def restoreRecord (alive : Int → Bool) (ptr : Nat) (fields : List Bytes) : Container :=
  let index := fields.length
  let field (k : Nat) : Bytes := (fields[k]?).getD []
  let state := stringToState (field 5)
  let pid := atoi (field 2)
  let dead := state = .running ∧ !(0 < pid && alive pid)
  { ptr
    id := copyString idLen (field 0)
    name := copyString nameLen (field 1)
    pid := if dead then -1 else pid
    hostname := copyString hostnameLen (field 3)
    rootfs := copyString rootfsLen (field 4)
    commandLine := copyString commandLen (if index ≥ 7 then field 6 else bytes "/bin/sh")
    logPath := if index ≥ 14 then copyString logPathLen (field 13) else []
    imageRef := copyString imageRefLen (if index ≥ 15 then field 14 else [])
    resourceLimits :=
      if index ≥ 10 then
        { cpuSeconds := UInt32.ofNat (strtoul (field 7))
          memoryMb := UInt32.ofNat (strtoul (field 8))
          maxProcesses := UInt32.ofNat (strtoul (field 9)) }
      else ⟨0, 0, 0⟩
    ipAddress := copyString 16 (if index ≥ 16 then field 15 else [])
    vethHost := copyString 16 (if index ≥ 17 then field 16 else [])
    portMaps :=
      if index ≥ 18 ∧ field 17 ≠ [] then bridgeParsePortMaps (field 17) maxPortMaps else []
    security :=
      if index ≥ 22 then
        { privileged := atoi (field 18), seccompEnabled := atoi (field 19)
          readonlyRootfs := atoi (field 20), capKeep := UInt64.ofNat (strtoullHex (field 21)) }
      else securityConfigDefault
    state := if dead then .stopped else state
    startedAt := if index ≥ 14 then atoi (field 10) else 0
    stoppedAt := if index ≥ 14 then atoi (field 11) else 0
    exitCode := if index ≥ 14 then atoi (field 12) else -1
    oomKillCount := 0 }

/-- `bridge_mark_ip_used`. -/
def bridgeMarkIpUsed (ip : Bytes) (next : Int) : Int :=
  let p := bytes "172.17.0."
  if p.isPrefixOf ip then
    match scanInt (ip.drop p.length) with
    | some (last, _) => if last ≥ next then last + 1 else next
    | none => next
  else next

/-- Answers for one `container_manager_init`. -/
structure InitOutcome where
  /-- `calloc`, by the number of records made before -/
  calloc : Nat → Bool
  /-- `is_pid_alive` -/
  alive : Int → Bool
  poll : PollOutcome

/-- One round of the loop over the file; `none` once `calloc` has failed. -/
def restoreLine (o : InitOutcome) (m : Option Manager) (line : Bytes) : Option Manager :=
  m.bind fun m =>
    let fields := (line.splitOn 9).take 22
    if fields.length < 6 then some m
    else if !o.calloc m.heap then none
    else
      let c := restoreRecord o.alive m.heap fields
      some
        { list := m.list ++ [c]
          nextSequence := updateNextSequence m.nextSequence c.id
          heap := m.heap + 1
          world := { m.world with nextIpHost := bridgeMarkIpUsed c.ipAddress m.world.nextIpHost } }

/-- `container_manager_init` of a fresh process; `none` is a file that cannot
be opened. -/
def containerManagerInit (o : InitOutcome) (file : Option Bytes) : Manager × Int :=
  match file with
  | none => (.init, 0)
  | some text =>
    match (chunks 1024 text).foldl (fun m line => restoreLine o m (trimNewline line))
        (some .init) with
    | none => (.init, -1)
    | some m => (pollStates o.poll m, 0)

/-! ## Fields without separators -/

/-- Neither a tab nor an end of line. -/
def Plain (s : Bytes) : Prop := ∀ c ∈ s, c ≠ 9 ∧ c ≠ 10 ∧ c ≠ 13

instance (s : Bytes) : Decidable (Plain s) := List.decidableBAll _ s

theorem Plain.append {s t : Bytes} (hs : Plain s) (ht : Plain t) : Plain (s ++ t) := by
  intro c hc
  rcases List.mem_append.mp hc with hc | hc
  · exact hs c hc
  · exact ht c hc

theorem Plain.snprintfStr {s : Bytes} (h : Plain s) (size : Nat) : Plain (snprintfStr size s) :=
  fun c hc => h c (List.mem_of_mem_take hc)

theorem plain_of_isDigit {s : Bytes} {b : Nat} (h : ∀ c ∈ s, isDigit b c = true) : Plain s := by
  intro c hc
  have hspace := (isDigit_ne (h c hc)).2.2
  refine ⟨?_, ?_, ?_⟩
  · rintro rfl; cases hspace
  · rintro rfl; cases hspace
  · rintro rfl; cases hspace

theorem plain_fmtNat (n : Nat) : Plain (fmtNat n) :=
  plain_of_isDigit (fmtBase_isDigit (by omega) (by omega) n)

theorem plain_fmtHex (n : UInt64) : Plain (fmtHex n) :=
  plain_of_isDigit (fmtBase_isDigit (by omega) (by omega) n.toNat)

theorem plain_fmtInt (i : Int) : Plain (fmtInt i) := by
  cases i with
  | ofNat n => exact plain_fmtNat n
  | negSucc n => exact Plain.append (s := [45]) (by decide) (plain_fmtNat (n + 1))

theorem plain_stateToString (st : ContainerState) : Plain (stateToString st) := by
  cases st <;> decide

/-! ## Reading back what was written -/

theorem stringToState_stateToString (st : ContainerState) :
    stringToState (stateToString st) = st := by
  cases st <;> decide

theorem strtoullHex_fmtHex (n : UInt64) : strtoullHex (fmtHex n) = n.toNat := by
  have hdigits := fmtBase_isDigit (b := 16) (by omega) (by omega) n.toNat
  have hne := fmtBase_ne_nil 16 n.toNat
  have hscan := scanNat_fmtBase (b := 16) (by omega) (by omega) n.toNat (NoDigit.nil 16)
  rw [List.append_nil] at hscan
  have hlt : n.toNat < 2 ^ 64 := n.toNat_lt
  unfold fmtHex
  generalize fmtBase 16 n.toNat = s at hdigits hne hscan ⊢
  obtain ⟨c, t, rfl⟩ := List.exists_cons_of_ne_nil hne
  obtain ⟨h45, h43, hspace⟩ := isDigit_ne (hdigits c List.mem_cons_self)
  have hdrop : (c :: t).dropWhile isSpace = c :: t := by
    rw [List.dropWhile_cons, hspace]
    rfl
  -- no `0x`: the second character is a digit too
  have hx : ∀ rest, c :: t ≠ 48 :: 120 :: rest ∧ c :: t ≠ 48 :: 88 :: rest := by
    intro rest
    constructor
    · intro h
      have := hdigits 120 (h ▸ by simp)
      cases this
    · intro h
      have := hdigits 88 (h ▸ by simp)
      cases this
  unfold strtoullHex
  simp only [hdrop]
  split
  · rename_i heq
    exact absurd (List.cons.inj heq).1 h45
  · rename_i heq
    exact absurd (List.cons.inj heq).1 h43
  · split
    · rename_i rest heq
      exact absurd heq (hx rest).1
    · rename_i rest heq
      exact absurd heq (hx rest).2
    · rw [hscan, Option.map_some, Option.getD_some]
      omega

/-- The strings of a record fit its arrays, and its port maps are what the parser
lets through. -/
structure Sized (c : Container) : Prop where
  id : c.id.length < idLen
  name : c.name.length < nameLen
  hostname : c.hostname.length < hostnameLen
  rootfs : c.rootfs.length < rootfsLen
  commandLine : c.commandLine.length < commandLen
  logPath : c.logPath.length < logPathLen
  imageRef : c.imageRef.length < imageRefLen
  ipAddress : c.ipAddress.length < 16
  vethHost : c.vethHost.length < 16
  portCount : c.portMaps.length ≤ maxPortMaps
  portMaps : ∀ pm ∈ c.portMaps, pm.Valid

theorem copyString_eq_self {size : Nat} {s : Bytes} (h : s.length < size) : copyString size s = s :=
  snprintfStr_eq_self (Nat.le_sub_one_of_lt h)

theorem strtoul_fmtNat_uint32 (n : UInt32) : UInt32.ofNat (strtoul (fmtNat n.toNat)) = n := by
  have h := n.toNat_lt
  rw [strtoul_fmtNat (by omega), UInt32.ofNat_toNat]

/-- An empty text stands for no port maps. -/
theorem restored_portMaps {maps : List PortMapping} (hlen : maps.length ≤ maxPortMaps)
    (h : ∀ pm ∈ maps, pm.Valid) :
    (if bridgeSerializePortMaps maps 128 ≠ [] then
      bridgeParsePortMaps (bridgeSerializePortMaps maps 128) maxPortMaps else []) = maps := by
  have hread := bridgeParsePortMaps_serialize hlen h
  split
  · exact hread
  · rename_i hnil
    rw [not_not.mp hnil] at hread
    exact hread

/-- The record at address `ptr` that comes back for `c`: a RUNNING one whose
process has ended is STOPPED. -/
def revive (alive : Int → Bool) (ptr : Nat) (c : Container) : Container :=
  if c.state = .running ∧ !(0 < c.pid && alive c.pid) then
    { c with ptr, oomKillCount := 0, state := .stopped, pid := -1 }
  else { c with ptr, oomKillCount := 0 }

theorem restoreRecord_metadataFields (alive : Int → Bool) (ptr : Nat) {c : Container}
    (h : Sized c) : restoreRecord alive ptr (metadataFields c) = revive alive ptr c := by
  have hstate := stringToState_stateToString c.state
  have hports := restored_portMaps h.portCount h.portMaps
  have hcap : UInt64.ofNat (strtoullHex (fmtHex c.security.capKeep)) = c.security.capKeep := by
    rw [strtoullHex_fmtHex, UInt64.ofNat_toNat]
  simp only [restoreRecord, metadataFields, List.length_cons, List.length_nil,
    List.getElem?_cons_zero, List.getElem?_cons_succ, Option.getD_some]
  simp only [hstate, atoi_fmtInt, copyString_eq_self h.id, copyString_eq_self h.name,
    copyString_eq_self h.hostname, copyString_eq_self h.rootfs, copyString_eq_self h.logPath,
    strtoul_fmtNat_uint32, hcap]
  unfold revive
  by_cases hdead : c.state = .running ∧ !(decide (0 < c.pid) && alive c.pid)
  · simp only [if_pos hdead]
    simp [hports, copyString_eq_self h.commandLine, copyString_eq_self h.imageRef,
      copyString_eq_self h.ipAddress, copyString_eq_self h.vethHost]
  · simp only [if_neg hdead]
    simp [hports, copyString_eq_self h.commandLine, copyString_eq_self h.imageRef,
      copyString_eq_self h.ipAddress, copyString_eq_self h.vethHost]

/-! ## Lines that fit -/

/-- How long the line of a record is, without its newline. -/
def lineLength (c : Container) : Nat :=
  c.id.length + c.name.length + (fmtInt c.pid).length + c.hostname.length + c.rootfs.length +
    (stateToString c.state).length + c.commandLine.length +
    (fmtNat c.resourceLimits.cpuSeconds.toNat).length +
    (fmtNat c.resourceLimits.memoryMb.toNat).length +
    (fmtNat c.resourceLimits.maxProcesses.toNat).length + (fmtInt c.startedAt).length +
    (fmtInt c.stoppedAt).length + (fmtInt c.exitCode).length + c.logPath.length +
    c.imageRef.length + c.ipAddress.length + c.vethHost.length +
    (bridgeSerializePortMaps c.portMaps 128).length + (fmtInt c.security.privileged).length +
    (fmtInt c.security.seccompEnabled).length + (fmtInt c.security.readonlyRootfs).length +
    (fmtHex c.security.capKeep).length + 21

theorem metadataLine_length (c : Container) : (metadataLine c).length = lineLength c := by
  have h := length_intercalate 9 (metadataFields c) (List.cons_ne_nil _ _)
  rw [← metadataLine] at h
  simp only [metadataFields, List.map_cons, List.map_nil, List.sum_cons, List.sum_nil] at h
  unfold lineLength
  omega

/-- No string of the record holds a separator, and the line goes into the 1023
characters that `fgets` reads at once. -/
structure Writable (c : Container) : Prop where
  id : Plain c.id
  name : Plain c.name
  hostname : Plain c.hostname
  rootfs : Plain c.rootfs
  commandLine : Plain c.commandLine
  logPath : Plain c.logPath
  imageRef : Plain c.imageRef
  ipAddress : Plain c.ipAddress
  vethHost : Plain c.vethHost
  room : lineLength c ≤ 1023

theorem plain_portMapText {pm : PortMapping} (h : pm.Valid) : Plain (portMapText pm) := by
  have hproto : Plain pm.proto := by
    intro c hc
    have hspace := (h.word c hc).1
    refine ⟨?_, ?_, ?_⟩
    · rintro rfl; cases hspace
    · rintro rfl; cases hspace
    · rintro rfl; cases hspace
  have hsep : Plain (bytes ":") ∧ Plain (bytes "/") := by decide
  exact ((((plain_fmtNat _).append hsep.1).append (plain_fmtNat _)).append hsep.2).append hproto

theorem Plain.intercalate {x : UInt8} {ls : List Bytes} (hx : Plain [x]) (h : ∀ l ∈ ls, Plain l) :
    Plain ([x].intercalate ls) := by
  induction ls with
  | nil => exact fun _ hc => absurd hc List.not_mem_nil
  | cons l ls ih =>
    have hl := h l List.mem_cons_self
    have ih' := ih fun l hl => h l (List.mem_cons_of_mem _ hl)
    cases ls with
    | nil => rwa [List.intercalate_singleton]
    | cons l' ls =>
      rw [List.intercalate_cons_cons]
      exact (hl.append hx).append ih'

theorem plain_bridgeSerializePortMaps {maps : List PortMapping} (h : ∀ pm ∈ maps, pm.Valid) :
    Plain (bridgeSerializePortMaps maps 128) := by
  refine Plain.snprintfStr (Plain.intercalate (x := 44) (by decide) ?_) 128
  intro l hl
  obtain ⟨pm, hpm, rfl⟩ := List.mem_map.mp hl
  exact plain_portMapText (h pm hpm)

theorem plain_metadataFields {c : Container} (hs : Sized c) (hw : Writable c) :
    ∀ f ∈ metadataFields c, Plain f := by
  have hports := plain_bridgeSerializePortMaps hs.portMaps
  intro f hf
  simp only [metadataFields, List.mem_cons, List.not_mem_nil, or_false] at hf
  rcases hf with rfl | rfl | rfl | rfl | rfl | rfl | rfl | rfl | rfl | rfl | rfl | rfl | rfl | rfl |
    rfl | rfl | rfl | rfl | rfl | rfl | rfl | rfl
  · exact hw.id
  · exact hw.name
  · exact plain_fmtInt _
  · exact hw.hostname
  · exact hw.rootfs
  · exact plain_stateToString _
  · exact hw.commandLine
  · exact plain_fmtNat _
  · exact plain_fmtNat _
  · exact plain_fmtNat _
  · exact plain_fmtInt _
  · exact plain_fmtInt _
  · exact plain_fmtInt _
  · exact hw.logPath
  · exact hw.imageRef
  · exact hw.ipAddress
  · exact hw.vethHost
  · exact hports
  · exact plain_fmtInt _
  · exact plain_fmtInt _
  · exact plain_fmtInt _
  · exact plain_fmtHex _

/-- The line is one line, and its fields are found between the tabs. -/
theorem metadataLine_spec {c : Container} (hs : Sized c) (hw : Writable c) :
    ((metadataLine c).length < 1024 ∧ (10 : UInt8) ∉ metadataLine c ∧
      (13 : UInt8) ∉ metadataLine c) ∧
    ((metadataLine c).splitOn 9).take 22 = metadataFields c := by
  have hplain := plain_metadataFields hs hw
  have hends : ∀ x ∈ metadataLine c, x ≠ 10 ∧ x ≠ 13 := by
    intro x hx
    rcases mem_intercalate hx with rfl | ⟨f, hf, hxf⟩
    · decide
    · exact (hplain f hf x hxf).2
  have hroom := hw.room
  refine ⟨⟨?_, fun h => (hends 10 h).1 rfl, fun h => (hends 13 h).2 rfl⟩, ?_⟩
  · rw [metadataLine_length]
    omega
  · rw [metadataLine, List.splitOn_intercalate 9 (fun f hf h => (hplain f hf 9 h).1 rfl)
      (List.cons_ne_nil _ _)]
    exact List.take_of_length_le (Nat.le_refl _)

/-! ## The file -/

/-- The fields of a record that are in the file. -/
def persisted (c : Container) : Container := { c with ptr := 0, oomKillCount := 0 }

/-- The line of `c` adds the record, and the id counter passes its id. -/
theorem restoreLine_metadataLine {o : InitOutcome} {m : Manager} {c : Container}
    (hs : Sized c) (hw : Writable c) (hcalloc : o.calloc m.heap = true) :
    ∃ m', restoreLine o (some m) (metadataLine c) = some m' ∧
      m'.list = m.list ++ [revive o.alive m.heap c] ∧ m'.heap = m.heap + 1 ∧
      m'.nextSequence = updateNextSequence m.nextSequence c.id ∧
      m'.world.trace = m.world.trace := by
  obtain ⟨-, hfields⟩ := metadataLine_spec hs hw
  have hrecord := restoreRecord_metadataFields o.alive m.heap hs
  have hid : (revive o.alive m.heap c).id = c.id := by
    unfold revive
    split
    · rfl
    · rfl
  unfold restoreLine
  rw [Option.bind_some, hfields]
  simp only [hcalloc, hrecord, hid]
  exact ⟨_, rfl, rfl, rfl, rfl, rfl⟩

/-- The loop over the lines appends the records in their order. -/
theorem foldl_restoreLine {o : InitOutcome} {l : List Container} (hs : ∀ c ∈ l, Sized c)
    (hw : ∀ c ∈ l, Writable c) (hcalloc : ∀ k, o.calloc k = true) (m : Manager) :
    ∃ m', (l.map metadataLine).foldl (restoreLine o) (some m) = some m' ∧
      m'.list = m.list ++ (l.zipIdx m.heap).map (fun p => revive o.alive p.2 p.1) ∧
      m'.heap = m.heap + l.length ∧
      m'.nextSequence = l.foldl (fun next c => updateNextSequence next c.id) m.nextSequence ∧
      m'.world.trace = m.world.trace := by
  induction l generalizing m with
  | nil => exact ⟨m, rfl, by simp, rfl, rfl, rfl⟩
  | cons c l ih =>
    obtain ⟨m₁, hstep, hlist₁, hheap₁, hseq₁, htrace₁⟩ := restoreLine_metadataLine
      (hs c List.mem_cons_self) (hw c List.mem_cons_self) (hcalloc m.heap)
    obtain ⟨m₂, hrest, hlist₂, hheap₂, hseq₂, htrace₂⟩ :=
      ih (fun c hc => hs c (List.mem_cons_of_mem _ hc))
        (fun c hc => hw c (List.mem_cons_of_mem _ hc)) m₁
    refine ⟨m₂, ?_, ?_, ?_, ?_, htrace₂.trans htrace₁⟩
    · rw [List.map_cons, List.foldl_cons, hstep, hrest]
    · rw [hlist₂, hlist₁, hheap₁, List.zipIdx_cons, List.map_cons, List.append_assoc]
      rfl
    · rw [hheap₂, hheap₁, List.length_cons]
      omega
    · rw [hseq₂, hseq₁, List.foldl_cons]

/-- Reading the file that `save_metadata` wrote. -/
theorem restore_saveMetadata {o : InitOutcome} {l : List Container} (hs : ∀ c ∈ l, Sized c)
    (hw : ∀ c ∈ l, Writable c) (hcalloc : ∀ k, o.calloc k = true) :
    ∃ m, containerManagerInit o (some (saveMetadata l)) = (pollStates o.poll m, 0) ∧
      m.list = l.zipIdx.map (fun p => revive o.alive p.2 p.1) ∧ m.heap = l.length ∧
      m.nextSequence = l.foldl (fun next c => updateNextSequence next c.id) 1 ∧
      m.world.trace = [] := by
  obtain ⟨m, hfold, hlist, hheap, hseq, htrace⟩ := foldl_restoreLine hs hw hcalloc .init
  have hfile : saveMetadata l = (l.map metadataLine).flatMap fun r => r ++ [10] := by
    rw [List.flatMap_map]
    rfl
  have hempty : ∀ m : Option Manager, restoreLine o m [] = m := by
    intro m
    cases m with
    | none => rfl
    | some m => rfl
  have hrows : ∀ r ∈ l.map metadataLine,
      r.length < 1024 ∧ (10 : UInt8) ∉ r ∧ (13 : UInt8) ∉ r := by
    intro r hr
    obtain ⟨c, hc, rfl⟩ := List.mem_map.mp hr
    exact (metadataLine_spec (hs c hc) (hw c hc)).1
  have hread : (chunks 1024 (saveMetadata l)).foldl (fun m line => restoreLine o m (trimNewline line))
      (some .init) = some m := by
    rw [hfile, foldl_chunks (by omega) hempty hrows, hfold]
  refine ⟨m, ?_, hlist, ?_, hseq, htrace⟩
  · simp only [containerManagerInit, hread]
  · rw [hheap]
    exact Nat.zero_add _

/-- The answers to `poll_states` for a process that is alive and no child of the
manager, or a child that has not ended. -/
def SyncOutcome.LiveAnswer (s : SyncOutcome) : Prop := (∀ st, s.wait ≠ .reaped st) ∧ s.alive = true

theorem syncContainerState_live {o : SyncOutcome} {c : Container} (w : World)
    (h : c.state = .running → o.LiveAnswer) : (syncContainerState o c w).1 = c := by
  unfold syncContainerState
  split
  · rfl
  split
  · rfl
  rename_i hlive hpaused
  have hrun : c.state = .running := by
    by_contra hnot
    exact hlive (.inl ⟨hnot, hpaused⟩)
  obtain ⟨hwait, hal⟩ := h hrun
  cases hw : o.wait with
  | reaped st => exact absurd hw (hwait st)
  | echild => simp [hal]
  | nothing => rfl
  | eintr => rfl
  | error => rfl

theorem pollRecord_live {o : SyncOutcome} {c : Container} (w : World)
    (h : c.state = .running → o.LiveAnswer) : persisted (pollRecord o c w).1 = persisted c := by
  unfold pollRecord
  split
  · -- the OOM count is not in the file
    have hstay := syncContainerState_live (c := { c with oomKillCount := o.oom })
      (w.emit (.event .oomKill c.id [] o.rssMb)) h
    rw [hstay]
    rfl
  · rw [syncContainerState_live w h]

theorem pollList_live {sync : Nat → SyncOutcome} {l : List Container} (w : World)
    (h : ∀ c ∈ l, c.state = .running → (sync c.ptr).LiveAnswer) :
    (pollList sync l w).1.map persisted = l.map persisted := by
  induction l generalizing w with
  | nil => rfl
  | cons c l ih =>
    have hhead := pollRecord_live (o := sync c.ptr) w (h c List.mem_cons_self)
    have htail := ih (pollRecord (sync c.ptr) c w).2.1
      fun c hc => h c (List.mem_cons_of_mem _ hc)
    rw [pollList, List.map_cons, List.map_cons, hhead, htail]

/-- Every process recorded in the list is still alive when the list is restored,
and memory does not run out. -/
structure StillAlive (o : InitOutcome) (l : List Container) : Prop where
  calloc : ∀ k, o.calloc k = true
  alive : ∀ c ∈ l, c.state = .running → o.alive c.pid = true
  poll : ∀ k c, l[k]? = some c → c.state = .running → (o.poll.sync k).LiveAnswer

/-- Saving, then restoring. -/
theorem containerManagerInit_saveMetadata {o : InitOutcome} {l : List Container}
    (hs : ∀ c ∈ l, Sized c) (hw : ∀ c ∈ l, Writable c) (hpid : ∀ c ∈ l, PidOk c)
    (halive : StillAlive o l) :
    (containerManagerInit o (some (saveMetadata l))).2 = 0 ∧
    (containerManagerInit o (some (saveMetadata l))).1.list.map persisted = l.map persisted := by
  obtain ⟨m, hinit, hlist, -, -⟩ := restore_saveMetadata hs hw halive.calloc
  have hrevive : ∀ p ∈ l.zipIdx, revive o.alive p.2 p.1 = { p.1 with ptr := p.2, oomKillCount := 0 } := by
    intro p hp
    have hc : p.1 ∈ l := List.fst_mem_of_mem_zipIdx hp
    refine if_neg ?_
    rintro ⟨hrun, hdead⟩
    have hpos := (hpid p.1 hc).1 (.inl hrun)
    simp [hpos, halive.alive p.1 hc hrun] at hdead
  have hrestored : m.list = l.zipIdx.map fun p => { p.1 with ptr := p.2, oomKillCount := 0 } := by
    rw [hlist]
    exact List.map_congr_left hrevive
  rw [hinit]
  refine ⟨rfl, ?_⟩
  show (pollList o.poll.sync m.list m.world).1.map persisted = _
  rw [hrestored, pollList_live]
  · rw [List.map_map]
    calc l.zipIdx.map (persisted ∘ fun p => { p.1 with ptr := p.2, oomKillCount := 0 })
        = l.zipIdx.map (persisted ∘ Prod.fst) := rfl
      _ = (l.zipIdx.map Prod.fst).map persisted := by rw [List.map_map]
      _ = l.map persisted := by rw [List.zipIdx_map_fst]
  · intro c hc hrun
    obtain ⟨⟨d, k⟩, hd, rfl⟩ := List.mem_map.mp hc
    exact halive.poll k d (List.mem_zipIdx_iff_getElem?.mp hd) hrun

end ContainerSim.Runtime
