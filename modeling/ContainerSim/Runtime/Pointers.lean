import ContainerSim.Runtime.AddressPool
import ContainerSim.Runtime.Prune
import ContainerSim.Runtime.Rollback

/-!
# The list behind `head` and `tail`

The calls of `append_container` and `remove_container` that the manager makes,
on the pointers themselves: a block from `calloc` is none of the records in the
list, and a block that was freed holds anything. After any sequence of calls the
pointers lead through the records the calls leave (`pointers_hold`), and every
run of the manager is such a sequence (`manager_calls`).
-/

namespace ContainerSim.Runtime

open Lib

/-- What an operation does to the list; `junk` is what a freed block holds. -/
inductive ListCall where
  /-- `container_create` with the answer of the save -/
  | create (ptr : Nat) (save : Bool) (junk : Option Nat)
  /-- a line of the metadata file -/
  | restore (ptr : Nat)
  /-- `container_delete` with the answer of the save -/
  | delete (ptr : Nat) (save : Bool) (junk : Option Nat)
  /-- the loop of `container_prune_all`, and which records it removes -/
  | prune (idle : Nat → Bool) (junk : Nat → Option Nat)
  /-- all records are freed, and `head` and `tail` set to NULL -/
  | drop (next : Nat → Option Nat)

/-- No records, and anything in the memory. -/
def emptyLinks (next : Nat → Option Nat) : Links Nat := { head := none, tail := none, next }

/-- The calls on the pointers; `size` bounds the steps of each search. -/
def ListCall.onLinks (size : Nat) (l : Links Nat) : ListCall → Links Nat
  | .create ptr save junk =>
    let l := l.append ptr
    if !save then (l.remove ptr size).scribble ptr junk else l
  | .restore ptr => l.append ptr
  | .delete ptr save junk =>
    let l := l.remove ptr size
    if !save then l.append ptr else l.scribble ptr junk
  | .prune idle junk => (l.sweep idle junk size size l.head).1
  | .drop next => emptyLinks next

/-- The same on the records in the order of the list. -/
def ListCall.onRecords (ptrs : List Nat) : ListCall → List Nat
  | .create ptr save _ => if !save then ptrs else ptrs ++ [ptr]
  | .restore ptr => ptrs ++ [ptr]
  | .delete ptr save _ => if !save then ptrs.erase ptr ++ [ptr] else ptrs.erase ptr
  | .prune idle _ => ptrs.filter fun ptr => !idle ptr
  | .drop _ => []

/-- A record met on the way from `head` to NULL. -/
def OnList (l : Links Nat) (ptr : Nat) : Prop := ∃ ptrs, Seg l.next l.head ptrs none ∧ ptr ∈ ptrs

/-- A new block is not in use, and a record to delete was found. -/
def CallOk (l : Links Nat) : ListCall → Prop
  | .create ptr _ _ => ¬ OnList l ptr
  | .restore ptr => ¬ OnList l ptr
  | .delete ptr _ _ => OnList l ptr
  | .prune _ _ => True
  | .drop _ => True

/-- The same on the records. -/
def RecordOk (ptrs : List Nat) : ListCall → Prop
  | .create ptr _ _ => ptr ∉ ptrs
  | .restore ptr => ptr ∉ ptrs
  | .delete ptr _ _ => ptr ∈ ptrs
  | .prune _ _ => True
  | .drop _ => True

instance (ptrs : List Nat) (call : ListCall) : Decidable (RecordOk ptrs call) := by
  cases call <;> unfold RecordOk <;> infer_instance

def linksStep (size : Nat) (l : Links Nat) (call : ListCall) : Option (Links Nat) :=
  some (call.onLinks size l)

def recordsStep (ptrs : List Nat) (call : ListCall) : Option (List Nat) :=
  some (call.onRecords ptrs)

/-- The records a sequence of calls leaves. -/
def recordsOf (calls : List ListCall) : List Nat := calls.foldl ListCall.onRecords []

/-! ## One call -/

theorem emptyLinks_holds (next : Nat → Option Nat) : (emptyLinks next).Holds [] :=
  ⟨.nil none, rfl, List.nodup_nil⟩

theorem onList_iff {l : Links Nat} {ptrs : List Nat} (h : l.Holds ptrs) {ptr : Nat} :
    OnList l ptr ↔ ptr ∈ ptrs := by
  constructor
  · rintro ⟨ptrs', hseg, hmem⟩
    rwa [hseg.unique h.chain] at hmem
  · intro hmem
    exact ⟨ptrs, h.chain, hmem⟩

theorem callOk_iff {l : Links Nat} {ptrs : List Nat} (h : l.Holds ptrs) {call : ListCall} :
    CallOk l call ↔ RecordOk ptrs call := by
  cases call with
  | create ptr save junk => exact not_congr (onList_iff h)
  | restore ptr => exact not_congr (onList_iff h)
  | delete ptr save junk => exact onList_iff h
  | prune idle junk => exact Iff.rfl
  | drop next => exact Iff.rfl

theorem recordsOf_snoc (calls : List ListCall) (call : ListCall) :
    recordsOf (calls ++ [call]) = call.onRecords (recordsOf calls) :=
  List.foldl_concat ..

/-- A call adds one record at the most. -/
theorem length_onRecords_le (ptrs : List Nat) (call : ListCall) :
    (call.onRecords ptrs).length ≤ ptrs.length + 1 := by
  cases call with
  | create ptr save junk =>
    cases save with
    | false => exact Nat.le_succ _
    | true => exact Nat.le_of_eq List.length_append
  | restore ptr => exact Nat.le_of_eq List.length_append
  | delete ptr save junk =>
    have herase := List.length_erase_le (a := ptr) (l := ptrs)
    cases save with
    | false =>
      show (ptrs.erase ptr ++ [ptr]).length ≤ _
      rw [List.length_append, List.length_singleton]
      omega
    | true => exact Nat.le_succ_of_le herase
  | prune idle junk => exact Nat.le_succ_of_le (List.length_filter_le _ _)
  | drop next => exact Nat.zero_le _

theorem length_recordsOf_le (calls : List ListCall) : (recordsOf calls).length ≤ calls.length := by
  induction calls using List.reverseRecOn with
  | nil => exact Nat.le_refl 0
  | append_singleton calls call ih =>
    have hcall := length_onRecords_le (recordsOf calls) call
    rw [recordsOf_snoc, List.length_append, List.length_singleton]
    omega

section
variable {size : Nat} {l : Links Nat} {ptrs : List Nat} (h : l.Holds ptrs) (hsize : ptrs.length < size)
include h hsize

/-- `remove_container` takes out the record and keeps the order of the others. -/
theorem remove_holds_erase {ptr : Nat} (hptr : ptr ∈ ptrs) :
    (l.remove ptr size).Holds (ptrs.erase ptr) := by
  obtain ⟨front, rest, -, heq, herase⟩ := List.exists_erase_eq hptr
  rw [herase]
  rw [heq] at h
  have hlen : ptrs.length = front.length + rest.length + 1 := by
    rw [heq, List.length_append, List.length_cons]
    omega
  exact Links.remove_holds h (by omega)

/-- The pointers follow the records through every call. -/
theorem onLinks_holds {call : ListCall} (hok : RecordOk ptrs call) :
    (call.onLinks size l).Holds (call.onRecords ptrs) := by
  cases call with
  | create ptr save junk =>
    cases save with
    | true => exact Links.append_holds h hok
    | false =>
      have hremoved := Links.remove_append_holds h hok hsize
      exact Links.scribble_holds hremoved hok junk
  | restore ptr => exact Links.append_holds h hok
  | delete ptr save junk =>
    have hremoved := remove_holds_erase h hsize hok
    have hgone : ptr ∉ ptrs.erase ptr := h.nodup.not_mem_erase
    cases save with
    | true => exact Links.scribble_holds hremoved hgone junk
    | false => exact Links.append_holds hremoved hgone
  | prune idle junk => exact (Links.sweep_holds h hsize.le hsize).2
  | drop next => exact emptyLinks_holds next

end

/-! ## A run -/

theorem run_holds {size : Nat} {next : Nat → Option Nat} {calls : List ListCall} {l : Links Nat}
    (hsize : calls.length < size) (hrun : RunOk (linksStep size) CallOk (emptyLinks next) calls l) :
    l.Holds (recordsOf calls) := by
  induction hrun with
  | nil => exact emptyLinks_holds next
  | @snoc l' l'' calls call _ hok hstep ih =>
    rw [List.length_append, List.length_singleton] at hsize
    have hholds := ih (by omega)
    have hlen := length_recordsOf_le calls
    have hl : call.onLinks size l' = l'' := Option.some.inj hstep
    rw [recordsOf_snoc, ← hl]
    exact onLinks_holds hholds (by omega) ((callOk_iff hholds).mp hok)

/-- Calls that are right for the records are right for the pointers. -/
theorem links_of_records {size : Nat} (next : Nat → Option Nat) {calls : List ListCall}
    {ptrs : List Nat} (hsize : calls.length < size)
    (hrun : RunOk recordsStep RecordOk [] calls ptrs) :
    ∃ l, RunOk (linksStep size) CallOk (emptyLinks next) calls l ∧ l.Holds ptrs := by
  induction hrun with
  | nil => exact ⟨emptyLinks next, .nil _, emptyLinks_holds next⟩
  | @snoc ptrs ptrs' calls call _ hok hstep ih =>
    rw [List.length_append, List.length_singleton] at hsize
    obtain ⟨l, hlinks, hholds⟩ := ih (by omega)
    have hlen : ptrs.length ≤ calls.length := by
      rw [hholds.unique (run_holds (by omega) hlinks)]
      exact length_recordsOf_le calls
    have hptrs : call.onRecords ptrs = ptrs' := Option.some.inj hstep
    refine ⟨call.onLinks size l, .snoc hlinks ((callOk_iff hholds).mpr hok) rfl, ?_⟩
    rw [← hptrs]
    exact onLinks_holds hholds (by omega) hok

/-- After any calls the pointers lead through the records the calls leave, from
`head` to `tail`. A record appended next comes last, one that is removed is taken
out of its place, and the loop of `container_prune_all` visits all of them in
their order. -/
theorem pointers_hold {size : Nat} {next : Nat → Option Nat} {calls : List ListCall} {l : Links Nat}
    (hsize : calls.length < size) (hrun : RunOk (linksStep size) CallOk (emptyLinks next) calls l) :
    l.Holds (recordsOf calls) ∧ (l.head = none ↔ l.tail = none) ∧
      (∀ t ∈ l.tail, l.next t = none) ∧
      (∀ ptr, ¬ OnList l ptr → (l.append ptr).Holds (recordsOf calls ++ [ptr])) ∧
      (∀ ptr, OnList l ptr → (l.remove ptr size).Holds ((recordsOf calls).erase ptr)) ∧
      ∀ idle junk, (l.sweep idle junk size size l.head).2 = recordsOf calls ∧
        (l.sweep idle junk size size l.head).1.Holds
          ((recordsOf calls).filter fun ptr => !idle ptr) := by
  have hholds := run_holds hsize hrun
  have hlen : (recordsOf calls).length < size :=
    Nat.lt_of_le_of_lt (length_recordsOf_le calls) hsize
  refine ⟨hholds, hholds.head_iff_tail, hholds.next_tail, fun ptr hptr => ?_, fun ptr hptr => ?_,
    fun idle junk => Links.sweep_holds hholds hlen.le hlen⟩
  · exact Links.append_holds hholds fun hmem => hptr ((onList_iff hholds).mpr hmem)
  · exact remove_holds_erase hholds hlen ((onList_iff hholds).mp hptr)

/-- Three records are made, the middle one is not deleted because the save fails,
and a prune removes the first. -/
theorem pointers_hold_three :
    ∃ l, RunOk (linksStep 6) CallOk (emptyLinks fun _ => some 7)
        [.create 0 true none, .create 1 true none, .create 2 true none, .delete 1 false none,
          .prune (fun ptr => ptr == 0) fun _ => some 9] l ∧
      l.Holds [2, 1] ∧ (l.append 3).Holds [2, 1, 3] ∧ (l.remove 1 6).Holds [2] ∧
      (l.sweep (fun _ => true) (fun _ => none) 6 6 l.head).2 = [2, 1] := by
  obtain ⟨l, hlinks, hholds⟩ := @links_of_records 6 (fun _ => some 7)
    [.create 0 true none, .create 1 true none, .create 2 true none, .delete 1 false none,
      .prune (fun ptr => ptr == 0) fun _ => some 9] [2, 1] (by decide) (runOk_of_exec rfl)
  have h := pointers_hold (by decide) hlinks
  refine ⟨l, hlinks, h.1, h.2.2.2.1 3 ?_, h.2.2.2.2.1 1 ?_, (h.2.2.2.2.2 _ _).1⟩
  · rw [onList_iff hholds]
    decide
  · rw [onList_iff hholds]
    decide

/-! ## The calls of the manager -/

section
variable (junk : Nat → Option Nat)

/-- What `container_create` calls: nothing before the rootfs is prepared. -/
def createCalls (o : CreateOutcome) (spec : ContainerSpec) (m : Manager) : List ListCall :=
  if !o.calloc then []
  else
    match filesystemPrepareRootfs o (newContainer o spec m.heap m.nextSequence).2 with
    | none => []
    | some _ => [.create m.heap o.save (junk m.heap)]

/-- What `container_delete` calls for a record it found and may delete. -/
def deleteCalls (poll : PollOutcome) (save : Bool) (id : Bytes) (m : Manager) : List ListCall :=
  if id = [] then []
  else
    match findContainer (pollStates poll m).list id with
    | none => []
    | some c => if Live c then [] else [.delete c.ptr save (junk c.ptr)]

/-- The records that `container_prune_all` finds without a process. -/
def idlePtr (list : List Container) (ptr : Nat) : Bool := list.any fun c => c.ptr = ptr ∧ ¬ Live c

/-- The calls of an operation on the list. -/
def UserOp.calls (m : Manager) : UserOp → List ListCall
  | .life (.create o spec) => createCalls junk o spec m
  | .life (.run o spec) => createCalls junk o.create spec m
  | .life (.runBackground o spec) => createCalls junk o.create spec m
  | .life (.delete poll save id) => deleteCalls junk poll save id m
  | .life _ => []
  | .prune poll _ => [.prune (idlePtr (pollStates poll m).list) junk]

/-- The call for a line of the metadata file. A line that cannot be allocated
drops what has been read. -/
def lineCalls (o : InitOutcome) (m : Option Manager) (line : Bytes) : List ListCall :=
  match m with
  | none => []
  | some m =>
    if ((line.splitOn 9).take 22).length < 6 then []
    else if !o.calloc m.heap then [.drop junk]
    else [.restore m.heap]

/-- The calls of `container_manager_init`. -/
def initCalls (o : InitOutcome) : List Bytes → Option Manager → List ListCall
  | [], _ => []
  | line :: lines, m =>
    lineCalls junk o m (trimNewline line) ++
      initCalls o lines (restoreLine o m (trimNewline line))

/-- The manager with the calls it has made. -/
structure Called where
  mgr : Manager
  calls : List ListCall

def calledStep (s : Called) (op : UserOp) : Option Called :=
  (userStep op s.mgr).map fun m => { mgr := m, calls := s.calls ++ op.calls junk s.mgr }

/-- A process that has read its metadata file. -/
def called (o : InitOutcome) (text : Bytes) : Called :=
  { mgr := (containerManagerInit o (some text)).1
    calls := initCalls junk o (chunks 1024 text) (some .init) }

end

/-! ## What the calls leave is the list -/

/-- Calls from one list of records to another. -/
abbrev Leads (list : List Container) (calls : List ListCall) (list' : List Container) : Prop :=
  RunOk recordsStep RecordOk (list.map Container.ptr) calls (list'.map Container.ptr)

theorem leads_nil {list list' : List Container}
    (h : list'.map Container.ptr = list.map Container.ptr) : Leads list [] list' := by
  rw [Leads, h]
  exact .nil _

theorem leads_one {list list' : List Container} {call : ListCall}
    (hok : RecordOk (list.map Container.ptr) call)
    (h : call.onRecords (list.map Container.ptr) = list'.map Container.ptr) :
    Leads list [call] list' :=
  .cons hok (congrArg some h) (.nil _)

theorem removeContainer_map_ptr (list : List Container) (ptr : Nat) :
    (removeContainer list ptr).map Container.ptr = (list.map Container.ptr).erase ptr := by
  rw [List.erase_eq_eraseP', List.eraseP_map, removeContainer]
  rfl

section
variable {junk : Nat → Option Nat} {m : Manager}

theorem Wf.heap_notMem (h : Wf m) : m.heap ∉ m.list.map Container.ptr := by
  intro hmem
  obtain ⟨c, hc, heq⟩ := List.mem_map.mp hmem
  have hlt := h.heap c hc
  omega

theorem containerCreate_leads (h : Wf m) (o : CreateOutcome) (spec : ContainerSpec) :
    Leads m.list (createCalls junk o spec m) (containerCreate o spec m).1.list := by
  unfold createCalls containerCreate
  split
  · exact leads_nil rfl
  · simp only
    cases filesystemPrepareRootfs o (newContainer o spec m.heap m.nextSequence).2 with
    | none => exact leads_nil rfl
    | some rootfs =>
      refine leads_one h.heap_notMem ?_
      cases hsave : o.save with
      | false => rfl
      | true =>
        show m.list.map Container.ptr ++ [m.heap] = List.map Container.ptr (m.list ++ [_])
        rw [List.map_append]
        rfl

/-- What follows the creation changes no pointer. -/
theorem containerRun_map_ptr (o : RunOutcome) (spec : ContainerSpec) :
    (containerRun o spec m).1.list.map Container.ptr =
      (containerCreate o.create spec m).1.list.map Container.ptr := by
  unfold containerRun
  cases containerCreate o.create spec m with
  | mk m₁ r =>
    cases r with
    | none => rfl
    | some id =>
      have hstart : (startContainerById o.poll o.start id false false m₁).1.list.map Container.ptr =
          m₁.list.map Container.ptr := withContainer_map_ptr o.poll id _ m₁
      simp only
      generalize startContainerById o.poll o.start id false false m₁ = r at hstart ⊢
      split
      · exact hstart
      · cases findContainer r.1.list id with
        | none => exact hstart
        | some c => exact (setContainer_map_ptr _ _).trans hstart

theorem containerRunBackground_map_ptr (o : RunOutcome) (spec : ContainerSpec) :
    (containerRunBackground o spec m).1.list.map Container.ptr =
      (containerCreate o.create spec m).1.list.map Container.ptr := by
  unfold containerRunBackground
  cases containerCreate o.create spec m with
  | mk m₁ r =>
    cases r with
    | none => rfl
    | some id =>
      have hstart : (startContainerById o.poll o.start id true true
          (recordLogPath o.saveLogPath id m₁)).1.list.map Container.ptr =
            m₁.list.map Container.ptr :=
        (withContainer_map_ptr o.poll id _ _).trans (recordLogPath_map_ptr o.saveLogPath id m₁)
      simp only
      split
      · exact hstart
      · exact hstart

theorem containerDelete_leads (poll : PollOutcome) (save : Bool) (id : Bytes) :
    Leads m.list (deleteCalls junk poll save id m) (containerDelete poll save id m).1.list := by
  have hpoll := pollStates_map_ptr poll m
  unfold deleteCalls containerDelete
  split
  · exact leads_nil rfl
  · simp only
    cases hfind : findContainer (pollStates poll m).list id with
    | none => exact leads_nil hpoll
    | some c =>
      simp only
      by_cases hlive : Live c
      · have hguard : c.state = .running ∨ c.state = .paused := hlive
        rw [if_pos hlive, if_pos hguard]
        exact leads_nil hpoll
      · have hguard : ¬ (c.state = .running ∨ c.state = .paused) := hlive
        rw [if_neg hlive, if_neg hguard]
        have hmem : c.ptr ∈ m.list.map Container.ptr := by
          rw [← hpoll]
          exact List.mem_map_of_mem (mem_of_findContainer hfind).1
        have hptr : (cleanupContainerNetwork c (pollStates poll m).world).1.ptr = c.ptr :=
          (cleanupContainerNetwork_spec c _).1.ptr
        have hrest : (removeContainer (pollStates poll m).list c.ptr).map Container.ptr =
            (m.list.map Container.ptr).erase c.ptr := by
          rw [removeContainer_map_ptr, hpoll]
        rw [hptr]
        refine leads_one hmem ?_
        cases save with
        | false =>
          show (m.list.map Container.ptr).erase c.ptr ++ [c.ptr] = List.map Container.ptr (_ ++ [_])
          rw [List.map_append, hrest, List.map_singleton, hptr]
        | true => exact hrest.symm

theorem containerPruneAll_leads (h : Wf m) (poll : PollOutcome) (save : Bool) :
    Leads m.list [.prune (idlePtr (pollStates poll m).list) junk]
      (containerPruneAll poll save m).list := by
  have hwf := h.quiet (pollStates_quiet poll m)
  refine leads_one trivial ?_
  show (m.list.map Container.ptr).filter _ =
    (pruneList (pollStates poll m).list (pollStates poll m).world).1.map Container.ptr
  rw [pruneList_eq, ← pollStates_map_ptr poll m, List.filter_map]
  congr 1
  refine List.filter_congr fun c hc => ?_
  -- addresses are distinct, so the one that is found is this record
  have hidle : idlePtr (pollStates poll m).list c.ptr = true ↔ ¬ Live c := by
    rw [idlePtr, List.any_eq_true]
    constructor
    · rintro ⟨d, hd, hcond⟩
      obtain ⟨hptr, hlive⟩ := of_decide_eq_true hcond
      rwa [← hwf.ptrs.eq hc hd hptr]
    · intro hlive
      exact ⟨c, hc, decide_eq_true ⟨rfl, hlive⟩⟩
  show (!idlePtr (pollStates poll m).list c.ptr) = decide (Live c)
  by_cases hlive : Live c
  · rw [decide_eq_true hlive, Bool.not_eq_true', Bool.eq_false_iff]
    exact fun htrue => hidle.mp htrue hlive
  · rw [decide_eq_false hlive, hidle.mpr hlive]
    rfl

theorem userStep_leads {m' : Manager} {op : UserOp} (h : Wf m) (hs : userStep op m = some m') :
    Leads m.list (op.calls junk m) m'.list := by
  cases op with
  | prune poll save =>
    cases hs
    exact containerPruneAll_leads h poll save
  | life a =>
    cases a with
    | create o spec =>
      cases hs
      exact containerCreate_leads h o spec
    | run o spec =>
      cases hs
      show RunOk _ _ _ _ _
      rw [containerRun_map_ptr]
      exact containerCreate_leads h o.create spec
    | runBackground o spec =>
      cases hs
      show RunOk _ _ _ _ _
      rw [containerRunBackground_map_ptr]
      exact containerCreate_leads h o.create spec
    | delete poll save id =>
      cases hs
      exact containerDelete_leads poll save id
    | start poll o id =>
      cases hs
      -- the other operations change records, not the list
      exact leads_nil (withContainer_map_ptr poll id _ m)
    | stop poll o id timeoutS =>
      cases hs
      exact leads_nil (withContainer_map_ptr poll id _ m)
    | pause poll kill save id =>
      cases hs
      exact leads_nil (withContainer_map_ptr poll id _ m)
    | unpause poll kill save id =>
      cases hs
      exact leads_nil (withContainer_map_ptr poll id _ m)
    | poll o =>
      cases hs
      exact leads_nil (pollStates_map_ptr o m)

end

/-- The records after some lines: none once the memory has run out. -/
def readList (m : Option Manager) : List Container := (m.map Manager.list).getD []

section
variable {junk : Nat → Option Nat} {o : InitOutcome}

theorem lineCalls_leads {m : Option Manager} (h : ∀ m', m = some m' → Tallied m') (line : Bytes) :
    Leads (readList m) (lineCalls junk o m line) (readList (restoreLine o m line)) := by
  cases m with
  | none => exact leads_nil rfl
  | some m =>
    unfold lineCalls restoreLine
    rw [Option.bind_some]
    simp only
    split
    · exact leads_nil rfl
    · split
      · exact leads_one trivial rfl
      · refine leads_one (h m rfl).wf.heap_notMem ?_
        show m.list.map Container.ptr ++ [m.heap] = List.map Container.ptr (m.list ++ [_])
        rw [List.map_append]
        rfl

theorem initCalls_leads (lines : List Bytes) {m : Option Manager}
    (h : ∀ m', m = some m' → Tallied m') :
    Leads (readList m) (initCalls junk o lines m)
      (readList (lines.foldl (fun m line => restoreLine o m (trimNewline line)) m)) := by
  induction lines generalizing m with
  | nil => exact leads_nil rfl
  | cons line lines ih =>
    refine (lineCalls_leads h (trimNewline line)).trans (ih fun m' hline => ?_)
    cases m with
    | none => cases hline
    | some m => exact (h m rfl).line hline

/-- A restart reads the list that its calls leave, or gives it up. -/
theorem called_leads (junk : Nat → Option Nat) (o : InitOutcome) (text : Bytes) :
    Leads [] (called junk o text).calls (called junk o text).mgr.list := by
  have hread := @initCalls_leads junk o (chunks 1024 text) (some .init) fun m' hm => by
    cases hm
    exact tallied_init
  unfold called containerManagerInit
  simp only
  cases hlines : (chunks 1024 text).foldl (fun m line => restoreLine o m (trimNewline line))
      (some .init) with
  | none =>
    rw [hlines] at hread
    exact hread
  | some m =>
    rw [hlines] at hread
    show RunOk _ _ _ _ _
    rw [pollStates_map_ptr]
    exact hread

theorem called_wf (junk : Nat → Option Nat) (o : InitOutcome) (text : Bytes) :
    Wf (called junk o text).mgr := by
  unfold called
  rcases containerManagerInit_tallied o text with hinit | ⟨m, hm, hinit⟩
  · rw [hinit]
    exact wf_init
  · rw [hinit]
    exact hm.wf.quiet (pollStates_quiet o.poll m)

/-- **The pointers follow the manager.** Whatever the file holds, and whatever is
done after the restart, the calls made so far are right where they are made, and
the pointers they leave lead through the records of the list in their order. -/
theorem manager_calls {text : Bytes} {ops : List UserOp} {s : Called}
    (hrun : Runs (calledStep junk) (called junk o text) ops s) (next : Nat → Option Nat) :
    ∃ l, RunOk (linksStep (s.calls.length + 1)) CallOk (emptyLinks next) s.calls l ∧
      Linked l s.mgr.list := by
  have hinv : Wf s.mgr ∧ Leads [] s.calls s.mgr.list := by
    have h₀ := And.intro (called_wf junk o text) (called_leads junk o text)
    refine hrun.invariant (I := fun s => Wf s.mgr ∧ Leads [] s.calls s.mgr.list)
      (fun s op s' h _ hs => ?_) h₀
    obtain ⟨m, hm, rfl⟩ := Option.map_eq_some_iff.mp hs
    exact ⟨h.1.userStep hm, h.2.trans (userStep_leads h.1 hm)⟩
  exact links_of_records next (Nat.lt_succ_self _) hinv.2

end

end ContainerSim.Runtime
