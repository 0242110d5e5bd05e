import ContainerSim.EventBus.Replay
import ContainerSim.Lib.Run

/-!
# Emitting from several threads

A thread numbers and stores its event under `g_lock` and writes the line after
it has let go of the lock, so the lines can come in another order than the
numbers. `replay_events_file` takes the counter from the last line: it stays
above every stored number exactly when the last line is the highest
(`replay_total_above`).
-/

namespace ContainerSim.EventBus

open Lib

structure Emitters where
  bus : Bus
  /-- by thread: the event it has stored and not written yet -/
  pending : Nat → Option Event
  file : Bytes
  /-- the events written, in the order of the lines -/
  written : List Event

/-- A process that has read `file` and opened it for appending. -/
def Emitters.start (file : Bytes) : Emitters :=
  { bus := eventbusInit true (some file), pending := fun _ => none, file, written := [] }

inductive EmitterAct where
  /-- a thread calls `eventbus_emit` and is through its locked section -/
  | publish (tid : Nat) (call : Emit)
  /-- the thread writes its line and flushes it -/
  | write (tid : Nat)

def emitterStep (s : Emitters) : EmitterAct → Option Emitters
  | .publish tid call =>
    match s.pending tid with
    | some _ => none
    | none =>
      let (bus, e) := s.bus.publish call
      some { s with bus, pending := Function.update s.pending tid (some e) }
  | .write tid =>
    (s.pending tid).map fun e =>
      { s with
        pending := Function.update s.pending tid none
        file := s.file ++ (eventLine e ++ [10])
        written := s.written ++ [e] }

/-- The container id and the detail, as they are stored, have no newline. -/
def Event.OneLine (e : Event) : Prop := (10 : UInt8) ∉ e.containerId ∧ (10 : UInt8) ∉ e.detail

/-- A call whose line is one line. -/
def OneLineAct (_ : Emitters) : EmitterAct → Prop
  | .publish _ call => (call.event 0).OneLine
  | .write _ => True

instance (e : Event) : Decidable e.OneLine := by unfold Event.OneLine; infer_instance

instance (s : Emitters) (a : EmitterAct) : Decidable (OneLineAct s a) := by
  cases a with
  | publish tid call => unfold OneLineAct; infer_instance
  | write tid => unfold OneLineAct; infer_instance

/-- The last number is the highest, and not the last there is. -/
def LastHighest (seqs : List Nat) : Prop :=
  ∀ last ∈ seqs.getLast?, last + 1 < 2 ^ 64 ∧ ∀ seq ∈ seqs, seq ≤ last

instance (seqs : List Nat) : Decidable (LastHighest seqs) := by
  unfold LastHighest
  infer_instance

/-! ## What the file holds -/

/-- The number of a line is read whatever the strings are. -/
theorem seq_of_parse {e : Event} (hs : e.Stored) :
    ∃ e', parseEventLine (eventLine e ++ [10]) = some e' ∧ e'.seq = e.seq := by
  have hcut := cutFields_eventLine e [10]
  generalize hrest : dashed e.containerId ++ 9 ::
    (dashed e.detail ++ 9 :: (fmtInt e.value.toInt ++ [10])) = rest at hcut
  have hlen : (cutFields 9 3 rest).length = 3 := by
    have htabs : 2 ≤ rest.count 9 := by
      rw [← hrest, List.count_append, List.count_cons_self, List.count_append,
        List.count_cons_self]
      omega
    rw [cutFields_length]
    omega
  obtain ⟨containerId, detail, value, hthree⟩ := List.length_eq_three.mp hlen
  rw [hthree] at hcut
  unfold parseEventLine
  rw [hcut]
  show ∃ e', (typeOfName (eventbusTypeName e.type)).map _ = some e' ∧ _
  rw [typeOfName_typeName]
  exact ⟨_, rfl, strtoul_fmtNat hs.seq⟩

theorem storedEvents_line {e : Event} (hs : e.Stored) (hline : e.OneLine) :
    (storedEvents (eventLine e ++ [10])).map Event.seq = [e.seq] := by
  obtain ⟨e', hparse, hseq⟩ := seq_of_parse hs
  have hall : ∀ x ∈ [e], x.Stored := List.forall_mem_singleton.mpr hs
  have hchunks := chunks_eventLines hall
    (List.forall_mem_singleton.mpr hline)
  rw [eventLines, List.flatMap_singleton] at hchunks
  rw [storedEvents, hchunks]
  show ([eventLine e ++ [10]].filterMap parseEventLine).map Event.seq = [e.seq]
  simp [hparse, hseq]

/-! ## Every run -/

structure EmittersInv (file : Bytes) (s : Emitters) : Prop where
  total : s.bus.total < 2 ^ 64
  complete : Complete s.file
  stored : (storedEvents s.file).map Event.seq =
    (storedEvents file).map Event.seq ++ s.written.map Event.seq
  pending : ∀ tid e, s.pending tid = some e → e.Stored ∧ e.OneLine

theorem eventbusInit_total_lt (calloc : Bool) (file : Option Bytes) :
    (eventbusInit calloc file).total < 2 ^ 64 := by
  unfold eventbusInit replayEventsFile
  split
  · decide
  · split
    · decide
    · simp only
      split
      · decide
      · exact Nat.mod_lt _ (by omega)

theorem emittersInv_start {file : Bytes} (h : Complete file) :
    EmittersInv file (Emitters.start file) where
  total := eventbusInit_total_lt _ _
  complete := h
  stored := by simp [Emitters.start]
  pending := by
    intro tid e he
    simp [Emitters.start] at he

theorem EmittersInv.step {file : Bytes} {s s' : Emitters} {a : EmitterAct}
    (h : EmittersInv file s) (hok : OneLineAct s a) (hs : emitterStep s a = some s') :
    EmittersInv file s' := by
  cases a with
  | publish tid call =>
    simp only [emitterStep] at hs
    split at hs
    · cases hs
    · cases hs
      refine ⟨Nat.mod_lt _ (by omega), h.complete, h.stored, ?_⟩
      intro tid' e he
      by_cases heq : tid' = tid
      · subst heq
        simp only [Function.update_self, Option.some.injEq] at he
        subst he
        exact ⟨stored_event call h.total, hok⟩
      · simp only [Function.update_of_ne heq] at he
        exact h.pending tid' e he
  | write tid =>
    obtain ⟨e, he, rfl⟩ := Option.map_eq_some_iff.mp hs
    obtain ⟨hstored, hline⟩ := h.pending tid e he
    refine ⟨h.total, .append_line _, ?_, ?_⟩
    · show (storedEvents (s.file ++ (eventLine e ++ [10]))).map Event.seq = _
      rw [storedEvents_append h.complete, List.map_append, storedEvents_line hstored hline,
        h.stored, List.append_assoc, List.map_append]
      rfl
    · intro tid' e' he'
      by_cases heq : tid' = tid
      · subst heq
        simp at he'
      · simp only [Function.update_of_ne heq] at he'
        exact h.pending tid' e' he'

/-- A replay stays above the stored numbers when the last of them is the highest. -/
theorem total_above_iff (file : Bytes) :
    (∀ e ∈ storedEvents file, e.seq < (eventbusInit true (some file)).total) ↔
      LastHighest ((storedEvents file).map Event.seq) := by
  rcases List.eq_nil_or_concat (storedEvents file) with hnil | ⟨es, last, hes⟩
  · simp [hnil, LastHighest]
  · rw [List.concat_eq_append] at hes
    rw [eventbusInit_stored hes, hes]
    show (∀ e ∈ es ++ [last], e.seq < (last.seq + 1) % 2 ^ 64) ↔ _
    constructor
    · intro habove seq hseq
      have hlast : last.seq < (last.seq + 1) % 2 ^ 64 := habove last (by simp)
      have hmod : (last.seq + 1) % 2 ^ 64 < 2 ^ 64 := Nat.mod_lt _ (by omega)
      have hle : (last.seq + 1) % 2 ^ 64 ≤ last.seq + 1 := Nat.mod_le _ _
      simp only [List.map_append, List.map_cons, List.map_nil, List.getLast?_append_cons,
        List.getLast?_singleton, Option.mem_def, Option.some.injEq] at hseq
      subst hseq
      refine ⟨by omega, fun seq hmem => ?_⟩
      obtain ⟨e, he, rfl⟩ := List.mem_map.mp hmem
      have := habove e he
      omega
    · intro hhigh e he
      obtain ⟨hroom, hall⟩ := hhigh last.seq (by simp)
      have hle := hall e.seq (List.mem_map_of_mem he)
      rw [Nat.mod_eq_of_lt hroom]
      omega

/-- **Sequence numbers are not reused after a replay**, exactly when the line
written last is that of the highest number: for any interleaving of any number
of threads, from any file of complete lines. -/
theorem replay_total_above {file : Bytes} (hfile : Complete file) {as : List EmitterAct}
    {s : Emitters} (hrun : RunOk emitterStep OneLineAct (Emitters.start file) as s) :
    (∀ e ∈ storedEvents s.file, e.seq < (eventbusInit true (some s.file)).total) ↔
      LastHighest ((storedEvents file).map Event.seq ++ s.written.map Event.seq) := by
  have hinv : EmittersInv file s :=
    hrun.invariant (fun _ _ _ hi hok hs => hi.step hok hs) (emittersInv_start hfile)
  rw [← hinv.stored]
  exact total_above_iff s.file

/-! ## Two threads -/

/-- Two threads emit an event each, then write their lines in this order. -/
def twoWrites (first second : Nat) : List EmitterAct :=
  let call : Emit :=
    { type := .netInit, containerId := [], detail := bytes "br0", value := 0, now := 0 }
  [.publish 0 call, .publish 1 call, .write first, .write second]

theorem replay_total_above_ordered :
    ∃ s, RunOk emitterStep OneLineAct (Emitters.start []) (twoWrites 0 1) s ∧
      ∀ e ∈ storedEvents s.file, e.seq < (eventbusInit true (some s.file)).total := by
  obtain ⟨s, hrun, hlast⟩ := exists_runOk_of_exec emitterStep OneLineAct (Emitters.start [])
    (twoWrites 0 1)
    (fun s => LastHighest ((storedEvents []).map Event.seq ++ s.written.map Event.seq))
    (by decide +kernel)
  exact ⟨s, hrun, (replay_total_above .nil hrun).mpr hlast⟩

/-- Number 1 stands before number 0 in the file, and is given out again. -/
theorem number_reused :
    ∃ s, Runs emitterStep (Emitters.start []) (twoWrites 1 0) s ∧
      ∃ e ∈ storedEvents s.file, (eventbusInit true (some s.file)).total ≤ e.seq :=
  exists_runOk_of_exec emitterStep (fun _ _ => True) _ _
    (fun s => ∃ e ∈ storedEvents s.file, (eventbusInit true (some s.file)).total ≤ e.seq)
    (by decide +kernel)

end ContainerSim.EventBus
