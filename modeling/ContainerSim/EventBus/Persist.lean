import ContainerSim.EventBus.Bus
import ContainerSim.Lib.Decimal
import ContainerSim.Lib.Lines

/-!
# events.log

`eventbus_emit` appends one line for each event, six fields between tabs, and
`eventbus_init` reads the file back: the last 256 lines that parse go to the
ring, each under its own number, and the counter goes on after the last line.
The line escapes nothing and has `-` for the empty string, so a container id or
a detail comes back only if it has no tab and no newline and is not `-`
(`Clean`). With that, and only then, the bus is rebuilt.
-/

namespace ContainerSim.EventBus

open Lib

/-! ## One line -/

/-- The `%s` of a string that may be empty. -/
def dashed (s : Bytes) : Bytes := if s ≠ [] then s else bytes "-"

/-- `strcmp(field, "-") == 0 ? "" : field`. -/
def undashed (field : Bytes) : Bytes := if field = bytes "-" then [] else field

def eventFields (e : Event) : List Bytes :=
  [fmtNat e.seq, fmtInt e.timestamp.toInt, eventbusTypeName e.type, dashed e.containerId,
    dashed e.detail, fmtInt e.value.toInt]

/-- The line of an event, without the newline. -/
def eventLine (e : Event) : Bytes := [9].intercalate (eventFields e)

/-- The type of a name, `none` for `EVENT_TYPE_COUNT`. -/
def typeOfName (name : Bytes) : Option EventType :=
  EventType.all.find? fun t => eventbusTypeName t = name

/-- `parse_event_line`. -/
def parseEventLine (line : Bytes) : Option Event :=
  match cutFields 9 6 line with
  | [seq, timestamp, type, containerId, detail, value] =>
    (typeOfName type).map fun type =>
      { type
        timestamp := strtol timestamp
        containerId := snprintfStr 64 (undashed containerId)
        detail := snprintfStr detailLen (undashed detail)
        value := strtol (value.takeWhile (· ≠ 10))
        seq := strtoul seq }
  | _ => none

/-! ## The file -/

/-- The rolling window of `replay_events_file`. -/
structure Window where
  ring : RingBuf ringSize Event
  count : Nat

def Window.empty : Window := { ring := ⟨fun _ => .zero⟩, count := 0 }

def Window.read (w : Window) (line : Bytes) : Window :=
  match parseEventLine line with
  | some e => { ring := w.ring.put w.count e, count := w.count + 1 }
  | none => w

/-- `replay_events_file`: `file` is what `fopen` finds and `calloc` whether the
window can be allocated. -/
def replayEventsFile (file : Option Bytes) (calloc : Bool) (b : Bus) : Bus :=
  match file with
  | none => b
  | some file =>
    if !calloc then b
    else
      let w := (chunks 512 file).foldl Window.read .empty
      if w.count = 0 then b
      else
        let loaded := if w.count < ringSize then w.count else ringSize
        let start := w.count - loaded
        let entries := (List.range loaded).map fun i => w.ring.get (start + i)
        { ring := entries.foldl (fun ring e => ring.put e.seq e) b.ring
          total := ((w.ring.get (start + loaded - 1)).seq + 1) % 2 ^ 64 }

/-- `eventbus_init`. -/
def eventbusInit (calloc : Bool) (file : Option Bytes) : Bus :=
  replayEventsFile file calloc .empty

/-- The bus and the file of a process. -/
structure Log where
  bus : Bus
  file : Bytes

/-- An empty bus with an empty `events.log` open. -/
def Log.empty : Log := { bus := .empty, file := [] }

/-- `eventbus_emit`, the line included. -/
def eventbusEmit (l : Log) (call : Emit) : Log :=
  let (bus, e) := l.bus.publish call
  { bus, file := l.file ++ (eventLine e ++ [10]) }

def emitAll (calls : List Emit) : Log := calls.foldl eventbusEmit .empty

/-! ## Strings that come back -/

/-- A string that stays within its field. -/
def OneField (s : Bytes) : Prop := (9 : UInt8) ∉ s ∧ (10 : UInt8) ∉ s

/-- A string that its field stands for. -/
def Clean (s : Bytes) : Prop := OneField s ∧ s ≠ bytes "-"

instance (s : Bytes) : Decidable (OneField s) := by unfold OneField; infer_instance
instance (s : Bytes) : Decidable (Clean s) := by unfold Clean; infer_instance

def Event.Clean (e : Event) : Prop := EventBus.Clean e.containerId ∧ EventBus.Clean e.detail

/-- The container id and the detail of a call, as they are stored, are clean. -/
def Emit.Clean (call : Emit) : Prop := (call.event 0).Clean

instance (call : Emit) : Decidable call.Clean := by
  unfold Emit.Clean Event.Clean
  infer_instance

theorem clean_event (call : Emit) (seq : Nat) : (call.event seq).Clean ↔ call.Clean := Iff.rfl

theorem Clean.undashed_dashed {s : Bytes} (h : Clean s) : undashed (dashed s) = s := by
  by_cases hnil : s = []
  · subst hnil
    rfl
  · rw [dashed, if_pos hnil, undashed, if_neg h.2]

theorem OneField.dashed {s : Bytes} (h : OneField s) : OneField (dashed s) := by
  by_cases hnil : s = []
  · subst hnil
    decide
  · rw [EventBus.dashed, if_pos hnil]
    exact h

/-- What a field stands for is clean after the cut, too. -/
theorem clean_undashed {field : Bytes} (h : OneField field) {size : Nat} (hsize : 3 ≤ size) :
    Clean (snprintfStr size (undashed field)) := by
  by_cases hdash : field = bytes "-"
  · rw [undashed, if_pos hdash, snprintfStr, List.take_nil]
    decide
  · rw [undashed, if_neg hdash]
    refine ⟨⟨fun hmem => h.1 (List.mem_of_mem_take hmem), fun hmem => h.2 (List.mem_of_mem_take hmem)⟩,
      fun heq => hdash ?_⟩
    have hlen := congrArg List.length heq
    rw [snprintfStr, List.length_take] at hlen
    have hone : (bytes "-").length = 1 := rfl
    rw [hone] at hlen
    rw [← heq, snprintfStr, List.take_of_length_le (by omega)]

theorem typeOfName_typeName (t : EventType) : typeOfName (eventbusTypeName t) = some t := by
  cases t <;> rfl

theorem oneField_typeName (t : EventType) : OneField (eventbusTypeName t) := by
  cases t <;> decide

theorem typeName_length_le (t : EventType) : (eventbusTypeName t).length ≤ 24 := by
  cases t <;> decide

theorem oneField_fmtNat (n : Nat) : OneField (fmtNat n) := by
  constructor
  · intro hmem
    simpa [isSpace] using isSpace_of_mem_fmtNat hmem
  · intro hmem
    simpa [isSpace] using isSpace_of_mem_fmtNat hmem

theorem oneField_fmtInt (i : Int) : OneField (fmtInt i) := by
  constructor
  · intro hmem
    simpa [isSpace] using isSpace_of_mem_fmtInt hmem
  · intro hmem
    simpa [isSpace] using isSpace_of_mem_fmtInt hmem

/-! ## Reading a line back -/

theorem eventLine_eq (e : Event) :
    eventLine e = fmtNat e.seq ++ 9 :: (fmtInt e.timestamp.toInt ++ 9 ::
      (eventbusTypeName e.type ++ 9 :: (dashed e.containerId ++ 9 ::
        (dashed e.detail ++ 9 :: fmtInt e.value.toInt)))) := by
  simp [eventLine, eventFields, List.intercalate_cons_cons]

/-- What the C types promise of a stored event. -/
structure Event.Stored (e : Event) : Prop where
  seq : e.seq < 2 ^ 64
  containerId : e.containerId.length ≤ 63
  detail : e.detail.length ≤ 127

theorem stored_event (call : Emit) {seq : Nat} (h : seq < 2 ^ 64) : (call.event seq).Stored where
  seq := h
  containerId := snprintfStr_length_le _ _
  detail := snprintfStr_length_le _ _

theorem eventLine_fits {e : Event} (h : e.Stored) : (eventLine e).length + 2 ≤ 512 := by
  have hseq : (fmtNat e.seq).length ≤ 20 := by
    have hlt := h.seq
    exact fmtNat_length_le (by omega) (by omega)
  have hts := fmtInt_length_le e.timestamp
  have hvalue := fmtInt_length_le e.value
  have htype := typeName_length_le e.type
  have hdash : ∀ {s : Bytes} {k : Nat}, 1 ≤ k → s.length ≤ k → (dashed s).length ≤ k := by
    intro s k hk hs
    unfold dashed
    split
    · exact hs
    · exact hk
  have hid := hdash (by omega) h.containerId
  have hdetail := hdash (by omega) h.detail
  rw [eventLine_eq]
  simp only [List.length_append, List.length_cons]
  omega

/-- Newlines come from the two strings only. -/
theorem eventLine_newline {e : Event} (hid : (10 : UInt8) ∉ e.containerId)
    (hdetail : (10 : UInt8) ∉ e.detail) : (10 : UInt8) ∉ eventLine e := by
  have hdash : ∀ {s : Bytes}, (10 : UInt8) ∉ s → (10 : UInt8) ∉ dashed s := by
    intro s hs
    unfold dashed
    split
    · exact hs
    · decide
  have hseq := (oneField_fmtNat e.seq).2
  have hts := (oneField_fmtInt e.timestamp.toInt).2
  have htype := (oneField_typeName e.type).2
  have hvalue := (oneField_fmtInt e.value.toInt).2
  rw [eventLine_eq]
  simp [hseq, hts, htype, hvalue, hdash hid, hdash hdetail]

/-- The first three fields are read whatever the two strings are. -/
theorem cutFields_eventLine (e : Event) (tail : Bytes) :
    cutFields 9 6 (eventLine e ++ tail) =
      fmtNat e.seq :: fmtInt e.timestamp.toInt :: eventbusTypeName e.type ::
        cutFields 9 3 (dashed e.containerId ++ 9 ::
          (dashed e.detail ++ 9 :: (fmtInt e.value.toInt ++ tail))) := by
  rw [eventLine_eq]
  simp only [List.append_assoc, List.cons_append]
  rw [cutFields_sep (oneField_fmtNat _).1, cutFields_sep (oneField_fmtInt _).1,
    cutFields_sep (oneField_typeName _).1]

/-- A clean event comes back. -/
theorem parseEventLine_eventLine {e : Event} (hs : e.Stored) (hc : e.Clean) :
    parseEventLine (eventLine e ++ [10]) = some e := by
  have hvalue := oneField_fmtInt e.value.toInt
  have hlast : (9 : UInt8) ∉ fmtInt e.value.toInt ++ [10] := by
    simp [hvalue.1]
  have hstrip : (fmtInt e.value.toInt ++ [10]).takeWhile (· ≠ 10) = fmtInt e.value.toInt := by
    rw [List.takeWhile_append_of_pos]
    · simp
    · intro c hmem
      exact decide_eq_true fun h : c = 10 => hvalue.2 (h ▸ hmem)
  unfold parseEventLine
  rw [cutFields_eventLine, cutFields_sep hc.1.1.dashed.1, cutFields_sep hc.2.1.dashed.1,
    cutFields_last hlast]
  show (typeOfName (eventbusTypeName e.type)).map _ = some e
  rw [typeOfName_typeName, hstrip, strtol_fmtInt, strtol_fmtInt, strtoul_fmtNat hs.seq,
    hc.1.undashed_dashed, hc.2.undashed_dashed, snprintfStr_eq_self hs.containerId,
    snprintfStr_eq_self hs.detail]
  rfl

/-- Only clean strings come out of a piece of a file. -/
theorem clean_of_parse {line : Bytes} (hline : (10 : UInt8) ∉ line.dropLast) {e : Event}
    (h : parseEventLine line = some e) : e.Clean := by
  obtain ⟨hsep, hbefore⟩ := cutFields_spec 9 6 line
  unfold parseEventLine at h
  split at h
  · rename_i seq timestamp type containerId detail value hcut
    rw [hcut] at hsep hbefore
    obtain ⟨t, -, rfl⟩ := Option.map_eq_some_iff.mp h
    have hfield : ∀ f, f = containerId ∨ f = detail → OneField f := by
      intro f hf
      have hmem : f ∈ [seq, timestamp, type, containerId, detail] := by
        rcases hf with rfl | rfl
        · simp
        · simp
      refine ⟨hsep f ?_, fun hnl => hline (hbefore f hmem 10 hnl)⟩
      rcases hf with rfl | rfl
      · simp
      · simp
    exact ⟨clean_undashed (hfield _ (.inl rfl)) (by omega),
      clean_undashed (hfield _ (.inr rfl)) (by decide)⟩
  · cases h

end ContainerSim.EventBus
