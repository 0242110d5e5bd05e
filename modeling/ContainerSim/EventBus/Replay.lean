import ContainerSim.EventBus.Persist

/-!
# What a replay rebuilds

`storedEvents` are the events of the lines that parse. A replay is a function
of them alone (`eventbusInit_stored`): the ring gets the last 256, the counter
the number after the last. For the file of a sequence of calls these are the
events emitted, as far as they are clean.
-/

namespace ContainerSim.EventBus

open Lib

/-- The events of the lines of a file that parse, in the order of the lines. -/
def storedEvents (file : Bytes) : List Event := (chunks 512 file).filterMap parseEventLine

/-! ## The rolling window -/

theorem read_all (w : Window) (lines : List Bytes) :
    lines.foldl Window.read w =
      { ring := w.ring.fill w.count (lines.filterMap parseEventLine)
        count := w.count + (lines.filterMap parseEventLine).length } := by
  induction lines generalizing w with
  | nil => rfl
  | cons line lines ih =>
    rw [List.foldl_cons, ih]
    cases hparse : parseEventLine line with
    | none => simp [Window.read, hparse]
    | some e =>
      simp only [Window.read, hparse, List.filterMap_cons_some hparse, List.length_cons]
      rw [Nat.add_assoc, Nat.add_comm 1]
      rfl

/-- The window holds the last events that parse. -/
theorem window_entries {r : RingBuf ringSize Event} {es : List Event} {loaded : Nat}
    (hloaded : loaded = if es.length < ringSize then es.length else ringSize) :
    ((List.range loaded).map fun i => (r.fill 0 es).get (es.length - loaded + i)) =
      es.drop (es.length - ringSize) := by
  have hstart : es.length - loaded = es.length - ringSize := by
    split at hloaded <;> omega
  have hle : loaded ≤ es.length := by
    split at hloaded <;> omega
  rw [hstart]
  apply List.ext_getElem
  · simp only [List.length_map, List.length_range, List.length_drop]
    omega
  · intro i hi hi'
    simp only [List.length_drop] at hi'
    simp only [List.getElem_map, List.getElem_range, List.getElem_drop]
    have hget := RingBuf.get_fill r 0 es (k := es.length - ringSize + i) (by omega) (by omega)
    rw [Nat.zero_add] at hget
    exact hget

theorem eventbusInit_nil {file : Bytes} (h : storedEvents file = []) :
    eventbusInit true (some file) = .empty := by
  unfold storedEvents at h
  simp [eventbusInit, replayEventsFile, read_all, h, Window.empty]

/-- The ring gets the last 256 stored events, the counter the number after the
last of them. -/
theorem eventbusInit_stored {file : Bytes} {es : List Event} {last : Event}
    (h : storedEvents file = es ++ [last]) :
    eventbusInit true (some file) =
      { ring := ((es ++ [last]).drop ((es ++ [last]).length - ringSize)).foldl
          (fun ring e => ring.put e.seq e) Bus.empty.ring
        total := (last.seq + 1) % 2 ^ 64 } := by
  have hread : (chunks 512 file).foldl Window.read .empty =
      { ring := Window.empty.ring.fill 0 (es ++ [last]), count := (es ++ [last]).length } := by
    rw [read_all, ← storedEvents, h]
    show _ = Window.mk _ _
    rw [Window.empty, Nat.zero_add]
  have hne : (es ++ [last]).length ≠ 0 := by simp
  have hlast : (Window.empty.ring.fill 0 (es ++ [last])).get ((es ++ [last]).length - 1) = last := by
    have hget := RingBuf.get_fill Window.empty.ring 0 (es ++ [last])
      (k := (es ++ [last]).length - 1) (by omega) (by have := ringSize_pos; omega)
    rw [Nat.zero_add] at hget
    rw [hget]
    simp
  unfold eventbusInit replayEventsFile
  simp only [Bool.not_true, Bool.false_eq_true, if_false, hread, if_neg hne]
  rw [window_entries rfl]
  have hend : ∀ loaded, loaded = (if (es ++ [last]).length < ringSize then (es ++ [last]).length
      else ringSize) → (es ++ [last]).length - loaded + loaded - 1 = (es ++ [last]).length - 1 := by
    intro loaded hl
    split at hl <;> omega
  rw [hend _ rfl, hlast]

/-! ## The file of a sequence of calls -/

theorem storedEvents_append {f : Bytes} (hf : Complete f) (g : Bytes) :
    storedEvents (f ++ g) = storedEvents f ++ storedEvents g := by
  rw [storedEvents, chunks_append (by omega) hf, List.filterMap_append]
  rfl

/-- The lines of a list of events. -/
def eventLines (es : List Event) : Bytes := es.flatMap fun e => eventLine e ++ [10]

theorem complete_eventLines (es : List Event) : Complete (eventLines es) := by
  rcases List.eq_nil_or_concat es with rfl | ⟨es, e, rfl⟩
  · exact .nil
  · rw [eventLines, List.concat_eq_append, List.flatMap_append, List.flatMap_singleton]
    exact .append_line _

theorem eventLines_append (es es' : List Event) :
    eventLines (es ++ es') = eventLines es ++ eventLines es' :=
  List.flatMap_append

theorem chunks_eventLines {es : List Event} (hstored : ∀ e ∈ es, e.Stored)
    (hnl : ∀ e ∈ es, (10 : UInt8) ∉ e.containerId ∧ (10 : UInt8) ∉ e.detail) :
    chunks 512 (eventLines es) = es.map fun e => eventLine e ++ [10] := by
  have hrows : ∀ r ∈ es.map eventLine, r.length + 2 ≤ 512 ∧ (10 : UInt8) ∉ r := by
    intro r hr
    obtain ⟨e, he, rfl⟩ := List.mem_map.mp hr
    exact ⟨eventLine_fits (hstored e he), eventLine_newline (hnl e he).1 (hnl e he).2⟩
  have hlines := chunks_lines hrows
  rw [List.flatMap_map, List.map_map] at hlines
  exact hlines

/-- Clean events come back in order. -/
theorem storedEvents_clean {es : List Event} (hstored : ∀ e ∈ es, e.Stored)
    (hclean : ∀ e ∈ es, e.Clean) : storedEvents (eventLines es) = es := by
  rw [storedEvents, chunks_eventLines hstored fun e he =>
    ⟨(hclean e he).1.1.2, (hclean e he).2.1.2⟩, List.filterMap_map]
  have hsome : ∀ e ∈ es, (parseEventLine ∘ fun e => eventLine e ++ [10]) e = some e :=
    fun e he => parseEventLine_eventLine (hstored e he) (hclean e he)
  rw [List.filterMap_congr hsome]
  exact List.filterMap_some

theorem emitAll_eq (calls : List Emit) :
    (emitAll calls).bus = calls.foldl (fun b call => (b.publish call).1) .empty ∧
      (emitAll calls).file = eventLines (eventsFrom 0 calls) := by
  have hall : ∀ (l : Log) (done : List Event), l.bus.total < 2 ^ 64 → l.file = eventLines done →
      (calls.foldl eventbusEmit l).bus = calls.foldl (fun b call => (b.publish call).1) l.bus ∧
      (calls.foldl eventbusEmit l).file =
        eventLines (done ++ eventsFrom l.bus.total calls) := by
    induction calls with
    | nil =>
      intro l done hl hfile
      rw [eventsFrom, List.append_nil]
      exact ⟨rfl, hfile⟩
    | cons call calls ih =>
      intro l done hl hfile
      have hnext := ih (eventbusEmit l call) (done ++ [call.event l.bus.total])
        (Nat.mod_lt _ (by omega)) (by
          show l.file ++ _ = _
          rw [hfile, eventLines_append]
          simp [eventLines])
      rw [List.append_assoc] at hnext
      exact hnext
  have h := hall .empty [] (by decide) rfl
  rw [List.nil_append] at h
  exact h

theorem stored_eventsFrom {start : Nat} (hstart : start < 2 ^ 64) {calls : List Emit} {e : Event}
    (h : e ∈ eventsFrom start calls) : e.Stored := by
  induction calls generalizing start with
  | nil => simp [eventsFrom] at h
  | cons call calls ih =>
    rcases List.mem_cons.mp h with rfl | h
    · exact stored_event call hstart
    · exact ih (Nat.mod_lt _ (by omega)) h

/-- Events stored under their own numbers fill the ring in turn. -/
theorem foldl_put_eventsFrom (r : RingBuf ringSize Event) {start : Nat} (hstart : start < 2 ^ 64)
    (calls : List Emit) :
    (eventsFrom start calls).foldl (fun ring e => ring.put e.seq e) r =
      r.fill start (eventsFrom start calls) := by
  induction calls generalizing r start with
  | nil => rfl
  | cons call calls ih =>
    have hslot : (start + 1) % 2 ^ 64 % ringSize = (start + 1) % ringSize :=
      Nat.mod_mod_of_dvd _ ⟨2 ^ 56, rfl⟩
    show (eventsFrom _ calls).foldl _ (r.put start (call.event start)) = _
    rw [ih _ (Nat.mod_lt _ (by omega)), RingBuf.fill_congr _ _ hslot]
    rfl

/-! ## The round trip -/

/-- The bus after the replay is the one before it, as far as the ring reaches. -/
structure Rebuilt (old new : Bus) : Prop where
  total : new.total = old.total
  ring : ∀ seq, seq < old.total → old.total ≤ seq + ringSize →
    new.ring.get seq = old.ring.get seq

/-- A replay of a run of calls that has the ring to itself: no event stands
before it, or it is a full round. -/
theorem eventbusInit_recent {file : Bytes} {old : List Event} {start : Nat}
    (hstart : start < 2 ^ 64) {calls : List Emit} (hne : calls ≠ [])
    (hstored : storedEvents file = old ++ eventsFrom start calls)
    (hlen : calls.length ≤ ringSize) (hold : old ≠ [] → calls.length = ringSize) :
    eventbusInit true (some file) =
      { ring := Bus.empty.ring.fill start (eventsFrom start calls)
        total := (start + calls.length) % 2 ^ 64 } := by
  have hwindow : (old ++ eventsFrom start calls).drop
      ((old ++ eventsFrom start calls).length - ringSize) = eventsFrom start calls := by
    rw [List.length_append, eventsFrom_length]
    by_cases hnil : old = []
    · have hzero : calls.length - ringSize = 0 := by omega
      rw [hnil, List.nil_append, List.length_nil, Nat.zero_add, hzero, List.drop_zero]
    · rw [hold hnil, Nat.add_sub_cancel, List.drop_left]
  obtain ⟨init, final, rfl⟩ : ∃ init final, calls = init ++ [final] :=
    ⟨_, _, (List.dropLast_append_getLast hne).symm⟩
  have hsnoc : eventsFrom start (init ++ [final]) =
      eventsFrom start init ++ [final.event ((start + init.length) % 2 ^ 64)] :=
    eventsFrom_append hstart init [final]
  have hcat : old ++ eventsFrom start (init ++ [final]) =
      (old ++ eventsFrom start init) ++ [final.event ((start + init.length) % 2 ^ 64)] := by
    rw [hsnoc, List.append_assoc]
  rw [eventbusInit_stored (hstored.trans hcat), ← hcat, hwindow, foldl_put_eventsFrom _ hstart]
  have htotal : ((final.event ((start + init.length) % 2 ^ 64)).seq + 1) % 2 ^ 64 =
      (start + (init ++ [final]).length) % 2 ^ 64 := by
    show ((start + init.length) % 2 ^ 64 + 1) % 2 ^ 64 = _
    rw [Nat.mod_add_mod, List.length_append, List.length_singleton, Nat.add_assoc]
  rw [htotal]

/-- The whole bus comes back when the last 256 events are clean. -/
theorem eventbusInit_emitAll {calls : List Emit}
    (hclean : ∀ call ∈ calls.drop (calls.length - ringSize), call.Clean) :
    eventbusInit true (some (emitAll calls).file) = (emitAll calls).bus := by
  obtain ⟨hbus, hfile⟩ := emitAll_eq calls
  rw [publish_all _ (by decide)] at hbus
  by_cases hnil : calls = []
  · subst hnil
    exact eventbusInit_nil rfl
  generalize hk : calls.length - ringSize = k at hclean
  have hpos : calls.length ≠ 0 := fun h => hnil (List.length_eq_zero_iff.mp h)
  have hround := ringSize_pos
  have hktake : (calls.take k).length = k := by
    rw [List.length_take]
    omega
  have hkdrop : (calls.drop k).length = calls.length - k := List.length_drop
  have hstart : k % 2 ^ 64 < 2 ^ 64 := Nat.mod_lt _ (by omega)
  have hsplit : eventsFrom 0 calls =
      eventsFrom 0 (calls.take k) ++ eventsFrom (k % 2 ^ 64) (calls.drop k) := by
    have hzero : 0 < 2 ^ 64 := by decide
    have h := eventsFrom_append hzero (calls.take k) (calls.drop k)
    rw [List.take_append_drop, hktake, Nat.zero_add] at h
    exact h
  -- what stands before the last 256 lines need not parse
  have hrecent : storedEvents (eventLines (eventsFrom (k % 2 ^ 64) (calls.drop k))) =
      eventsFrom (k % 2 ^ 64) (calls.drop k) := by
    apply storedEvents_clean
    · exact fun e he => stored_eventsFrom hstart he
    · intro e he
      obtain ⟨call, hcall, seq, rfl⟩ := mem_eventsFrom he
      exact hclean call hcall
  have hstored : storedEvents (emitAll calls).file =
      storedEvents (eventLines (eventsFrom 0 (calls.take k))) ++
        eventsFrom (k % 2 ^ 64) (calls.drop k) := by
    rw [hfile, hsplit, eventLines_append, storedEvents_append (complete_eventLines _), hrecent]
  have hold : storedEvents (eventLines (eventsFrom 0 (calls.take k))) ≠ [] →
      (calls.drop k).length = ringSize := by
    intro hne
    have hkpos : k ≠ 0 := by
      rintro rfl
      exact hne rfl
    omega
  have hne : calls.drop k ≠ [] := by
    intro h
    rw [h, List.length_nil] at hkdrop
    omega
  rw [eventbusInit_recent hstart hne hstored (by omega) hold, hbus]
  have hslot : k % 2 ^ 64 % ringSize = (0 + k) % ringSize := by
    rw [Nat.zero_add]
    exact Nat.mod_mod_of_dvd _ ⟨2 ^ 56, rfl⟩
  have hdrop : (eventsFrom 0 calls).drop k = eventsFrom (k % 2 ^ 64) (calls.drop k) := by
    rw [hsplit, List.drop_append_of_le_length (by rw [eventsFrom_length, hktake]),
      List.drop_of_length_le (by rw [eventsFrom_length, hktake]), List.nil_append]
  have hring := RingBuf.fill_drop Bus.empty.ring 0 (eventsFrom 0 calls)
  rw [eventsFrom_length, hk, hdrop] at hring
  have htotal : (k % 2 ^ 64 + (calls.drop k).length) % 2 ^ 64 = (0 + calls.length) % 2 ^ 64 := by
    have hsum : k + (calls.length - k) = 0 + calls.length := by omega
    rw [Nat.mod_add_mod, hkdrop, hsum]
  rw [RingBuf.fill_congr _ _ hslot, hring, htotal]
  rfl

/-- What a replay puts into the ring is clean, whatever the file. -/
theorem clean_of_replay (calloc : Bool) (file : Option Bytes) (seq : Nat) :
    ((eventbusInit calloc file).ring.get seq).Clean := by
  have hzero : Event.zero.Clean := by
    unfold Event.Clean
    decide
  cases file with
  | none => exact hzero
  | some file =>
    cases calloc with
    | false => exact hzero
    | true =>
      rcases List.eq_nil_or_concat (storedEvents file) with hnil | ⟨es, last, hes⟩
      · rw [eventbusInit_nil hnil]
        exact hzero
      · rw [List.concat_eq_append] at hes
        rw [eventbusInit_stored hes, ← hes]
        have hstored : ∀ e ∈ (storedEvents file).drop ((storedEvents file).length - ringSize),
            e.Clean := by
          intro e he
          obtain ⟨line, hline, hparse⟩ := List.mem_filterMap.mp (List.mem_of_mem_drop he)
          exact clean_of_parse (chunks_newline (by omega) hline) hparse
        generalize (storedEvents file).drop _ = entries at hstored ⊢
        -- a slot holds zeros or an event of the file
        have hfold : ∀ r : RingBuf ringSize Event, (r.get seq).Clean →
            ((entries.foldl (fun ring e => ring.put e.seq e) r).get seq).Clean := by
          induction entries with
          | nil => exact fun r hr => hr
          | cons e entries ih =>
            intro r hr
            rw [List.foldl_cons]
            apply ih fun e he => hstored e (List.mem_cons_of_mem _ he)
            by_cases hslot : seq % ringSize = e.seq % ringSize
            · rw [RingBuf.get_congr _ hslot, RingBuf.get_put_self]
              exact hstored e List.mem_cons_self
            · rw [RingBuf.get_put_of_ne _ _ hslot]
              exact hr
        exact hfold _ hzero

/-- An event that is still in the ring is there as it was emitted. -/
theorem emitAll_get {calls : List Emit} (hn : calls.length < 2 ^ 64) {seq : Nat}
    (hseq : seq < calls.length) (hlast : calls.length ≤ seq + ringSize) :
    (emitAll calls).bus.ring.get seq = calls[seq].event seq := by
  obtain ⟨hbus, -⟩ := emitAll_eq calls
  rw [publish_all _ (by decide)] at hbus
  rw [hbus]
  have hlen : (eventsFrom 0 calls).length = calls.length := eventsFrom_length 0 calls
  have hget := RingBuf.get_fill Bus.empty.ring 0 (eventsFrom 0 calls) (k := seq) (by omega)
    (by omega)
  have hzero : 0 < 2 ^ 64 := by decide
  have hevent := eventsFrom_get hzero hseq
  rw [Nat.zero_add, Nat.mod_eq_of_lt (by omega), List.getElem?_eq_getElem (by omega)] at hevent
  rw [Nat.zero_add, Option.some.inj hevent] at hget
  exact hget

/-- **Event persistence round-trips**, exactly when the last 256 events are
clean. The way back is told as long as the counter has not wrapped, when the
ring reaches back over all of them. -/
theorem events_round_trip (calls : List Emit) :
    ((∀ call ∈ calls.drop (calls.length - ringSize), call.Clean) →
      Rebuilt (emitAll calls).bus (eventbusInit true (some (emitAll calls).file))) ∧
    (calls.length < 2 ^ 64 →
      Rebuilt (emitAll calls).bus (eventbusInit true (some (emitAll calls).file)) →
      ∀ call ∈ calls.drop (calls.length - ringSize), call.Clean) := by
  constructor
  · intro hclean
    rw [eventbusInit_emitAll hclean]
    exact ⟨rfl, fun _ _ _ => rfl⟩
  · intro hn hrebuilt call hcall
    obtain ⟨k, hk, rfl⟩ := List.mem_iff_getElem.mp hcall
    rw [List.length_drop] at hk
    have htotal : (emitAll calls).bus.total = calls.length := by
      rw [(emitAll_eq calls).1, publish_all _ (by decide)]
      show (0 + calls.length) % 2 ^ 64 = calls.length
      rw [Nat.zero_add, Nat.mod_eq_of_lt hn]
    have hget := hrebuilt.ring (calls.length - ringSize + k) (by omega) (by omega)
    have hclean := clean_of_replay true (some (emitAll calls).file) (calls.length - ringSize + k)
    rw [hget, emitAll_get hn (by omega) (by omega)] at hclean
    rw [List.getElem_drop]
    exact (clean_event _ _).mp hclean

/-- A service of the name `-` is started. -/
def dashEmit : Emit :=
  { type := .orchSvcStarted, containerId := bytes "-", detail := bytes "container-0001",
    value := 0, now := 0 }

/-- Its event comes back without the name. -/
theorem dash_forgotten :
    ¬ Rebuilt (emitAll [dashEmit]).bus (eventbusInit true (some (emitAll [dashEmit]).file)) := by
  intro h
  have hid := congrArg Event.containerId (h.ring 0 (by decide) (by decide))
  have hold : ((emitAll [dashEmit]).bus.ring.get 0).containerId = bytes "-" := by rfl
  have hnew : ((eventbusInit true (some (emitAll [dashEmit]).file)).ring.get 0).containerId = [] := by
    decide +kernel
  rw [hold, hnew] at hid
  cases hid

end ContainerSim.EventBus
