import ContainerSim.EventBus.RecentJson

/-!
# The window of recent events

`eventbus_print_filtered` and `eventbus_json_recent` copy the counter into an
`unsigned`. The slots they go through are the right ones, as 256 divides 2 ^ 32,
but how many there are is taken from the copy: right after the counter passes a
multiple of 2 ^ 32 the two show fewer events than they are asked for.
-/

namespace ContainerSim.EventBus

open Lib ContainerSim.Web

/-! ## The printed table -/

/-- `%-<width>s`. -/
def padRight (width : Nat) (s : Bytes) : Bytes := s ++ List.replicate (width - s.length) 32

/-- `print_event`. -/
def printEvent (clock : Clock 20) (e : Event) : Bytes :=
  bytes "  [" ++ clock.text e.timestamp.toInt ++ bytes "] #" ++ padRight 4 (fmtNat e.seq) ++
    bytes "  " ++ padRight 30 (eventbusTypeName e.type) ++
    (if e.containerId ≠ [] then bytes "  id=" ++ padRight 18 e.containerId
      else bytes "  " ++ padRight 22 []) ++
    (if e.detail ≠ [] then bytes "  " ++ e.detail else []) ++
    (if e.value ≠ 0 then bytes "  (val=" ++ fmtInt e.value.toInt ++ bytes ")" else []) ++
    bytes "\n"

/-- The box-drawing rule below the heading. -/
def tableRule : Bytes := (List.replicate 69 [0xE2, 0x94, 0x80]).flatten

def tableHeading (typeFilter : Option EventType) : Bytes :=
  bytes "\n" ++
    (match typeFilter with
      | some type => bytes "  Filter : " ++ eventbusTypeName type ++ bytes "\n"
      | none => []) ++
    bytes "  " ++ padRight 8 (bytes "TIME") ++ bytes " " ++ padRight 4 (bytes "SEQ") ++
    bytes "  " ++ padRight 30 (bytes "EVENT") ++ bytes "  " ++ padRight 20 (bytes "CONTAINER") ++
    bytes "  DETAIL\n  " ++ tableRule ++ bytes "\n"

/-- The table of the events that pass the filter. -/
def eventTable (clock : Clock 20) (typeFilter : Option EventType) (es : List Event) : Bytes :=
  tableHeading typeFilter ++ es.flatMap (printEvent clock) ++
    (if es = [] then bytes "  (no matching events)\n" else []) ++ bytes "\n"

def noEventsText : Bytes := bytes "  (no events yet)\n\n"

/-- `eventbus_print_filtered`, `none` for `EVENT_TYPE_COUNT`: what it prints. -/
def eventbusPrintFiltered (clock : Clock 20) (b : Bus) (n : Int) (typeFilter : Option EventType) :
    Bytes :=
  if b.total % 2 ^ 32 = 0 then noEventsText
  else
    eventTable clock typeFilter
      ((recentEvents b n).filter fun e => typeFilter.all fun type => e.type = type)

/-! ## The window asked for -/

/-- How many events are asked for and there. -/
def windowSize (b : Bus) (n : Int) : Nat :=
  if n ≤ 0 then min b.total ringSize else min n.toNat (min b.total ringSize)

/-- The events with the last numbers. -/
def windowEvents (b : Bus) (n : Int) : List Event :=
  (List.range' (b.total - windowSize b n) (windowSize b n)).map b.ring.get

/-- The ring holds the last events in their slots. -/
def HoldsLast (b : Bus) : Prop :=
  ∀ s < b.total, b.total ≤ s + ringSize → (b.ring.get s).seq = s

/-- What `eventbus_print_filtered` prints of events without a filter. -/
def printedWindow (clock : Clock 20) (es : List Event) : Bytes :=
  if es = [] then noEventsText else eventTable clock none es

variable {b : Bus} {n : Int}

theorem windowSize_le (b : Bus) (n : Int) : windowSize b n ≤ b.total ∧ windowSize b n ≤ ringSize := by
  unfold windowSize
  split <;> omega

theorem windowEvents_seq (h : HoldsLast b) :
    (windowEvents b n).map Event.seq =
      List.range' (b.total - windowSize b n) (windowSize b n) := by
  obtain ⟨htotal, hring⟩ := windowSize_le b n
  unfold windowEvents
  rw [List.map_map]
  refine (List.map_congr_left fun s hs => ?_).trans (List.map_id _)
  obtain ⟨hlow, hhigh⟩ := List.mem_range'_1.mp hs
  exact h s (by omega) (by omega)

/-- The copy of the counter limits what is wanted. -/
theorem wantedEvents_eq : wantedEvents b n = min (windowSize b n) (b.total % 2 ^ 32) := by
  have hle : b.total % 2 ^ 32 ≤ b.total := Nat.mod_le _ _
  unfold wantedEvents windowSize
  simp only
  generalize b.total % 2 ^ 32 = t at *
  generalize hsize : ringSize = size
  by_cases hn : n ≤ 0
  · simp only [hn, true_or, if_true]
    split <;> omega
  · simp only [hn, false_or, if_false]
    split <;> split <;> omega

/-- Numbers modulo 2 ^ 32 have the slots of the numbers themselves. -/
theorem recentEvents_eq :
    recentEvents b n =
      (List.range' (b.total - wantedEvents b n) (wantedEvents b n)).map b.ring.get := by
  have hwanted := @wantedEvents_eq b n
  unfold recentEvents
  generalize wantedEvents b n = k at *
  apply List.ext_getElem
  · simp
  · intro i hi hi'
    simp only [List.getElem_map, List.getElem_range']
    -- the ring's size divides 2 ^ 32
    apply RingBuf.get_congr
    have hk : k ≤ b.total % 2 ^ 32 := by omega
    have hdiv := Nat.mod_add_div b.total (2 ^ 32)
    unfold ringSize
    omega

/-- What is shown is the end of the window. -/
theorem windowEvents_split :
    windowEvents b n =
      (List.range' (b.total - windowSize b n) (windowSize b n - wantedEvents b n)).map b.ring.get ++
        recentEvents b n := by
  obtain ⟨htotal, -⟩ := windowSize_le b n
  have hwanted := @wantedEvents_eq b n
  rw [recentEvents_eq, windowEvents, ← List.map_append]
  generalize wantedEvents b n = k at *
  have hstart : b.total - k = b.total - windowSize b n + (windowSize b n - k) := by omega
  rw [hstart, List.range'_append_1]
  congr 2
  omega

theorem recentEvents_length : (recentEvents b n).length = wantedEvents b n := by
  unfold recentEvents
  rw [List.length_map, List.length_range']

theorem windowEvents_length : (windowEvents b n).length = windowSize b n := by
  unfold windowEvents
  rw [List.length_map, List.length_range']

theorem recentEvents_eq_window (h : windowSize b n ≤ b.total % 2 ^ 32) :
    recentEvents b n = windowEvents b n := by
  have hwanted := @wantedEvents_eq b n
  rw [Nat.min_eq_left h] at hwanted
  rw [recentEvents_eq, hwanted]
  rfl

/-! ## What is printed -/

theorem length_flatMap_le (f : Event → Bytes) (es es' : List Event) :
    (es'.flatMap f).length ≤ ((es ++ es').flatMap f).length := by
  rw [List.flatMap_append, List.length_append]
  omega

theorem printEvent_ne_nil (clock : Clock 20) (e : Event) : 0 < (printEvent clock e).length := by
  unfold printEvent
  rw [List.length_append]
  exact Nat.lt_of_lt_of_le (by decide) (Nat.le_add_left (bytes "\n").length _)

theorem noEvents_short (clock : Clock 20) (es : List Event) :
    noEventsText.length < (eventTable clock none es).length := by
  have hheading : noEventsText.length < (tableHeading none).length := by decide +kernel
  unfold eventTable
  simp only [List.length_append]
  omega

/-- Fewer events take a shorter text. -/
theorem printedWindow_inj {clock : Clock 20} {es es' : List Event}
    (h : printedWindow clock (es ++ es') = printedWindow clock es') : es = [] := by
  by_contra hne
  obtain ⟨e, es, rfl⟩ := List.exists_cons_of_ne_nil hne
  have hfull : e :: es ++ es' ≠ [] := by simp
  have hlength := congrArg List.length h
  unfold printedWindow at hlength
  rw [if_neg hfull] at hlength
  split at hlength
  · -- without the rest of the events another text is printed
    exact absurd hlength.symm (Nat.ne_of_lt (noEvents_short clock _))
  · rename_i hes'
    unfold eventTable at hlength
    simp only [List.length_append, if_neg hfull, if_neg hes'] at hlength
    have hpos := printEvent_ne_nil clock e
    have hle := length_flatMap_le (printEvent clock) es es'
    rw [List.cons_append, List.flatMap_cons, List.length_append] at hlength
    omega

theorem eventbusPrintFiltered_none (clock : Clock 20) :
    eventbusPrintFiltered clock b n none = printedWindow clock (recentEvents b n) := by
  have hfilter : ((recentEvents b n).filter fun e =>
      (none : Option EventType).all fun type => e.type = type) = recentEvents b n :=
    List.filter_eq_self.mpr fun _ _ => rfl
  have hempty : recentEvents b n = [] ↔ b.total % 2 ^ 32 = 0 := by
    rw [← List.length_eq_zero_iff, recentEvents_length, wantedEvents_eq]
    have hle : b.total % 2 ^ 32 ≤ b.total := Nat.mod_le _ _
    unfold windowSize ringSize
    split <;> omega
  unfold eventbusPrintFiltered printedWindow
  rw [hfilter]
  simp only [hempty]

/-! ## What is written as JSON -/

theorem length_intercalate_cons (t : Bytes) (ts : List Bytes) :
    ([44].intercalate (t :: ts)).length = t.length + (ts.map fun u => u.length + 1).sum := by
  induction ts generalizing t with
  | nil => simp
  | cons u ts ih =>
    rw [List.intercalate_cons_cons, List.length_append, List.length_append, ih u, List.map_cons,
      List.sum_cons, List.length_singleton]
    omega

theorem length_intercalate_lt {t : Bytes} (ht : 0 < t.length) (ts us : List Bytes) :
    ([44].intercalate us).length < ([44].intercalate (t :: ts ++ us)).length := by
  rw [List.cons_append, length_intercalate_cons, List.map_append, List.sum_append]
  cases us with
  | nil =>
    show 0 < _
    omega
  | cons u us =>
    rw [length_intercalate_cons, List.map_cons, List.sum_cons]
    omega

/-- With room for all texts the whole list is written. -/
theorem writeEvents_large (clock : Clock 22) {es : List Event} {buf : Bytes}
    (hlen : (Json.array (es.map (eventText clock))).length + 256 < buf.length) :
    (writeEvents clock es buf).mem.take (writeEvents clock es buf).written =
      Json.array (es.map (eventText clock)) := by
  have htexts : es.filterMap (fun e => some (eventText clock e)) = es.map (eventText clock) :=
    congrFun List.filterMap_eq_map _
  have hbody : (OutBuf.body [91] (es.map (eventText clock))).length + 257 < buf.length := by
    rw [← body_array, List.length_append, List.length_singleton] at hlen
    omega
  have hwhole : OutBuf.Whole [91] [93] 256 buf.length (es.map (eventText clock)) := by
    refine ⟨fun pre t post hts => ?_, ?_⟩
    · have hle := OutBuf.length_body_le [91] pre (t :: post)
      rw [← hts] at hle
      omega
    · rw [List.length_singleton]
      omega
  obtain ⟨k, hheld, -, hend⟩ := @OutBuf.writeList_of_fits _ [91] [93] 256 buf.length
    (fun e => some (eventText clock e)) es buf rfl (htexts ▸ hwhole.fits)
  rw [htexts] at hheld hend
  rw [hwhole.begun.take_eq hend] at hheld
  exact hheld.take

/-- A buffer that is large enough gets the array of the events. -/
def WritesArray (clock : Clock 22) (b : Bus) (n : Int) (es : List Event) : Prop :=
  ∃ size : Nat, ∀ buf : Bytes, size ≤ buf.length →
    (eventbusJsonRecent clock b n buf).1.take (eventbusJsonRecent clock b n buf).2.toNat =
      Json.array (es.map (eventText clock))

theorem writesArray_recent (clock : Clock 22) : WritesArray clock b n (recentEvents b n) := by
  refine ⟨(Json.array ((recentEvents b n).map (eventText clock))).length + 257, fun buf hbuf => ?_⟩
  rw [eventbusJsonRecent, if_neg (by omega)]
  exact writeEvents_large clock (by omega)

theorem eventText_ne_nil (clock : Clock 22) (e : Event) : 0 < (eventText clock e).length := by
  show 0 < (123 :: _ : Bytes).length
  rw [List.length_cons]
  omega

/-- Fewer events make another array. -/
theorem writesArray_inj {clock : Clock 22} {es es' : List Event}
    (h : WritesArray clock b n (es ++ es')) (h' : WritesArray clock b n es') : es = [] := by
  by_contra hne
  obtain ⟨e, es, rfl⟩ := List.exists_cons_of_ne_nil hne
  obtain ⟨size, hsize⟩ := h
  obtain ⟨size', hsize'⟩ := h'
  -- one buffer that is large enough for both
  let buf : Bytes := List.replicate (max size size') 0
  have hbuf : buf.length = max size size' := List.length_replicate
  have heq := (hsize buf (by omega)).symm.trans (hsize' buf (by omega))
  have hlength := congrArg List.length heq
  have hlt := length_intercalate_lt (eventText_ne_nil clock e) (es.map (eventText clock))
    (es'.map (eventText clock))
  simp only [Json.array, List.length_cons, List.length_append, List.map_append, List.map_cons,
    List.cons_append] at hlength hlt
  omega

/-- What is shown is the window if nothing is missing in front of it. -/
theorem windowSize_le_of_split {es : List Event} (hes : windowEvents b n = es ++ recentEvents b n)
    (hnil : es = []) : windowSize b n ≤ b.total % 2 ^ 32 := by
  have hlength := congrArg List.length hes
  rw [hnil, List.nil_append, windowEvents_length, recentEvents_length, wantedEvents_eq] at hlength
  omega

theorem print_window_iff (clock : Clock 20) (b : Bus) (n : Int) :
    eventbusPrintFiltered clock b n none = printedWindow clock (windowEvents b n) ↔
      windowSize b n ≤ b.total % 2 ^ 32 := by
  rw [eventbusPrintFiltered_none]
  constructor
  · intro hprint
    rw [windowEvents_split] at hprint
    exact windowSize_le_of_split windowEvents_split (printedWindow_inj hprint.symm)
  · exact fun hle => by rw [recentEvents_eq_window hle]

theorem write_window_iff (clock : Clock 22) (b : Bus) (n : Int) :
    WritesArray clock b n (windowEvents b n) ↔ windowSize b n ≤ b.total % 2 ^ 32 := by
  constructor
  · intro hwrites
    rw [windowEvents_split] at hwrites
    exact windowSize_le_of_split windowEvents_split
      (writesArray_inj hwrites (writesArray_recent clock))
  · intro hle
    rw [← recentEvents_eq_window hle]
    exact writesArray_recent clock

/-- Both output exactly the window that is asked for if and only if it is no
longer than the counter modulo 2 ^ 32. -/
theorem recent_window_iff (h : HoldsLast b) (clock : Clock 20) (clock' : Clock 22) (n : Int) :
    (windowEvents b n).map Event.seq =
        List.range' (b.total - windowSize b n) (windowSize b n) ∧
      (eventbusPrintFiltered clock b n none = printedWindow clock (windowEvents b n) ↔
        windowSize b n ≤ b.total % 2 ^ 32) ∧
      (WritesArray clock' b n (windowEvents b n) ↔ windowSize b n ≤ b.total % 2 ^ 32) :=
  ⟨windowEvents_seq h, print_window_iff clock b n, write_window_iff clock' b n⟩

/-- The ring after so many events. -/
def busAt (total : Nat) : Bus where
  ring := ⟨fun i => { quietEvent with seq := total - 1 - (total - 1 + ringSize - i) % ringSize }⟩
  total := total

theorem holdsLast_busAt (total : Nat) : HoldsLast (busAt total) := by
  intro s hs hlast
  show total - 1 - (total - 1 + 256 - s % 256) % 256 = s
  have hbound : total ≤ s + 256 := hlast
  have hless : s < total := hs
  omega

def epochClock20 : Clock 20 where
  text := fun _ => bytes "00:00:00"
  length_lt := fun _ => by decide
  plain := fun _ => by decide

/-- The last three of the events after 2 ^ 32 and three more. -/
theorem recent_window_three :
    (windowEvents (busAt (2 ^ 32 + 3)) 3).map Event.seq =
        [2 ^ 32, 2 ^ 32 + 1, 2 ^ 32 + 2] ∧
      WritesArray zeroClock (busAt (2 ^ 32 + 3)) 3 (windowEvents (busAt (2 ^ 32 + 3)) 3) := by
  have hwindow := recent_window_iff (holdsLast_busAt (2 ^ 32 + 3)) epochClock20 zeroClock 3
  have hsize : windowSize (busAt (2 ^ 32 + 3)) 3 = 3 := by decide
  rw [hsize] at hwindow
  obtain ⟨hseq, -, hwrites⟩ := hwindow
  exact ⟨hseq, hwrites.mpr (by decide)⟩

/-- After 2 ^ 32 events none of them is shown. -/
theorem not_recent_window :
    ¬ ∀ (clock : Clock 20) (clock' : Clock 22) (b : Bus) (n : Int),
      b.total < 2 ^ 64 → HoldsLast b →
      eventbusPrintFiltered clock b n none = printedWindow clock (windowEvents b n) ∧
        WritesArray clock' b n (windowEvents b n) := by
  intro hclaim
  obtain ⟨-, hwrites⟩ := hclaim epochClock20 zeroClock (busAt (2 ^ 32)) 0 (by decide)
    (holdsLast_busAt _)
  have hle := (write_window_iff zeroClock _ _).mp hwrites
  revert hle
  decide

end ContainerSim.EventBus
