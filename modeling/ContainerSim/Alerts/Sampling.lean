import ContainerSim.Alerts.Table
import ContainerSim.EventBus.Bus
import ContainerSim.Lib.Decimal
import Mathlib.Order.Defs.LinearOrder

/-!
# Alerts under samples

`alert_check_sample` compares a sample with every active alert of its container
and emits an event when the alert goes over its threshold or back under it. A
slot keeps its alert until the alert is set again or cleared, and its events
alternate as long as the samples carry the id that the slot has kept.
-/

namespace ContainerSim.Alerts

open Lib EventBus

/-- `"%.1f"`, `"%.0f"` and `(long)` of a `double`. -/
structure DoubleOps (Threshold : Type) where
  oneDigit : Threshold → Bytes
  noDigit : Threshold → Bytes
  long : Threshold → Int64

/-- The arguments of `alert_check_sample` and the time it reads; `none` is a
NULL pointer. -/
structure Sample (Threshold : Type) where
  id : Option Bytes
  hasCpuPct : Bool
  cpuPct : Threshold
  rssMb : Threshold
  now : Int64

/-- What `alert_check_sample` leaves, emits and returns. The slot of an event
is not part of the program. -/
structure Checked (Threshold : Type) where
  alerts : List (Alert Threshold)
  events : List (Nat × Emit)
  transitions : Nat

section
variable {Threshold : Type} [LinearOrder Threshold] (ops : DoubleOps Threshold)

/-- `value` -/
def Sample.value (x : Sample Threshold) : AlertMetric → Threshold
  | .cpu => x.cpuPct
  | .mem => x.rssMb

/-- `detail` -/
def sampleDetail (x : Sample Threshold) (a : Alert Threshold) (isOver : Bool) : Bytes :=
  snprintfStr 64 <|
    match a.metric with
    | .cpu =>
      bytes "cpu=" ++ ops.oneDigit x.cpuPct ++ bytes (if isOver then "% >= " else "% < ") ++
        ops.oneDigit a.threshold ++ bytes "%"
    | .mem =>
      bytes "rss=" ++ ops.oneDigit x.rssMb ++ bytes (if isOver then "MB >= " else "MB < ") ++
        ops.noDigit a.threshold ++ bytes "MB"

/-- The arguments of the `eventbus_emit` of a slot. -/
def sampleEmit (id : Bytes) (x : Sample Threshold) (a : Alert Threshold) (isOver : Bool) : Emit :=
  { type := if isOver then .alertFired else .alertResolved
    containerId := id
    detail := sampleDetail ops x a isOver
    value := ops.long (x.value a.metric)
    now := x.now }

/-- The body of the loop of `alert_check_sample`. -/
def checkSlot (id : Bytes) (x : Sample Threshold) (a : Alert Threshold) :
    Alert Threshold × Option Emit :=
  if !a.active then (a, none)
  else if a.containerId ≠ id then (a, none)
  else if a.metric = .cpu ∧ x.hasCpuPct = false then (a, none)
  else
    let isOver := decide (a.threshold ≤ x.value a.metric)
    if isOver && !a.firing then
      ({ a with firing := true, firedAt := x.now.toInt }, some (sampleEmit ops id x a true))
    else if !isOver && a.firing then
      ({ a with firing := false }, some (sampleEmit ops id x a false))
    else (a, none)

/-- The loop of `alert_check_sample` from slot `i` on. -/
def checkLoop (id : Bytes) (x : Sample Threshold) :
    Nat → Nat → List (Alert Threshold) → Checked Threshold
  | _, transitions, [] => { alerts := [], events := [], transitions }
  | i, transitions, a :: alerts =>
    match checkSlot ops id x a with
    | (a', none) =>
      let r := checkLoop id x (i + 1) transitions alerts
      { r with alerts := a' :: r.alerts }
    | (a', some e) =>
      let r := checkLoop id x (i + 1) (transitions + 1) alerts
      { r with alerts := a' :: r.alerts, events := (i, e) :: r.events }

/-- `alert_check_sample`. -/
def alertCheckSample (x : Sample Threshold) (alerts : List (Alert Threshold)) :
    Checked Threshold :=
  match x.id with
  | none => { alerts, events := [], transitions := 0 }
  | some id => checkLoop ops id x 0 0 alerts

/-! ## One call -/

/-- The value that a sample has for an alert of the key. -/
def Sample.valueFor (x : Sample Threshold) (key : Key) : Option Threshold :=
  if x.id ≠ some key.1 then none
  else if key.2 = .cpu ∧ x.hasCpuPct = false then none
  else some (x.value key.2)

/-- The events of one slot. -/
def eventsOf (slot : Nat) (events : List (Nat × Emit)) : List Emit :=
  (events.filter fun e => e.1 = slot).map Prod.snd

variable {ops} {x : Sample Threshold} {id : Bytes} {a : Alert Threshold}
  {alerts : List (Alert Threshold)}

/-- A slot that the sample is not for is passed over. -/
theorem checkSlot_passed (hid : x.id = some id) (h : x.valueFor a.key = none) :
    checkSlot ops id x a = (a, none) := by
  unfold checkSlot
  unfold Sample.valueFor Alert.key at h
  rw [hid] at h
  split
  · rfl
  · split
    · rfl
    · rename_i hsame
      have hsame : a.containerId = id := not_not.mp hsame
      rw [hsame, if_neg (not_not.mpr rfl)] at h
      split at h
      · rename_i hcpu
        rw [if_pos hcpu]
      · cases h

/-- A sample for an active slot: an event is emitted if the alert changes. -/
theorem checkSlot_value {v : Threshold} (hid : x.id = some id) (hactive : a.active = true)
    (h : x.valueFor a.key = some v) :
    (checkSlot ops id x a).1.firing = decide (a.threshold ≤ v) ∧
      (checkSlot ops id x a).2 =
        if decide (a.threshold ≤ v) = a.firing then none
        else some (sampleEmit ops id x a (decide (a.threshold ≤ v))) := by
  unfold Sample.valueFor Alert.key at h
  rw [hid] at h
  split at h
  · cases h
  · rename_i hsame
    have hsame : a.containerId = id := (Option.some.inj (not_not.mp hsame)).symm
    split at h
    · cases h
    · rename_i hcpu
      obtain rfl := Option.some.inj h
      unfold checkSlot
      rw [hactive, if_neg (by decide), if_neg (not_not.mpr hsame), if_neg hcpu]
      cases hover : decide (a.threshold ≤ x.value a.metric) <;> cases hfiring : a.firing <;>
        simp [hfiring]

/-- The loop changes nothing of a slot but whether and since when it fires. -/
theorem checkSlot_keeps (x : Sample Threshold) (id : Bytes) (a : Alert Threshold) :
    (checkSlot ops id x a).1.active = a.active ∧ (checkSlot ops id x a).1.key = a.key ∧
      (checkSlot ops id x a).1.threshold = a.threshold := by
  unfold checkSlot
  split
  · exact ⟨rfl, rfl, rfl⟩
  · split
    · exact ⟨rfl, rfl, rfl⟩
    · split
      · exact ⟨rfl, rfl, rfl⟩
      · simp only
        split
        · exact ⟨rfl, rfl, rfl⟩
        · split <;> exact ⟨rfl, rfl, rfl⟩

theorem checkLoop_transitions (i transitions : Nat) :
    (checkLoop ops id x i transitions alerts).transitions =
      transitions + (checkLoop ops id x i transitions alerts).events.length := by
  induction alerts generalizing i transitions with
  | nil => rfl
  | cons a alerts ih =>
    unfold checkLoop
    split
    · exact ih (i + 1) transitions
    · show (checkLoop ops id x (i + 1) (transitions + 1) alerts).transitions = _
      rw [ih (i + 1) (transitions + 1), List.length_cons]
      omega

/-- The number of transitions is that of the events. -/
theorem alertCheckSample_transitions (x : Sample Threshold) (alerts : List (Alert Threshold)) :
    (alertCheckSample ops x alerts).transitions =
      (alertCheckSample ops x alerts).events.length := by
  unfold alertCheckSample
  cases x.id with
  | none => rfl
  | some id =>
    have h := @checkLoop_transitions _ _ ops x id alerts 0 0
    rwa [Nat.zero_add] at h

theorem checkLoop_alerts (i transitions : Nat) :
    (checkLoop ops id x i transitions alerts).alerts =
      alerts.map fun a => (checkSlot ops id x a).1 := by
  induction alerts generalizing i transitions with
  | nil => rfl
  | cons a alerts ih =>
    unfold checkLoop
    split
    all_goals
      rename_i hslot
      rw [List.map_cons, hslot]
      simp only [ih]

theorem checkLoop_slot_ge (i transitions : Nat) :
    ∀ e ∈ (checkLoop ops id x i transitions alerts).events, i ≤ e.1 := by
  induction alerts generalizing i transitions with
  | nil => exact List.forall_mem_nil _
  | cons a alerts ih =>
    unfold checkLoop
    split
    · exact fun e he => Nat.le_of_succ_le (ih (i + 1) transitions e he)
    · refine List.forall_mem_cons.mpr ⟨le_rfl, fun e he => ?_⟩
      exact Nat.le_of_succ_le (ih (i + 1) (transitions + 1) e he)

/-- A slot emits what its own turn of the loop emits. -/
theorem checkLoop_events (i transitions slot : Nat) :
    eventsOf (i + slot) (checkLoop ops id x i transitions alerts).events =
      (alerts[slot]?.bind fun a => (checkSlot ops id x a).2).toList := by
  induction alerts generalizing i transitions slot with
  | nil => rfl
  | cons a alerts ih =>
    -- later slots emit under their own number
    have hlater : ∀ t, eventsOf i (checkLoop ops id x (i + 1) t alerts).events = [] := by
      intro t
      have hge := @checkLoop_slot_ge _ _ ops x id alerts (i + 1) t
      unfold eventsOf
      rw [List.filter_eq_nil_iff.mpr, List.map_nil]
      intro e he
      have := hge e he
      simp only [decide_eq_true_eq]
      omega
    unfold checkLoop
    cases slot with
    | zero =>
      split
      · rename_i hslot
        simpa [hslot] using hlater transitions
      · rename_i a' e hslot
        have hnone := hlater (transitions + 1)
        unfold eventsOf at hnone ⊢
        simpa [hslot] using hnone
    | succ slot =>
      rw [← Nat.add_assoc, Nat.add_right_comm, List.getElem?_cons_succ]
      split
      · exact ih (i + 1) transitions slot
      · rw [← ih (i + 1) (transitions + 1) slot]
        unfold eventsOf
        rw [List.filter_cons_of_neg]
        simp only [decide_eq_true_eq]
        omega

/-- A call without a value for the alert changes nothing of it. -/
theorem alertCheckSample_passed {slot : Nat} (ha : alerts[slot]? = some a)
    (h : x.valueFor a.key = none) :
    (alertCheckSample ops x alerts).alerts[slot]? = some a ∧
      eventsOf slot (alertCheckSample ops x alerts).events = [] := by
  unfold alertCheckSample
  cases hid : x.id with
  | none => exact ⟨ha, rfl⟩
  | some id =>
    have hslot : checkSlot ops id x a = (a, none) := checkSlot_passed hid h
    have hevents := @checkLoop_events _ _ ops x id alerts 0 0 slot
    rw [Nat.zero_add, ha] at hevents
    simp only [checkLoop_alerts, List.getElem?_map, ha, Option.map_some, hslot]
    refine ⟨trivial, ?_⟩
    rw [hevents, Option.bind_some, hslot]
    rfl

/-- A call with a value for the alert. -/
theorem alertCheckSample_value {slot : Nat} {v : Threshold} (ha : alerts[slot]? = some a)
    (hactive : a.active = true) (h : x.valueFor a.key = some v) :
    (∃ a', (alertCheckSample ops x alerts).alerts[slot]? = some a' ∧ a'.active = true ∧
        a'.key = a.key ∧ a'.threshold = a.threshold ∧ a'.firing = decide (a.threshold ≤ v)) ∧
      eventsOf slot (alertCheckSample ops x alerts).events =
        if decide (a.threshold ≤ v) = a.firing then []
        else [sampleEmit ops a.containerId x a (decide (a.threshold ≤ v))] := by
  have hid : x.id = some a.containerId := by
    unfold Sample.valueFor Alert.key at h
    split at h
    · cases h
    · rename_i hid
      exact not_not.mp hid
  obtain ⟨hfiring, hemit⟩ := @checkSlot_value _ _ ops _ _ _ _ hid hactive h
  have hkeeps := @checkSlot_keeps _ _ ops x a.containerId a
  have hevents := @checkLoop_events _ _ ops x a.containerId alerts 0 0 slot
  rw [Nat.zero_add, ha, Option.bind_some, hemit] at hevents
  unfold alertCheckSample
  simp only [hid]
  refine ⟨⟨_, ?_, hkeeps.1.trans hactive, hkeeps.2.1, hkeeps.2.2, hfiring⟩, ?_⟩
  · rw [checkLoop_alerts, List.getElem?_map, ha, Option.map_some]
  · rw [hevents]
    split <;> rfl

/-! ## Sequences of calls -/

variable [Zero Threshold]

/-- A call that changes or samples the table. -/
inductive SampledCall (Threshold : Type) where
  | change (call : AlertCall Threshold)
  | sample (x : Sample Threshold)

/-- The table with the events since it was last looked at. -/
structure SampledSys (Threshold : Type) where
  alerts : List (Alert Threshold)
  emitted : List (Nat × Emit)

def SampledSys.init : SampledSys Threshold := { alerts := alertInit, emitted := [] }

variable (ops) in
def sampledStep (s : SampledSys Threshold) :
    SampledCall Threshold → Option (SampledSys Threshold)
  | .change call => some { s with alerts := call.run s.alerts }
  | .sample x =>
    let r := alertCheckSample ops x s.alerts
    some { alerts := r.alerts, emitted := s.emitted ++ r.events }

/-- The slot that `alert_set` puts an alert in. -/
def alertSetSlot (key : Key) (alerts : List (Alert Threshold)) : Option Nat :=
  match setScan key 0 none alerts with
  | .found i => some i
  | .notFound slot => slot

/-- The alert is neither set again nor cleared. -/
def SampledCall.Leaves (key : Key) : SampledCall Threshold → Prop
  | .change (.set id metric _) => (id, metric) ≠ key
  | .change (.clear id metric) => (id, metric) ≠ key
  | .change .clearAll => False
  | .sample _ => True

def SampledCall.valueFor (key : Key) : SampledCall Threshold → Option Threshold
  | .change _ => none
  | .sample x => x.valueFor key

/-- The last value that the calls have for the alert. -/
def lastValue (key : Key) (calls : List (SampledCall Threshold)) : Option Threshold :=
  calls.foldl (fun last call => (call.valueFor key).or last) none

/-- `ALERT_FIRED` and `ALERT_RESOLVED` in turn. -/
def Alternate (events : List Emit) : Prop :=
  ∀ n e, events[n]? = some e → e.type = if n % 2 = 0 then .alertFired else .alertResolved

variable (ops) in
/-- What the samples of an alert come to: its slot holds it, it fires if its
last value was over the threshold, and its events alternate. A call without a
value for it passes it over, and every call returns the number of its events. -/
structure Alternating (key : Key) (threshold : Threshold) (slot : Nat)
    (calls : List (SampledCall Threshold)) (s : SampledSys Threshold) : Prop where
  holds : ∃ a, s.alerts[slot]? = some a ∧ a.active = true ∧ a.metric = key.2 ∧
    a.threshold = threshold ∧
    a.firing = (lastValue key calls).any fun v => decide (threshold ≤ v)
  alternate : Alternate (eventsOf slot s.emitted)
  passed : ∀ x : Sample Threshold, x.valueFor key = none →
    (alertCheckSample ops x s.alerts).alerts[slot]? = s.alerts[slot]? ∧
      eventsOf slot (alertCheckSample ops x s.alerts).events = []
  returns : ∀ x : Sample Threshold, (alertCheckSample ops x s.alerts).transitions =
    (alertCheckSample ops x s.alerts).events.length

/-- `alert_set` puts the alert in its slot; an id that fits is kept whole. -/
theorem alertSet_slot {metric : AlertMetric} {threshold : Threshold} {slot : Nat}
    (htakes : Takes id threshold) (hslot : alertSetSlot (id, metric) alerts = some slot) :
    ∃ a, (alertSet id metric threshold alerts).1[slot]? = some a ∧ a.active = true ∧
      a.metric = metric ∧ a.threshold = threshold ∧ a.firing = false ∧
      (a.containerId = snprintfStr alertIdLen id ∨
        ∃ b ∈ alerts, b.containerId = id ∧ a.containerId = id) := by
  have hargs : ¬ (id = [] ∨ threshold < 0) := fun hbad => hbad.elim htakes.1 htakes.2
  have hscan := @setScan_spec _ (id, metric) alerts 0 none
  unfold alertSetSlot at hslot
  unfold alertSet
  rw [if_neg hargs]
  cases hcase : setScan (id, metric) 0 none alerts with
  | found i =>
    rw [hcase] at hscan hslot
    obtain ⟨pre, a, post, rfl, rfl, hactive, hkey⟩ := hscan
    obtain rfl := Option.some.inj hslot
    simp only [Nat.zero_add, modify_middle]
    obtain ⟨hid, hmetric⟩ := Prod.ext_iff.mp hkey
    refine ⟨{ a with threshold, firing := false }, ?_, hactive, hmetric, rfl, rfl, .inr ?_⟩
    · simp
    · exact ⟨a, by simp, hid, hid⟩
  | notFound free =>
    rw [hcase] at hscan hslot
    obtain ⟨-, ⟨rfl, -⟩ | ⟨pre, a, post, rfl, hfree, -⟩⟩ := hscan
    · cases hslot
    · obtain rfl := Option.some.inj (hfree.symm.trans hslot)
      let new : Alert Threshold :=
        { containerId := snprintfStr alertIdLen id, metric, threshold, active := true
          firing := false, firedAt := 0 }
      refine ⟨new, ?_, rfl, rfl, rfl, rfl, .inl rfl⟩
      simp [hfree, new]

/-- Setting another alert leaves an active slot as it is. -/
theorem alertSet_other {key : Key} {threshold : Threshold} {slot : Nat}
    (ha : alerts[slot]? = some a) (hactive : a.active = true) (hkey : a.key ≠ key) :
    (alertSet key.1 key.2 threshold alerts).1[slot]? = some a := by
  have hscan := @setScan_spec _ key alerts 0 none
  unfold alertSet
  split
  · exact ha
  · cases hcase : setScan (key.1, key.2) 0 none alerts with
    | found i =>
      rw [hcase] at hscan
      obtain ⟨pre, b, post, rfl, rfl, -, hb⟩ := hscan
      simp only [Nat.zero_add]
      have hne : pre.length ≠ slot := by
        rintro rfl
        rw [List.getElem?_append_right (le_refl _), Nat.sub_self] at ha
        exact hkey (Option.some.inj ha ▸ hb)
      simp [ha, hne]
    | notFound free =>
      rw [hcase] at hscan
      obtain ⟨-, ⟨rfl, -⟩ | ⟨pre, b, post, rfl, rfl, hb⟩⟩ := hscan
      · exact ha
      · simp only [Nat.zero_add]
        rw [List.getElem?_set_ne, ha]
        rintro rfl
        rw [List.getElem?_append_right (le_refl _), Nat.sub_self] at ha
        obtain rfl : b = a := Option.some.inj ha
        rw [hb] at hactive
        cases hactive

omit [LinearOrder Threshold] [Zero Threshold] in
theorem alertClear_other {key : Key} {slot : Nat} (ha : alerts[slot]? = some a)
    (hkey : a.key ≠ key) : (alertClear key.1 key.2 alerts).1[slot]? = some a := by
  unfold alertClear
  rw [List.getElem?_map, ha, Option.map_some, if_neg]
  exact fun h => hkey h.2

/-! ## Whole runs -/

/-- What a run keeps for an alert whose id its slot has in full. -/
structure Kept (key : Key) (threshold : Threshold) (slot : Nat)
    (calls : List (SampledCall Threshold)) (s : SampledSys Threshold) (a : Alert Threshold) :
    Prop where
  at_slot : s.alerts[slot]? = some a
  active : a.active = true
  has_key : a.key = key
  has_threshold : a.threshold = threshold
  firing : a.firing = (lastValue key calls).any fun v => decide (threshold ≤ v)
  parity : a.firing = decide ((eventsOf slot s.emitted).length % 2 = 1)
  alternate : Alternate (eventsOf slot s.emitted)

/-- The next event is the one that is due. -/
theorem Alternate.snoc {events : List Emit} {e : Emit} (h : Alternate events)
    (he : e.type = if events.length % 2 = 0 then .alertFired else .alertResolved) :
    Alternate (events ++ [e]) := by
  intro n e' hn
  rcases Nat.lt_trichotomy n events.length with hlt | rfl | hgt
  · rw [List.getElem?_append_left hlt] at hn
    exact h n e' hn
  · rw [List.getElem?_append_right le_rfl, Nat.sub_self] at hn
    exact Option.some.inj hn ▸ he
  · rw [List.getElem?_eq_none (by simp; omega)] at hn
    cases hn

theorem eventsOf_append (slot : Nat) (l l' : List (Nat × Emit)) :
    eventsOf slot (l ++ l') = eventsOf slot l ++ eventsOf slot l' := by
  unfold eventsOf
  rw [List.filter_append, List.map_append]

omit [LinearOrder Threshold] [Zero Threshold] in
theorem lastValue_snoc (key : Key) (calls : List (SampledCall Threshold))
    (call : SampledCall Threshold) :
    lastValue key (calls ++ [call]) = (call.valueFor key).or (lastValue key calls) := by
  unfold lastValue
  rw [List.foldl_append]
  rfl

theorem Kept.step {key : Key} {threshold : Threshold} {slot : Nat}
    {calls : List (SampledCall Threshold)} {s s' : SampledSys Threshold}
    (h : Kept key threshold slot calls s a) {call : SampledCall Threshold}
    (hleaves : call.Leaves key) (hs : sampledStep ops s call = some s') :
    ∃ a', Kept key threshold slot (calls ++ [call]) s' a' := by
  cases call with
  | change call =>
    -- the call is for another alert, so the slot keeps its entry
    obtain rfl := Option.some.inj hs
    have hslot : (call.run s.alerts)[slot]? = some a := by
      cases call with
      | set id metric threshold' =>
        have hne : a.key ≠ (id, metric) := fun hsame => hleaves (hsame ▸ h.has_key)
        exact alertSet_other h.at_slot h.active hne
      | clear id metric =>
        have hne : a.key ≠ (id, metric) := fun hsame => hleaves (hsame ▸ h.has_key)
        exact alertClear_other h.at_slot hne
      | clearAll => exact hleaves.elim
    refine ⟨a, hslot, h.active, h.has_key, h.has_threshold, ?_, h.parity, h.alternate⟩
    rw [lastValue_snoc]
    exact h.firing
  | sample x =>
    obtain rfl := Option.some.inj hs
    cases hvalue : x.valueFor key with
    | none =>
      -- no value for the alert: no event of its slot
      obtain ⟨hslot, hevents⟩ := @alertCheckSample_passed _ _ ops x _ _ _ h.at_slot
        (h.has_key.symm ▸ hvalue)
      have hemitted : eventsOf slot (s.emitted ++ (alertCheckSample ops x s.alerts).events) =
          eventsOf slot s.emitted := by
        rw [eventsOf_append, hevents, List.append_nil]
      refine ⟨a, hslot, h.active, h.has_key, h.has_threshold, ?_, ?_, ?_⟩
      · rw [lastValue_snoc, SampledCall.valueFor, hvalue]
        exact h.firing
      · exact hemitted ▸ h.parity
      · exact hemitted ▸ h.alternate
    | some v =>
      obtain ⟨⟨a', hslot, hactive, hkey, hthreshold, hfiring⟩, hevents⟩ :=
        @alertCheckSample_value _ _ ops x _ _ _ _ h.at_slot h.active (h.has_key.symm ▸ hvalue)
      have hemitted := eventsOf_append slot s.emitted (alertCheckSample ops x s.alerts).events
      rw [hevents] at hemitted
      have hlast : lastValue key (calls ++ [.sample x]) = some v := by
        rw [lastValue_snoc, SampledCall.valueFor, hvalue]
        rfl
      rw [h.has_threshold] at hthreshold hfiring hemitted
      refine ⟨a', hslot, hactive, hkey.trans h.has_key, hthreshold, ?_, ?_, ?_⟩
      · rw [hlast]
        exact hfiring
      · show a'.firing = decide ((eventsOf slot _).length % 2 = 1)
        rw [hemitted, hfiring]
        split
        · rename_i hsame
          rw [hsame, List.append_nil]
          exact h.parity
        · -- one event more, and the other side of the threshold
          rename_i hchange
          have hparity := h.parity
          rw [List.length_append, List.length_singleton]
          grind
      · show Alternate (eventsOf slot _)
        rw [hemitted]
        split
        · rw [List.append_nil]
          exact h.alternate
        · rename_i hchange
          have hparity := h.parity
          refine h.alternate.snoc ?_
          unfold sampleEmit
          grind

theorem Kept.run {key : Key} {threshold : Threshold} {slot : Nat} {s s' : SampledSys Threshold}
    (h : Kept key threshold slot [] s a) {calls : List (SampledCall Threshold)}
    (hrun : RunOk (sampledStep ops) (fun _ call => call.Leaves key) s calls s') :
    ∃ a', Kept key threshold slot calls s' a' := by
  induction hrun with
  | nil => exact ⟨a, h⟩
  | snoc _ hleaves hs ih =>
    obtain ⟨b, hb⟩ := ih
    exact hb.step hleaves hs

omit [Zero Threshold] in
theorem Kept.alternating {key : Key} {threshold : Threshold} {slot : Nat}
    {calls : List (SampledCall Threshold)} {s : SampledSys Threshold}
    (h : Kept key threshold slot calls s a) :
    Alternating ops key threshold slot calls s where
  holds := ⟨a, h.at_slot, h.active, congrArg Prod.snd h.has_key, h.has_threshold, h.firing⟩
  alternate := h.alternate
  passed := fun x hx => by
    rw [h.at_slot]
    exact alertCheckSample_passed h.at_slot (h.has_key.symm ▸ hx)
  returns := fun x => alertCheckSample_transitions x s.alerts

/-- The ids fit their slots. -/
def IdsFit (alerts : List (Alert Threshold)) : Prop :=
  ∀ a ∈ alerts, a.containerId.length < alertIdLen

theorem alertSet_idsFit {metric : AlertMetric} {threshold : Threshold} (h : IdsFit alerts) :
    IdsFit (alertSet id metric threshold alerts).1 := by
  unfold alertSet
  split
  · exact h
  · split
    · intro b hb
      obtain ⟨c, hc, hsame⟩ : ∃ c ∈ alerts, b.containerId = c.containerId := by
        obtain ⟨i, hi, rfl⟩ := List.getElem_of_mem hb
        rw [List.getElem_modify]
        rw [List.length_modify] at hi
        split <;> exact ⟨_, List.getElem_mem hi, rfl⟩
      exact hsame ▸ h c hc
    · exact h
    · intro b hb
      rcases List.mem_or_eq_of_mem_set hb with hb | rfl
      · exact h b hb
      · exact Nat.lt_of_le_of_lt (List.length_take_le _ _) (by decide)

theorem sampledStep_idsFit {s s' : SampledSys Threshold} {call : SampledCall Threshold}
    (h : IdsFit s.alerts) (hs : sampledStep ops s call = some s') : IdsFit s'.alerts := by
  cases call with
  | change call =>
    obtain rfl := Option.some.inj hs
    cases call with
    | set id metric threshold => exact alertSet_idsFit h
    | clear id metric =>
      intro b hb
      obtain ⟨c, hc, rfl⟩ := List.mem_map.mp hb
      split
      · exact h c hc
      · exact h c hc
    | clearAll =>
      intro b hb
      rw [List.eq_of_mem_replicate hb]
      exact (by decide : 0 < alertIdLen)
  | sample x =>
    obtain rfl := Option.some.inj hs
    intro b hb
    show b.containerId.length < alertIdLen
    unfold alertCheckSample at hb
    cases hid : x.id with
    | none =>
      rw [hid] at hb
      exact h b hb
    | some id =>
      rw [hid] at hb
      simp only [checkLoop_alerts] at hb
      obtain ⟨c, hc, rfl⟩ := List.mem_map.mp hb
      have hkeeps := (@checkSlot_keeps _ _ ops x id c).2.1
      rw [show (checkSlot ops id x c).1.containerId = c.containerId from congrArg Prod.fst hkeeps]
      exact h c hc

/-- The alerts of an id fire and resolve in turn, whichever calls come and as
long as none sets or clears the alert again, if and only if the id fits its
slot. -/
theorem alert_alternates_iff {calls₀ : List (SampledCall Threshold)} {s₀ : SampledSys Threshold}
    (hrun : Runs (sampledStep ops) .init calls₀ s₀) {metric : AlertMetric}
    {threshold : Threshold} {slot : Nat} (htakes : Takes id threshold)
    (hslot : alertSetSlot (id, metric) s₀.alerts = some slot) :
    (∀ calls s, RunOk (sampledStep ops) (fun _ call => call.Leaves (id, metric))
        { alerts := (alertSet id metric threshold s₀.alerts).1, emitted := [] } calls s →
        Alternating ops (id, metric) threshold slot calls s) ↔
      id.length < alertIdLen := by
  have hfit : IdsFit s₀.alerts := by
    refine hrun.invariant (I := fun s => IdsFit s.alerts)
      (fun s call s' h _ hs => sampledStep_idsFit h hs) ?_
    intro b hb
    rw [List.eq_of_mem_replicate hb]
    exact (by decide : 0 < alertIdLen)
  obtain ⟨a, hat, hactive, hmetric, hthreshold, hfiring, hid⟩ := alertSet_slot htakes hslot
  constructor
  · intro hall
    -- a sample at the threshold, with the id that was given
    let x : Sample Threshold :=
      { id := some id, hasCpuPct := true, cpuPct := threshold, rssMb := threshold, now := 0 }
    have hvalue : x.valueFor (id, metric) = some threshold := by
      cases metric <;> simp [Sample.valueFor, Sample.value, x]
    rcases hid with hcut | ⟨b, hb, hsame, -⟩
    · -- a cut id is not the id of the sample, which then passes the slot by
      by_contra hlong
      have hother : x.valueFor a.key = none := by
        have hne : x.id ≠ some a.key.1 := by
          intro heq
          have hlen : id.length = (snprintfStr alertIdLen id).length :=
            congrArg List.length ((Option.some.inj heq).trans hcut)
          have hle : (snprintfStr alertIdLen id).length ≤ alertIdLen - 1 :=
            List.length_take_le _ _
          unfold alertIdLen at hlong hle hlen
          omega
        exact if_pos hne
      obtain ⟨hafter, -⟩ := @alertCheckSample_passed _ _ ops x _ _ _ hat hother
      obtain ⟨a', ha', -, -, -, hfires⟩ := (hall [.sample x] _ (.snoc (.nil _) trivial rfl)).holds
      obtain rfl : a = a' := Option.some.inj (hafter.symm.trans ha')
      have hlast : lastValue (id, metric) [.sample x] = some threshold := by
        rw [← List.nil_append [SampledCall.sample x], lastValue_snoc, SampledCall.valueFor, hvalue]
        rfl
      rw [hfiring, hlast] at hfires
      simp at hfires
    · exact hsame ▸ hfit b hb
  · intro hlen calls s hcalls
    have hcontainer : a.containerId = id := by
      rcases hid with hcut | ⟨b, -, -, hsame⟩
      · exact hcut.trans (snprintfStr_eq_self (Nat.le_sub_one_of_lt hlen))
      · exact hsame
    have hkept : Kept (id, metric) threshold slot []
        { alerts := (alertSet id metric threshold s₀.alerts).1, emitted := [] } a :=
      { at_slot := hat, active := hactive, has_key := Prod.ext hcontainer hmetric
        has_threshold := hthreshold, firing := hfiring, parity := hfiring
        alternate := fun n e he => by cases he }
    obtain ⟨b, hb⟩ := hkept.run hcalls
    exact hb.alternating

end

/-- Numbers without a digit behind the point. -/
def intOps : DoubleOps Int where
  oneDigit n := fmtInt n ++ bytes ".0"
  noDigit := fmtInt
  long := Int64.ofInt

/-- A memory alert of `web`, sampled over, over and under its threshold. -/
theorem alert_alternates_web :
    let sample (rss : Int) : SampledCall Int := .sample
      { id := some (bytes "web"), hasCpuPct := false, cpuPct := 0, rssMb := rss, now := 0 }
    ∃ s, s.emitted.map (fun e => e.2.type) = [.alertFired, .alertResolved] ∧
      Alternating intOps (bytes "web", .mem) 100 0 [sample 120, sample 130, sample 90] s := by
  intro sample
  let set : SampledSys Int :=
    { alerts := (alertSet (bytes "web") .mem 100 alertInit).1, emitted := [] }
  let after (s : SampledSys Int) (call : SampledCall Int) : SampledSys Int :=
    (sampledStep intOps s call).getD s
  have htakes : Takes (bytes "web") (100 : Int) := ⟨by decide, by decide⟩
  have hrun : RunOk (sampledStep intOps) (fun _ call => call.Leaves (bytes "web", .mem)) set
      [sample 120, sample 130, sample 90]
      (after (after (after set (sample 120)) (sample 130)) (sample 90)) :=
    .cons trivial rfl (.cons trivial rfl (.cons trivial rfl (.nil _)))
  have halt := (alert_alternates_iff (.nil SampledSys.init) htakes rfl).mpr (by decide) _ _ hrun
  exact ⟨_, by decide +kernel, halt⟩

/-- An alert set for an id of 64 bytes fires for the container with the first
63 of them. -/
theorem not_alert_alternates :
    ¬ ∀ (calls₀ : List (SampledCall Int)) (s₀ : SampledSys Int) (id : Bytes)
        (metric : AlertMetric) (threshold : Int) (slot : Nat),
      Runs (sampledStep intOps) .init calls₀ s₀ → Takes id threshold →
      alertSetSlot (id, metric) s₀.alerts = some slot →
      ∀ calls s, RunOk (sampledStep intOps) (fun _ call => call.Leaves (id, metric))
        { alerts := (alertSet id metric threshold s₀.alerts).1, emitted := [] } calls s →
        Alternating intOps (id, metric) threshold slot calls s := by
  intro hclaim
  let id : Bytes := List.replicate 64 97
  have htakes : Takes id (100 : Int) := ⟨by decide, by decide⟩
  have halt := hclaim [] .init id .mem 100 0 (.nil _) htakes rfl [] _ (.nil _)
  let x : Sample Int :=
    { id := some (List.replicate 63 97), hasCpuPct := false, cpuPct := 0, rssMb := 120, now := 0 }
  have hother : x.valueFor (id, .mem) = none := if_pos (by decide)
  obtain ⟨-, hevents⟩ := halt.passed x hother
  revert hevents
  decide +kernel

end ContainerSim.Alerts
