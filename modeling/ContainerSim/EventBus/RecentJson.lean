import ContainerSim.EventBus.Persist
import ContainerSim.Web.Escape

/-!
# The events in the API

`eventbus_json_recent` writes the last events into the caller's buffer. The
loop keeps 256 bytes in reserve, but an event with a long id or detail takes
more once it is escaped, and `snprintf` counts what it could not store.
-/

namespace ContainerSim.EventBus

open Lib ContainerSim.Web

variable (clock : Clock 22)

/-- The number of events that are wanted; the counter is read as an `unsigned`. -/
def wantedEvents (b : Bus) (n : Int) : Nat :=
  let total := b.total % 2 ^ 32
  let available := if total < ringSize then total else ringSize
  if n ≤ 0 ∨ n.toNat > available then available else n.toNat

/-- The events the loop of `eventbus_json_recent` goes through. -/
def recentEvents (b : Bus) (n : Int) : List Event :=
  (List.range' (b.total % 2 ^ 32 - wantedEvents b n) (wantedEvents b n)).map b.ring.get

def eventMembers (e : Event) : List (String × Bytes) :=
  [("seq", fmtNat e.seq),
    ("type", escaped 40 (eventbusTypeName e.type)),
    ("timestamp", escaped 32 (clock.text e.timestamp.toInt)),
    ("container_id", escaped (64 * 2) e.containerId),
    ("detail", escaped (detailLen * 2) e.detail),
    ("value", fmtInt e.value.toInt)]

def eventText (e : Event) : Bytes := Json.object (eventMembers clock e)

def writeEvents (es : List Event) (buf : Bytes) : OutBuf :=
  OutBuf.writeList [91] [93] 256 (fun e => some (eventText clock e)) es buf

/-- `eventbus_json_recent`: the buffer and the result. -/
def eventbusJsonRecent (b : Bus) (n : Int) (buf : Bytes) : Bytes × Int :=
  if buf.length ≤ 2 then (buf, -1)
  else
    let o := writeEvents clock (recentEvents b n) buf
    (o.mem, o.written)

/-- The object of an event. -/
def eventValue (e : Event) : Json.Value :=
  .obj [(bytes "seq", .num (fmtNat e.seq)),
    (bytes "type", .str (eventbusTypeName e.type)),
    (bytes "timestamp", .str (clock.text e.timestamp.toInt)),
    (bytes "container_id", .str (visible e.containerId)),
    (bytes "detail", .str (visible e.detail)),
    (bytes "value", .num (fmtInt e.value.toInt))]

theorem eventbusTypeName_spec (t : EventType) :
    Json.Plain (eventbusTypeName t) ∧ (eventbusTypeName t).length < 40 := by
  cases t <;> decide

variable {clock}

/-- No member is cut. -/
theorem eventMembers_eq {e : Event} (h : e.Stored) :
    eventMembers clock e =
      [("seq", fmtNat e.seq),
        ("type", Json.quoted (eventbusTypeName e.type)),
        ("timestamp", Json.quoted (clock.text e.timestamp.toInt)),
        ("container_id", Json.quoted (escape e.containerId)),
        ("detail", Json.quoted (escape e.detail)),
        ("value", fmtInt e.value.toInt)] := by
  obtain ⟨htype, hlen⟩ := eventbusTypeName_spec e.type
  have htime := clock.length_lt e.timestamp.toInt
  have hid := h.containerId
  have hdetail := h.detail
  rw [eventMembers, escaped_plain htype hlen, escaped_plain (clock.plain _) (by omega),
    escaped_eq (by omega), escaped_eq (by unfold detailLen; omega)]

theorem denotes_event {e : Event} (h : e.Stored) :
    Json.Denotes (eventValue clock e) (eventText clock e) := by
  rw [eventText, eventMembers_eq h]
  refine Json.denotes_object ?_
  refine .cons (Json.memberOf (by decide) (.num (numberText_fmtNat _))) ?_
  refine .cons (Json.memberOf (by decide) (.str (eventbusTypeName_spec e.type).1.chars)) ?_
  refine .cons (Json.memberOf (by decide) (.str (clock.plain _).chars)) ?_
  refine .cons (Json.memberOf (by decide) (denotes_escape _)) ?_
  refine .cons (Json.memberOf (by decide) (denotes_escape _)) ?_
  exact .cons (Json.memberOf (by decide) (.num (numberText_fmtInt _))) .nil

/-- The bytes are an array of the objects of events. -/
def IsEventArray (clock : Clock 22) (t : Bytes) : Prop :=
  ∃ es : List Event, Json.Document (.arr (es.map (eventValue clock))) t

/-- Whether the events that are begun fit a buffer of `len` bytes: an entry that
starts before the last 256 bytes ends before the last one. -/
def EventsFit (clock : Clock 22) (len : Nat) (es : List Event) : Prop :=
  OutBuf.Fits [91] [93] 256 len (es.map (eventText clock))

theorem stored_recent {b : Bus} (h : ∀ i, (b.ring.get i).Stored) (n : Int) :
    ∀ e ∈ recentEvents b n, e.Stored := by
  intro e he
  obtain ⟨i, -, rfl⟩ := List.mem_map.mp he
  exact h i

theorem writeEvents_iff {es : List Event} (h : ∀ e ∈ es, e.Stored) (buf : Bytes) :
    ((writeEvents clock es buf).written < buf.length ∧
        IsEventArray clock ((writeEvents clock es buf).mem.take (writeEvents clock es buf).written)) ↔
      EventsFit clock buf.length es := by
  have htexts : es.filterMap (fun e => some (eventText clock e)) = es.map (eventText clock) :=
    congrFun List.filterMap_eq_map _
  have harray : ∀ k, Json.Denotes (.arr ((es.take k).map (eventValue clock)))
      (Json.array ((es.take k).map (eventText clock))) :=
    fun k => denotes_entries fun e he => denotes_event (h e (List.mem_of_mem_take he))
  have hiff := @OutBuf.writeList_iff _ [91] [93] 256 buf.length
    (fun e => some (eventText clock e)) es buf (IsEventArray clock) rfl
  rw [htexts] at hiff
  refine hiff (fun k _ => ?_) fun k _ hopen => ?_
  · rw [← List.map_take, body_array]
    exact ⟨es.take k, (harray k).document⟩
  · -- the bracket is still open
    obtain ⟨es', hdoc⟩ := hopen
    have hclosed : Json.WellFormed (OutBuf.body [91] ((es.map (eventText clock)).take k) ++ [93]) := by
      rw [← List.map_take, body_array]
      exact ⟨_, (harray k).document⟩
    exact Json.not_wellFormed_of_close hclosed (by simp) (by simp) ⟨_, hdoc⟩

/-- The result is inside the buffer and an array of events exactly if the
events that are begun fit. -/
theorem events_json_iff {b : Bus} (hring : ∀ i, (b.ring.get i).Stored) (n : Int) {buf : Bytes}
    (hlen : 2 < buf.length) :
    (0 ≤ (eventbusJsonRecent clock b n buf).2 ∧
        (eventbusJsonRecent clock b n buf).2 < buf.length ∧
        IsEventArray clock ((eventbusJsonRecent clock b n buf).1.take
          (eventbusJsonRecent clock b n buf).2.toNat)) ↔
      EventsFit clock buf.length (recentEvents b n) := by
  rw [← writeEvents_iff (stored_recent hring n) buf, eventbusJsonRecent,
    if_neg (Nat.not_le.mpr hlen)]
  simp only [Int.natCast_nonneg, true_and, Int.ofNat_lt, Int.toNat_natCast]

def zeroClock : Clock 22 where
  text := fun _ => bytes "1970-01-01T00:00:00"
  length_lt := fun _ => by decide
  plain := fun _ => plain_epoch

/-- A ring of one event. -/
def constantBus (e : Event) : Bus := { ring := ⟨fun _ => e⟩, total := ringSize }

theorem recentEvents_constantBus (e : Event) :
    recentEvents (constantBus e) 0 = List.replicate ringSize e := by
  have hwanted : wantedEvents (constantBus e) 0 = ringSize := rfl
  have hget : (constantBus e).ring.get = fun _ => e := rfl
  rw [recentEvents, hget, hwanted, List.map_const', List.length_range']

theorem stored_constantBus {e : Event} (h : e.Stored) : ∀ i, ((constantBus e).ring.get i).Stored :=
  fun _ => h

def quietEvent : Event :=
  { type := .containerStarted, timestamp := 0, containerId := bytes "c1", detail := [], value := 0
    seq := 0 }

/-- A ring of events with short ids and details, in the buffer of the web server. -/
theorem events_json_quiet :
    ∃ buf : Bytes, buf.length = 32768 ∧
      0 ≤ (eventbusJsonRecent zeroClock (constantBus quietEvent) 0 buf).2 ∧
      (eventbusJsonRecent zeroClock (constantBus quietEvent) 0 buf).2 < buf.length ∧
      IsEventArray zeroClock ((eventbusJsonRecent zeroClock (constantBus quietEvent) 0 buf).1.take
        (eventbusJsonRecent zeroClock (constantBus quietEvent) 0 buf).2.toNat) := by
  obtain ⟨buf, hlen⟩ : ∃ buf : Bytes, buf.length = 32768 :=
    ⟨List.replicate 32768 0, List.length_replicate⟩
  have hring := @stored_constantBus quietEvent ⟨by decide, by decide, by decide⟩
  refine ⟨buf, hlen, (events_json_iff hring 0 (by omega)).mpr ?_⟩
  rw [hlen, recentEvents_constantBus]
  refine OutBuf.fits_of_le (by decide) fun t ht => ?_
  obtain ⟨e, he, rfl⟩ := List.mem_map.mp ht
  rw [List.eq_of_mem_replicate he]
  decide +kernel

def loudEvent : Event :=
  { quietEvent with containerId := List.replicate 63 34, detail := List.replicate 127 34 }

theorem length_loudEvent : (eventText zeroClock loudEvent).length = 490 := by
  have hid : (escaped (64 * 2) loudEvent.containerId).length = 128 :=
    @length_escaped_quotes (64 * 2) 63 (by decide)
  have hdetail : (escaped (detailLen * 2) loudEvent.detail).length = 256 :=
    @length_escaped_quotes (detailLen * 2) 127 (by decide)
  have hne : eventMembers zeroClock loudEvent ≠ [] := List.cons_ne_nil _ _
  rw [eventText, Json.length_object hne]
  simp only [eventMembers, List.map_cons, List.map_nil, List.sum_cons, List.sum_nil]
  rw [hid, hdetail]
  decide +kernel

/-- With a ring of events whose ids and details are all quotes, the 67th event
overruns the buffer of the web server. -/
theorem not_events_json :
    ¬ ∀ (clock : Clock 22) (b : Bus) (n : Int) (buf : Bytes),
      (∀ i, (b.ring.get i).Stored) → 2 < buf.length →
      0 ≤ (eventbusJsonRecent clock b n buf).2 ∧
        (eventbusJsonRecent clock b n buf).2 < buf.length ∧
        IsEventArray clock ((eventbusJsonRecent clock b n buf).1.take
          (eventbusJsonRecent clock b n buf).2.toNat) := by
  intro hclaim
  obtain ⟨buf, hlen⟩ : ∃ buf : Bytes, buf.length = 32768 :=
    ⟨List.replicate 32768 0, List.length_replicate⟩
  have hring := @stored_constantBus loudEvent ⟨by decide, by decide, by decide⟩
  have hbuf : 2 < buf.length := by omega
  have hresult := hclaim zeroClock (constantBus loudEvent) 0 buf hring hbuf
  rw [eventbusJsonRecent, if_neg (Nat.not_le.mpr hbuf)] at hresult
  simp only [Int.natCast_nonneg, true_and, Int.ofNat_lt, Int.toNat_natCast] at hresult
  rw [writeEvents_iff (stored_recent hring 0), hlen, recentEvents_constantBus, EventsFit,
    List.map_replicate] at hresult
  refine @OutBuf.not_fits_replicate [91] [93] 256 32768 _ 65 189 ?_ ?_ hresult
  · rw [length_loudEvent]
    decide
  · rw [length_loudEvent]
    decide

end ContainerSim.EventBus
