import ContainerSim.Alerts.Table
import ContainerSim.Web.Escape

/-!
# The alerts in the API

`alert_json` writes the active slots into the caller's buffer. An entry with an
id of 63 bytes, all of them escaped, still fits the 256 bytes that the loop
keeps in reserve, so the text is never cut.
-/

namespace ContainerSim.Alerts

open Lib ContainerSim.Web

/-- `metric_name`. -/
def metricName : AlertMetric → Bytes
  | .cpu => bytes "cpu"
  | .mem => bytes "mem"

section
variable {Threshold : Type} (thresh : Printer (AlertMetric × Threshold) 24) (clock : Clock 22)

/-- `fired_buf`. -/
def firedText (a : Alert Threshold) : Bytes := if a.firedAt > 0 then clock.text a.firedAt else []

/-- The members of an active slot. -/
def alertMembers (a : Alert Threshold) : List (String × Bytes) :=
  [("container_id", escaped (alertIdLen * 2) a.containerId),
    ("metric", escaped 16 (metricName a.metric)),
    ("threshold", escaped 48 (thresh.text (a.metric, a.threshold))),
    ("firing", Json.boolText a.firing),
    ("fired_at", escaped 32 (firedText clock a))]

/-- The body of the loop of `alert_json`. -/
def alertEntry (a : Alert Threshold) : Option Bytes :=
  if !a.active then none else some (Json.object (alertMembers thresh clock a))

/-- `alert_json`: the buffer and the result. -/
def alertJson (alerts : List (Alert Threshold)) (buf : Bytes) : Bytes × Int :=
  if buf.length ≤ 2 then (buf, -1)
  else
    let o := OutBuf.writeList [91] [93] 256 (alertEntry thresh clock) alerts buf
    (o.mem, o.written)

/-- The object of a slot. -/
def alertValue (a : Alert Threshold) : Json.Value :=
  .obj [(bytes "container_id", .str (visible a.containerId)),
    (bytes "metric", .str (metricName a.metric)),
    (bytes "threshold", .str (thresh.text (a.metric, a.threshold))),
    (bytes "firing", .bool a.firing),
    (bytes "fired_at", .str (firedText clock a))]

theorem firedText_length (a : Alert Threshold) : (firedText clock a).length < 22 := by
  unfold firedText
  split
  · exact clock.length_lt a.firedAt
  · decide

theorem firedText_plain (a : Alert Threshold) : Json.Plain (firedText clock a) := by
  unfold firedText
  split
  · exact clock.plain a.firedAt
  · exact List.forall_mem_nil _

theorem metricName_plain (m : AlertMetric) : Json.Plain (metricName m) := by
  cases m <;> decide

theorem metricName_length (m : AlertMetric) : (metricName m).length = 3 := by
  cases m <;> rfl

variable {thresh clock}

/-- With an id that fits its field no member is cut. -/
theorem alertMembers_eq {a : Alert Threshold} (h : a.containerId.length < alertIdLen) :
    alertMembers thresh clock a =
      [("container_id", Json.quoted (escape a.containerId)),
        ("metric", Json.quoted (metricName a.metric)),
        ("threshold", Json.quoted (thresh.text (a.metric, a.threshold))),
        ("firing", Json.boolText a.firing),
        ("fired_at", Json.quoted (firedText clock a))] := by
  have hmetric := metricName_length a.metric
  have hthresh := thresh.length_lt (a.metric, a.threshold)
  have hfired := firedText_length clock a
  rw [alertMembers, escaped_eq (by omega), escaped_plain (metricName_plain a.metric) (by omega),
    escaped_plain (thresh.plain _) (by omega), escaped_plain (firedText_plain clock a) (by omega)]

theorem denotes_alert {a : Alert Threshold} (h : a.containerId.length < alertIdLen) :
    Json.Denotes (alertValue thresh clock a) (Json.object (alertMembers thresh clock a)) := by
  rw [alertMembers_eq h]
  refine Json.denotes_object ?_
  refine .cons (Json.memberOf (by decide) (denotes_escape _)) ?_
  refine .cons (Json.memberOf (by decide) (.str (metricName_plain _).chars)) ?_
  refine .cons (Json.memberOf (by decide) (.str (thresh.plain _).chars)) ?_
  refine .cons (Json.memberOf (by decide) (Json.denotes_boolText _)) ?_
  exact .cons (Json.memberOf (by decide) (.str (firedText_plain clock a).chars)) .nil

/-- The longest entry and a comma and the closing bracket are within the reserve. -/
theorem alertMembers_length {a : Alert Threshold} (h : a.containerId.length < alertIdLen) :
    (Json.object (alertMembers thresh clock a)).length ≤ 254 := by
  have hid := length_escape_le a.containerId
  have hmetric := metricName_length a.metric
  have hthresh := thresh.length_lt (a.metric, a.threshold)
  have hfired := firedText_length clock a
  have hfiring : (Json.boolText a.firing).length ≤ 5 := by cases a.firing <;> decide
  rw [alertMembers_eq h]
  unfold alertIdLen at h
  simp [Json.object, Json.member, Json.quoted, List.intercalate_cons_cons, bytes]
  omega

theorem filterMap_alertEntry (alerts : List (Alert Threshold)) :
    alerts.filterMap (alertEntry thresh clock) =
      (alerts.filter (·.active)).map fun a => Json.object (alertMembers thresh clock a) := by
  induction alerts with
  | nil => rfl
  | cons a alerts ih =>
    rw [List.filterMap_cons, List.filter_cons, alertEntry]
    cases a.active with
    | false => exact ih
    | true => exact congrArg (_ :: ·) ih

/-- The API prints a well-formed array of the first active slots and a NUL
behind it, within the buffer; it prints all of them if the loop does not stop
before one for lack of room. -/
theorem alert_json_well_formed {alerts : List (Alert Threshold)} {buf mem : Bytes} {r : Int}
    (hids : ∀ a ∈ alerts, a.containerId.length < alertIdLen) (hlen : 2 < buf.length)
    (hrun : alertJson thresh clock alerts buf = (mem, r)) :
    mem.length = buf.length ∧ 0 < r ∧ r < buf.length ∧ mem[r.toNat]? = some 0 ∧
      ∃ printed, printed <+: alerts.filter (·.active) ∧
        Json.Document (.arr (printed.map (alertValue thresh clock))) (mem.take r.toNat) ∧
        (OutBuf.Begun [91] 256 buf.length (alerts.filterMap (alertEntry thresh clock)) →
          printed = alerts.filter (·.active)) := by
  have hactive : ∀ a ∈ alerts.filter (·.active), a.containerId.length < alertIdLen :=
    fun a ha => hids a (List.mem_filter.mp ha).1
  have hfits : OutBuf.Fits [91] [93] 256 buf.length
      (alerts.filterMap (alertEntry thresh clock)) := by
    refine OutBuf.fits_of_le hlen fun t ht => ?_
    rw [filterMap_alertEntry] at ht
    obtain ⟨a, ha, rfl⟩ := List.mem_map.mp ht
    have hentry := @alertMembers_length _ thresh clock a (hactive a ha)
    rw [List.length_singleton]
    omega
  obtain ⟨k, hholds, -, hend⟩ := OutBuf.writeList_of_fits rfl hfits
  rw [alertJson, if_neg (Nat.not_le.mpr hlen), Prod.mk.injEq] at hrun
  obtain ⟨rfl, rfl⟩ := hrun
  rw [Int.toNat_natCast, hholds.take]
  refine ⟨hholds.1, ?_, Int.ofNat_lt.mpr hholds.lt, hholds.nul, (alerts.filter (·.active)).take k,
    List.take_prefix _ _, ?_, fun hbegun => ?_⟩
  · rw [hholds.2.1]
    exact Int.ofNat_lt.mpr (by simp)
  · rw [filterMap_alertEntry, ← List.map_take, body_array]
    refine Json.Denotes.document (denotes_entries fun a ha => ?_)
    exact denotes_alert (hactive a (List.mem_of_mem_take ha))
  · have htake := congrArg List.length (hbegun.take_eq hend)
    rw [filterMap_alertEntry, ← List.map_take, List.length_map, List.length_map] at htake
    exact (List.take_sublist _ _).eq_of_length htake

end

/-- A slot whose id holds a quote. -/
theorem alert_json_quote :
    let thresh : Printer (AlertMetric × Nat) 24 :=
      { text := fun p => if p = (.cpu, 80) then bytes "80.0%" else bytes "0MB"
        length_lt := fun p => by split <;> decide
        plain := fun p => by split <;> decide }
    let clock : Clock 22 :=
      { text := fun _ => bytes "1970-01-01T00:00:01"
        length_lt := fun _ => by decide
        plain := fun _ => by decide }
    let a : Alert Nat :=
      { containerId := bytes "a\"b", metric := .cpu, threshold := 80, active := true
        firing := true, firedAt := 1 }
    let result := alertJson thresh clock [a] (List.replicate 600 0)
    0 < result.2 ∧ result.2 < 600 ∧
      Json.Document (.arr [alertValue thresh clock a]) (result.1.take result.2.toNat) := by
  intro thresh clock a result
  have hids : ∀ b ∈ [a], b.containerId.length < alertIdLen := by decide
  have hlen : (List.replicate 600 (0 : UInt8)).length = 600 := List.length_replicate
  have hbuf : 2 < (List.replicate 600 (0 : UInt8)).length := by
    rw [hlen]
    decide
  obtain ⟨-, hpos, hlt, -, printed, -, hdoc, hall⟩ :=
    @alert_json_well_formed Nat thresh clock [a] (List.replicate 600 0) result.1 result.2 hids hbuf
      (Prod.eta _).symm
  rw [hlen] at hlt hall
  refine ⟨hpos, hlt, ?_⟩
  have hbegun : OutBuf.Begun [91] 256 600 ([a].filterMap (alertEntry thresh clock)) := by
    intro pre t post h
    cases pre with
    | nil => decide
    | cons u pre => simp [alertEntry, a] at h
  rw [hall hbegun] at hdoc
  exact hdoc

end ContainerSim.Alerts
