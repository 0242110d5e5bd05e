import ContainerSim.Alerts.Sampling
import ContainerSim.EventBus.Persist
import ContainerSim.Lib.KeyLines
import ContainerSim.Runtime.AddressPool
import ContainerSim.Runtime.ContainerJson
import ContainerSim.Telemetry.Counters

/-!
# `container_stats_json_all`

The page with the memory of the running containers also feeds the high-water
mark and the alerts. The loop ends when less than 128 bytes are left, and an
entry never takes more, so the answer is always an object, of as many of the
containers as there is room for: these are sampled and the others are not.
-/

namespace ContainerSim.Runtime

open Lib Web Alerts Telemetry

/-! ## `VmRSS:` -/

/-- The loop over the lines of `status`. -/
def vmRss : List Bytes → Nat
  | [] => 0
  | line :: lines =>
    if (bytes "VmRSS:").isPrefixOf line then strtoul (line.drop 6) else vmRss lines

theorem vmRss_lt (lines : List Bytes) : vmRss lines < 2 ^ 64 := by
  induction lines with
  | nil => decide
  | cons line lines ih =>
    rw [vmRss]
    split
    · exact strtoul_lt _
    · exact ih

/-! ## Entries -/

section
variable {Threshold : Type}

/-- What the calls of the loop see of the host: `/proc/<pid>/status`, the
arithmetic of doubles and the time an alert is checked at. -/
structure StatsHost (Threshold : Type) where
  status : Int → Option Bytes
  ops : DoubleOps Threshold
  /-- `0.0` -/
  zero : Threshold
  /-- `rss_kb / 1024.0` -/
  mb : Nat → Threshold
  now : Container → Int64

variable (host : StatsHost Threshold)

/-- `rss_kb` -/
def rssKb (c : Container) : Nat :=
  match host.status c.pid with
  | none => 0
  | some content => vmRss (chunks 128 content)

def statsText (c : Container) : Bytes :=
  escaped (idLen * 2) c.id ++ 58 :: Json.object [("rss_mb", fmtNat (rssKb host c / 1024))]

/-- The entry of a container. -/
def statsMember (c : Container) : Bytes × Json.Value :=
  (c.id, .obj [(bytes "rss_mb", .num (fmtNat (rssKb host c / 1024)))])

theorem rssKb_lt (c : Container) : rssKb host c < 2 ^ 64 := by
  unfold rssKb
  split
  · decide
  · exact vmRss_lt _

theorem NumberedId.plain {id : Bytes} (h : NumberedId id) : Json.Plain id ∧ id.length ≤ 21 := by
  obtain ⟨ds, hlen, hds, rfl⟩ := h
  have hname : Json.Plain (bytes "container-") := by decide +kernel
  have hname_len : (bytes "container-").length = 10 := by decide +kernel
  constructor
  · intro c hc
    rcases List.mem_append.mp hc with h | h
    · exact hname c h
    · exact Json.plain_of_isDigit hds c h
  · rw [List.length_append, hname_len]
    omega

variable {c : Container}

theorem statsText_eq (h : NumberedId c.id) :
    statsText host c =
      Json.quoted c.id ++ 58 :: Json.object [("rss_mb", fmtNat (rssKb host c / 1024))] := by
  obtain ⟨hplain, hlen⟩ := h.plain
  have hroom : c.id.length < idLen * 2 := by
    unfold idLen
    omega
  rw [statsText, escaped_plain hplain hroom]

/-- An entry, its comma and the brace that closes the object take less than the
128 bytes that the loop keeps free. -/
theorem length_statsText (h : NumberedId c.id) : (statsText host c).length + 2 ≤ 128 := by
  have hlt := rssKb_lt host c
  have hdigits : (fmtNat (rssKb host c / 1024)).length ≤ 17 := by
    refine fmtNat_length_le (by omega) ?_
    omega
  have hkey : (bytes "rss_mb").length = 6 := by decide +kernel
  have hlen := h.plain.2
  rw [statsText_eq host h]
  simp only [Json.object, Json.member, List.map_cons, List.map_nil, List.intercalate_singleton,
    List.length_append, List.length_cons, List.length_nil, Json.length_quoted, hkey]
  omega

/-- `{"key":text,...}` with keys that are not known beforehand. -/
theorem denotes_dict {α : Type*} {key text : α → Bytes} {value : α → Json.Value} {as : List α}
    (hkey : ∀ a ∈ as, Json.Plain (key a)) (hvalue : ∀ a ∈ as, Json.Denotes (value a) (text a)) :
    Json.Denotes (.obj (as.map fun a => (key a, value a)))
      (123 :: ([44].intercalate (as.map fun a => Json.quoted (key a) ++ 58 :: text a) ++
        [125])) := by
  cases as with
  | nil => exact .objNil Json.ws_nil
  | cons a as =>
    refine .obj ?_
    induction as generalizing a with
    | nil =>
      have hone := Json.Members.one Json.ws_nil (hkey a List.mem_cons_self).chars Json.ws_nil
        Json.ws_nil (hvalue a List.mem_cons_self) Json.ws_nil
      simpa using hone
    | cons a' as ih =>
      have hrest := ih a' (fun b hb => hkey b (List.mem_cons_of_mem _ hb))
        (fun b hb => hvalue b (List.mem_cons_of_mem _ hb))
      have hcons := Json.Members.cons Json.ws_nil (hkey a List.mem_cons_self).chars Json.ws_nil
        Json.ws_nil (hvalue a List.mem_cons_self) Json.ws_nil hrest
      rw [List.map_cons, List.map_cons, List.map_cons, List.map_cons,
        List.intercalate_cons_cons]
      simpa using hcons

theorem denotes_stats {cs : List Container} (h : ∀ c ∈ cs, NumberedId c.id) :
    Json.Denotes (.obj (cs.map (statsMember host)))
      (OutBuf.body [123] (cs.map (statsText host)) ++ [125]) := by
  have htexts : cs.map (statsText host) = cs.map fun c =>
      Json.quoted c.id ++ 58 :: Json.object [("rss_mb", fmtNat (rssKb host c / 1024))] :=
    List.map_congr_left fun c hc => statsText_eq host (h c hc)
  rw [htexts]
  refine denotes_dict (fun c hc => (h c hc).plain.1) fun c hc => ?_
  refine Json.denotes_object (.cons ?_ .nil)
  exact Json.memberOf (by decide +kernel) (.num (numberText_fmtNat _))

/-! ## The loop -/

/-- What the calls of the loop change. -/
structure Telemetered (Threshold : Type) where
  metrics : Metrics
  alerts : List (Alert Threshold)
  log : EventBus.Log

variable [LinearOrder Threshold]

/-- An `eventbus_emit`. -/
def emitAlert (t : Telemetered Threshold) (call : EventBus.Emit) : Telemetered Threshold :=
  { t with
    metrics := metricsOnEvent (t.log.bus.publish call).2 t.metrics
    log := EventBus.eventbusEmit t.log call }

/-- The two calls made for a container. -/
def sampleContainer (t : Telemetered Threshold) (c : Container) : Telemetered Threshold :=
  let kb := rssKb host c
  let checked := alertCheckSample host.ops
    { id := some c.id, hasCpuPct := false, cpuPct := host.zero, rssMb := host.mb kb
      now := host.now c } t.alerts
  (checked.events.map Prod.snd).foldl emitAlert
    { t with metrics := metricsUpdateMemHighwater (kb / 1024) t.metrics, alerts := checked.alerts }

/-- The loop. -/
def statsLoop : Bool → List Container → OutBuf → Telemetered Threshold →
    OutBuf × Telemetered Threshold
  | _, [], o, t => (o, t)
  | first, c :: cs, o, t =>
    if o.written + 128 < o.mem.length then
      if c.state ≠ .running ∨ c.pid ≤ 0 then statsLoop first cs o t
      else
        let text := statsText host c
        statsLoop false cs (o.snprintf (if first then text else 44 :: text))
          (sampleContainer host t c)
    else (o, t)

def containerStatsJsonAll (list : List Container) (buf : Bytes) (t : Telemetered Threshold) :
    Bytes × Int × Telemetered Threshold :=
  if buf.length ≤ 2 then (buf, -1, t)
  else
    let (o, t) := statsLoop host true list (OutBuf.snprintf { mem := buf, written := 0 } [123]) t
    let o := o.close [125]
    (o.mem, o.written, t)

/-- The containers that the loop does not pass over. -/
def sampled (list : List Container) : List Container :=
  list.filter fun c => c.state = .running ∧ 0 < c.pid

theorem not_sampled_iff :
    (c.state ≠ .running ∨ c.pid ≤ 0) ↔ ¬ (c.state = .running ∧ 0 < c.pid) := by
  rw [not_and_or, not_lt]

/-- How the loop ends: with whole entries of the first `k` containers that it
does not pass over, and these are the ones it has sampled. -/
theorem statsLoop_spec {len : Nat} {printed : List Bytes} {cs : List Container} {o : OutBuf}
    {t : Telemetered Threshold} (hids : ∀ c ∈ cs, NumberedId c.id)
    (h : OutBuf.Holds o len (OutBuf.body [123] printed))
    (hroom : (OutBuf.body [123] printed).length + 1 < len) :
    ∃ k, OutBuf.Holds (statsLoop host printed.isEmpty cs o t).1 len
          (OutBuf.body [123] (printed ++ ((sampled cs).take k).map (statsText host))) ∧
      (OutBuf.body [123] (printed ++ ((sampled cs).take k).map (statsText host))).length + 1 < len ∧
      (statsLoop host printed.isEmpty cs o t).2 =
        ((sampled cs).take k).foldl (sampleContainer host) t ∧
      ((sampled cs).take k = sampled cs ∨
        len ≤ (OutBuf.body [123] (printed ++ ((sampled cs).take k).map (statsText host))).length +
          128) := by
  induction cs generalizing printed o t with
  | nil => exact ⟨0, by simpa [sampled, statsLoop] using ⟨h, hroom⟩⟩
  | cons c cs ih =>
    rw [List.forall_mem_cons] at hids
    have hlen : o.mem.length = len := h.1
    have hwritten : o.written = (OutBuf.body [123] printed).length := h.2.1
    rw [statsLoop, hlen, hwritten]
    by_cases hguard : (OutBuf.body [123] printed).length + 128 < len
    · rw [if_pos hguard]
      by_cases hrun : c.state = .running ∧ 0 < c.pid
      · have hsampled : sampled (c :: cs) = c :: sampled cs := by simp [sampled, hrun]
        -- the guard leaves room for a whole entry, however long its number is
        have hbound := length_statsText host hids.1
        have hsnoc := OutBuf.body_snoc [123] printed (statsText host c)
        have hsum : (OutBuf.body [123] (printed ++ [statsText host c])).length ≤
            (OutBuf.body [123] printed).length + ((statsText host c).length + 1) := by
          rw [hsnoc, List.length_append]
          split <;> simp
        have hfits : (OutBuf.body [123] printed).length +
            (if printed.isEmpty = true then statsText host c
              else 44 :: statsText host c).length < len := by
          split
          · omega
          · rw [List.length_cons]
            omega
        have hholds := h.snprintf hfits
        rw [← hsnoc] at hholds
        have hfalse : (printed ++ [statsText host c]).isEmpty = false := by simp
        obtain ⟨k, hk⟩ := ih (t := sampleContainer host t c) hids.2 hholds (by omega)
        rw [hfalse, List.append_assoc, List.singleton_append] at hk
        rw [if_neg fun hskip => not_sampled_iff.mp hskip hrun, hsampled]
        refine ⟨k + 1, ?_⟩
        rw [List.take_succ_cons, List.map_cons, List.foldl_cons]
        exact ⟨hk.1, hk.2.1, hk.2.2.1, hk.2.2.2.imp_left fun hall => by rw [hall]⟩
      · have hsampled : sampled (c :: cs) = sampled cs := by simp [sampled, hrun]
        rw [if_pos (not_sampled_iff.mpr hrun), hsampled]
        exact ih hids.2 h hroom
    · rw [if_neg hguard]
      refine ⟨0, ?_⟩
      simp only [List.take_zero, List.map_nil, List.append_nil, List.foldl_nil]
      exact ⟨h, hroom, trivial, .inr (by omega)⟩

/-- **An object at any time**: after every run the answer is an object with a key
for each of the first `k` running containers, and these are the ones that are
sampled, in the order of the list. If some are missing, less than 128 bytes were
left. -/
theorem container_stats_json {m₀ m : Manager} {ops : List UserOp} (h₀ : IdsOf NumberedId m₀)
    (hrun : RunOk (fun m op => userStep op m) (fun m op => CreatesOk ⟨m, []⟩ op) m₀ ops m)
    {buf : Bytes} (hbuf : 2 < buf.length) (t : Telemetered Threshold) :
    ∃ k text, (containerStatsJsonAll host m.list buf t).2.1 = (text.length : Int) ∧
      text.length < buf.length ∧
      (∃ rest, (containerStatsJsonAll host m.list buf t).1 = text ++ 0 :: rest) ∧
      Json.Denotes (.obj (((sampled m.list).take k).map (statsMember host))) text ∧
      (((sampled m.list).take k).map Container.id).Nodup ∧
      (containerStatsJsonAll host m.list buf t).2.2 =
        ((sampled m.list).take k).foldl (sampleContainer host) t ∧
      ((sampled m.list).take k = sampled m.list ∨ buf.length ≤ text.length + 127) := by
  have h : IdsOf NumberedId m := by
    refine hrun.invariant (fun m op m' h hok hs => ?_) h₀
    exact h.step (fun spec hspec => numberedId_containerId (hok spec hspec)) hs
  have hopen : OutBuf.Holds (OutBuf.snprintf { mem := buf, written := 0 } [123]) buf.length
      (OutBuf.body [123] []) :=
    @OutBuf.snprintf_fits buf.length [] buf [123] rfl (by simp; omega)
  obtain ⟨k, hholds, hroom, hsampled, hend⟩ := statsLoop_spec host (t := t) h.form hopen
    (by simp [OutBuf.body]; omega)
  rw [List.nil_append] at hholds hroom hend
  -- the loop has left room for the closing brace
  have hclosed := @OutBuf.Holds.close _ _ _ [125] hholds hroom
  obtain ⟨hlen, hwritten, rest, hmem⟩ := hclosed
  have hfits : (OutBuf.body [123] (((sampled m.list).take k).map (statsText host)) ++
      [125]).length < buf.length := by
    rw [List.length_append]
    exact hroom
  have hids : ∀ c ∈ (sampled m.list).take k, NumberedId c.id :=
    fun c hc => h.form c (List.mem_of_mem_filter (List.mem_of_mem_take hc))
  have hnodup : (((sampled m.list).take k).map Container.id).Nodup := by
    refine h.ids.sublist (List.Sublist.map _ ?_)
    exact (List.take_sublist _ _).trans List.filter_sublist
  have hbig : ¬ buf.length ≤ 2 := by omega
  unfold containerStatsJsonAll
  rw [if_neg hbig]
  refine ⟨k, _, ?_, hfits, ⟨rest, hmem⟩, denotes_stats host hids, hnodup, hsampled, ?_⟩
  · exact congrArg Int.ofNat hwritten
  · refine hend.imp_right fun hfull => ?_
    rw [List.length_append, List.length_singleton]
    omega

end

/-- Every process has 12800 kB. -/
def sleepHost : StatsHost Int where
  status := fun _ => some (bytes "Name:\tsleep\nVmRSS:\t   12800 kB\nThreads:\t1\n")
  ops := intOps
  zero := 0
  mb := fun kb => kb / 1024
  now := fun _ => 0

def quietTelemetry : Telemetered Int where
  metrics := metricsInit 0
  alerts := alertInit
  log := .empty

/-- One container is running and one is not. -/
theorem container_stats_json_sleep :
    ∃ m, RunOk (fun m op => userStep op m) (fun m op => CreatesOk ⟨m, []⟩ op) Manager.init
        [.life (.create .clean .zero), .life (.create .clean .zero),
          .life (.start .quiet (.clean (.ofNat 100)) (containerId 2))] m ∧
      (containerStatsJsonAll sleepHost m.list (List.replicate 256 0) quietTelemetry).1.take 33 =
        bytes "\x7b\"container-0002\":\x7b\"rss_mb\":12\x7d\x7d" ++ [0] ∧
      ∃ k, (containerStatsJsonAll sleepHost m.list (List.replicate 256 0) quietTelemetry).2.2 =
        ((sampled m.list).take k).foldl (sampleContainer sleepHost) quietTelemetry := by
  obtain ⟨m, hrun, hanswer⟩ := exists_runOk_of_exec (fun m op => userStep op m)
    (fun m op => CreatesOk ⟨m, []⟩ op) Manager.init
    [.life (.create .clean .zero), .life (.create .clean .zero),
      .life (.start .quiet (.clean (.ofNat 100)) (containerId 2))]
    (fun m => (containerStatsJsonAll sleepHost m.list (List.replicate 256 0)
        quietTelemetry).1.take 33 =
      bytes "\x7b\"container-0002\":\x7b\"rss_mb\":12\x7d\x7d" ++ [0]) (by decide +kernel)
  have hinit : IdsOf NumberedId Manager.init :=
    ⟨wf_init, List.nodup_nil, List.forall_mem_nil _⟩
  have hbuf : 2 < (List.replicate 256 (0 : UInt8)).length := by
    rw [List.length_replicate]
    omega
  obtain ⟨k, -, -, -, -, -, -, hsampled, -⟩ :=
    container_stats_json sleepHost hinit hrun hbuf quietTelemetry
  exact ⟨m, hrun, hanswer, k, hsampled⟩

end ContainerSim.Runtime
