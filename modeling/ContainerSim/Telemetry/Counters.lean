import ContainerSim.EventBus.Bus
import ContainerSim.Lib.OrderStat

/-!
# The runtime metrics

The counters of `metrics.c` and what changes them. They are `unsigned long`, so
an addition is taken modulo 2 ^ 64. A critical section of `g_lock` is one
function; the printed tables are left out, and of what they show only the 99th
percentile is computed.
-/

namespace ContainerSim.Telemetry

open Lib EventBus

/-- `METRICS_LAT_BUCKETS`. -/
def latBuckets : Nat := 2000

/-- `MAX_REASONABLE_STARTUP_MS`. -/
def maxReasonableStartupMs : Nat := 10 * 60 * 1000

/-- `ULONG_MAX`. -/
def ulongMax : Nat := 2 ^ 64 - 1

/-- `+` on `unsigned long`. -/
def addUlong (a b : Nat) : Nat := (a + b) % 2 ^ 64

structure Metrics where
  containersStarted : Nat
  containersStopped : Nat
  containersDeleted : Nat
  containersPaused : Nat
  execLaunches : Nat
  oomKills : Nat
  imagesBuilt : Nat
  imagesRemoved : Nat
  schedToggles : Nat
  containersUnpaused : Nat
  eventsTotal : Nat
  startupCount : Nat
  startupTotalMs : Nat
  startupMaxMs : Nat
  /-- `ULONG_MAX` if there are no samples yet -/
  startupMinMs : Nat
  /-- the histogram, below `latBuckets` -/
  startupBuckets : Nat → Nat
  memHighwaterMb : Nat
  uptimeStart : Int64
  lastEventTime : Int64

/-- `metrics_init`. -/
def metricsInit (now : Int64) : Metrics :=
  { containersStarted := 0, containersStopped := 0, containersDeleted := 0, containersPaused := 0
    execLaunches := 0, oomKills := 0, imagesBuilt := 0, imagesRemoved := 0, schedToggles := 0
    containersUnpaused := 0, eventsTotal := 0, startupCount := 0, startupTotalMs := 0
    startupMaxMs := 0, startupMinMs := ulongMax, startupBuckets := fun _ => 0
    memHighwaterMb := 0, uptimeStart := now, lastEventTime := 0 }

/-- `metrics_on_event`. -/
def metricsOnEvent (e : Event) (m : Metrics) : Metrics :=
  let m := { m with lastEventTime := e.timestamp, eventsTotal := addUlong m.eventsTotal 1 }
  match e.type with
  | .containerStarted => { m with containersStarted := addUlong m.containersStarted 1 }
  | .containerStopped => { m with containersStopped := addUlong m.containersStopped 1 }
  | .containerDeleted => { m with containersDeleted := addUlong m.containersDeleted 1 }
  | .containerPaused => { m with containersPaused := addUlong m.containersPaused 1 }
  | .containerUnpaused => { m with containersUnpaused := addUlong m.containersUnpaused 1 }
  | .execLaunched => { m with execLaunches := addUlong m.execLaunches 1 }
  | .oomKill => { m with oomKills := addUlong m.oomKills 1 }
  | .imageBuilt => { m with imagesBuilt := addUlong m.imagesBuilt 1 }
  | .imageRemoved => { m with imagesRemoved := addUlong m.imagesRemoved 1 }
  | .schedEnabled | .schedDisabled => { m with schedToggles := addUlong m.schedToggles 1 }
  | _ => m

/-- The bucket of a sample: the last one takes all from 1999 ms on. -/
def bucketOf (ms : Nat) : Nat := if ms < latBuckets then ms else latBuckets - 1

/-- `metrics_record_startup_ms`. -/
def metricsRecordStartupMs (ms : Nat) (m : Metrics) : Metrics :=
  if ms > maxReasonableStartupMs then m
  else
    { m with
      startupCount := addUlong m.startupCount 1
      startupTotalMs := addUlong m.startupTotalMs ms
      startupMaxMs := if ms > m.startupMaxMs then ms else m.startupMaxMs
      startupMinMs := if ms < m.startupMinMs then ms else m.startupMinMs
      startupBuckets := fun i =>
        if i = bucketOf ms then addUlong (m.startupBuckets i) 1 else m.startupBuckets i }

/-- `metrics_update_mem_highwater`. -/
def metricsUpdateMemHighwater (mb : Nat) (m : Metrics) : Metrics :=
  if mb > m.memHighwaterMb then { m with memHighwaterMb := mb } else m

/-- The loop of `compute_p99`, with `fuel` buckets to go. -/
def p99Loop (buckets : Nat → Nat) (target : Nat) : Nat → Nat → Nat → Nat
  | 0, _, _ => latBuckets - 1
  | fuel + 1, i, cumulative =>
    let cumulative := addUlong cumulative (buckets i)
    if cumulative ≥ target then i else p99Loop buckets target fuel (i + 1) cumulative

/-- `target` of `compute_p99`. -/
def p99Target (count : Nat) : Nat := addUlong (count * 99 % 2 ^ 64) 99 / 100

/-- `compute_p99`. -/
def computeP99 (m : Metrics) : Nat :=
  if m.startupCount = 0 then 0
  else p99Loop m.startupBuckets (p99Target m.startupCount) latBuckets 0 0

/-! ## Buckets -/

theorem bucketOf_eq (ms : Nat) : bucketOf ms = min ms (latBuckets - 1) := by
  rw [bucketOf, latBuckets]
  split
  · omega
  · omega

theorem bucketOf_lt (ms : Nat) : bucketOf ms < latBuckets := by
  rw [bucketOf_eq, latBuckets]
  omega

theorem bucketOf_mono {a b : Nat} (h : a ≤ b) : bucketOf a ≤ bucketOf b := by
  rw [bucketOf_eq, bucketOf_eq]
  omega

/-! ## A sample -/

/-- What a sample that counts does. -/
structure Sampled (ms : Nat) (m m' : Metrics) : Prop where
  count : m'.startupCount = addUlong m.startupCount 1
  total : m'.startupTotalMs = addUlong m.startupTotalMs ms
  max : m'.startupMaxMs = max m.startupMaxMs ms
  min : m'.startupMinMs = min m.startupMinMs ms
  buckets : ∀ i, m'.startupBuckets i =
    if i = bucketOf ms then addUlong (m.startupBuckets i) 1 else m.startupBuckets i

theorem sampled_record {ms : Nat} (hms : ms ≤ maxReasonableStartupMs) (m : Metrics) :
    Sampled ms m (metricsRecordStartupMs ms m) := by
  rw [metricsRecordStartupMs, if_neg (Nat.not_lt.mpr hms)]
  refine ⟨rfl, rfl, ?_, ?_, fun _ => rfl⟩
  · show (if ms > m.startupMaxMs then ms else m.startupMaxMs) = max m.startupMaxMs ms
    split
    · omega
    · omega
  · show (if ms < m.startupMinMs then ms else m.startupMinMs) = min m.startupMinMs ms
    split
    · omega
    · omega

theorem record_of_lt {ms : Nat} (hms : maxReasonableStartupMs < ms) (m : Metrics) :
    metricsRecordStartupMs ms m = m :=
  if_pos hms

/-! ## Without wrapping -/

theorem addUlong_of_lt {a b : Nat} (h : a + b < 2 ^ 64) : addUlong a b = a + b :=
  Nat.mod_eq_of_lt h

theorem p99Target_of_lt {count : Nat} (h : count * 99 + 99 < 2 ^ 64) :
    p99Target count = (count * 99 + 99) / 100 := by
  rw [p99Target, Nat.mod_eq_of_lt (by omega), addUlong_of_lt h]

/-- The target is `count * 0.99` rounded up. -/
theorem p99Target_spec {count : Nat} (h : count * 99 + 99 < 2 ^ 64) :
    99 * count ≤ 100 * p99Target count ∧ ∀ k, 99 * count ≤ 100 * k → p99Target count ≤ k := by
  rw [p99Target_of_lt h]
  constructor
  · omega
  · intro k hk
    omega

theorem p99Loop_eq {buckets : Nat → Nat} {target fuel i : Nat}
    (h : cumulative buckets (i + fuel) < 2 ^ 64) :
    p99Loop buckets target fuel i (cumulative buckets i) =
      (reach buckets target fuel i (cumulative buckets i)).getD (latBuckets - 1) := by
  induction fuel generalizing i with
  | zero => rfl
  | succ fuel ih =>
    have hend : i + (fuel + 1) = i + 1 + fuel := by omega
    rw [hend] at h
    have hmono := cumulative_mono buckets (Nat.le_add_right (i + 1) fuel)
    have hnext : addUlong (cumulative buckets i) (buckets i) = cumulative buckets (i + 1) :=
      addUlong_of_lt (Nat.lt_of_le_of_lt hmono h)
    rw [p99Loop, reach, hnext]
    show (if target ≤ cumulative buckets (i + 1) then i else _) =
      (if target ≤ cumulative buckets (i + 1) then some i else _).getD _
    split
    · rfl
    · exact ih h

/-- The loop finds where the sum over the histogram gets to the target. -/
theorem computeP99_eq {m : Metrics} (hcount : m.startupCount ≠ 0)
    (hsum : cumulative m.startupBuckets latBuckets < 2 ^ 64) :
    computeP99 m =
      (reach m.startupBuckets (p99Target m.startupCount) latBuckets 0 0).getD (latBuckets - 1) := by
  rw [computeP99, if_neg hcount]
  refine p99Loop_eq ?_
  rwa [Nat.zero_add]

end ContainerSim.Telemetry
