import ContainerSim.Lib.Decimal
import ContainerSim.Lib.Lines
import ContainerSim.Lib.Run
import ContainerSim.Telemetry.Counters
import Mathlib.Logic.Function.Basic

/-!
# metrics.state

`metrics_save` writes sixteen of the counters, a line `name=value` for each, and
`metrics_load` reads them back. Statistics of the startups that make no sense
are dropped after reading. The histogram and the times are not in the file.
-/

namespace ContainerSim.Telemetry

open Lib EventBus

/-- The counters of the file, in the order of its lines. -/
inductive Counter
  | containersStarted | containersStopped | containersDeleted | containersPaused
  | containersUnpaused | execLaunches | oomKills | imagesBuilt | imagesRemoved | schedToggles
  | eventsTotal | startupCount | startupTotalMs | startupMaxMs | startupMinMs | memHighwaterMb
  deriving DecidableEq

namespace Counter

def all : List Counter :=
  [containersStarted, containersStopped, containersDeleted, containersPaused, containersUnpaused,
    execLaunches, oomKills, imagesBuilt, imagesRemoved, schedToggles, eventsTotal, startupCount,
    startupTotalMs, startupMaxMs, startupMinMs, memHighwaterMb]

def name : Counter → Bytes
  | containersStarted => bytes "containers_started"
  | containersStopped => bytes "containers_stopped"
  | containersDeleted => bytes "containers_deleted"
  | containersPaused => bytes "containers_paused"
  | containersUnpaused => bytes "containers_unpaused"
  | execLaunches => bytes "exec_launches"
  | oomKills => bytes "oom_kills"
  | imagesBuilt => bytes "images_built"
  | imagesRemoved => bytes "images_removed"
  | schedToggles => bytes "sched_toggles"
  | eventsTotal => bytes "events_total"
  | startupCount => bytes "startup_count"
  | startupTotalMs => bytes "startup_total_ms"
  | startupMaxMs => bytes "startup_max_ms"
  | startupMinMs => bytes "startup_min_ms"
  | memHighwaterMb => bytes "mem_highwater_mb"

def get (m : Metrics) : Counter → Nat
  | containersStarted => m.containersStarted
  | containersStopped => m.containersStopped
  | containersDeleted => m.containersDeleted
  | containersPaused => m.containersPaused
  | containersUnpaused => m.containersUnpaused
  | execLaunches => m.execLaunches
  | oomKills => m.oomKills
  | imagesBuilt => m.imagesBuilt
  | imagesRemoved => m.imagesRemoved
  | schedToggles => m.schedToggles
  | eventsTotal => m.eventsTotal
  | startupCount => m.startupCount
  | startupTotalMs => m.startupTotalMs
  | startupMaxMs => m.startupMaxMs
  | startupMinMs => m.startupMinMs
  | memHighwaterMb => m.memHighwaterMb

def set (m : Metrics) (v : Nat) : Counter → Metrics
  | containersStarted => { m with containersStarted := v }
  | containersStopped => { m with containersStopped := v }
  | containersDeleted => { m with containersDeleted := v }
  | containersPaused => { m with containersPaused := v }
  | containersUnpaused => { m with containersUnpaused := v }
  | execLaunches => { m with execLaunches := v }
  | oomKills => { m with oomKills := v }
  | imagesBuilt => { m with imagesBuilt := v }
  | imagesRemoved => { m with imagesRemoved := v }
  | schedToggles => { m with schedToggles := v }
  | eventsTotal => { m with eventsTotal := v }
  | startupCount => { m with startupCount := v }
  | startupTotalMs => { m with startupTotalMs := v }
  | startupMaxMs => { m with startupMaxMs := v }
  | startupMinMs => { m with startupMinMs := v }
  | memHighwaterMb => { m with memHighwaterMb := v }

end Counter

/-- A line of the file, without the newline. -/
def counterLine (m : Metrics) (c : Counter) : Bytes := c.name ++ 61 :: fmtNat (c.get m)

def metricsText (m : Metrics) : Bytes := Counter.all.flatMap fun c => counterLine m c ++ [10]

/-- `metrics_save`: the file at the path before and after. -/
def metricsSave (writable : Bool) (m : Metrics) (file : Option Bytes) : Option Bytes :=
  if !writable then file else some (metricsText m)

/-- One round of the loop of `metrics_load`, on what `fgets` has read. -/
def loadLine (m : Metrics) (piece : Bytes) : Metrics :=
  let line := cstr piece
  match line.dropWhile (· ≠ 61) with
  | [] => m
  | _ :: rest =>
    match Counter.all.find? fun c => c.name = line.takeWhile (· ≠ 61) with
    | some c => c.set m (strtoul rest)
    | none => m

/-- The startup statistics of an empty history. -/
def Metrics.resetStartup (m : Metrics) : Metrics :=
  { m with
    startupCount := 0, startupTotalMs := 0, startupMaxMs := 0, startupMinMs := ulongMax
    startupBuckets := fun _ => 0 }

/-- `normalize_startup_metrics_locked`. -/
def normalizeStartupMetrics (m : Metrics) : Metrics :=
  if m.startupCount = 0 then m.resetStartup
  else if m.startupMinMs = ulongMax ∨ m.startupMinMs > m.startupMaxMs ∨
      m.startupTotalMs < m.startupMaxMs ∨
      m.startupTotalMs / m.startupCount > maxReasonableStartupMs then m.resetStartup
  else m

/-- `metrics_load`: `file` is what `fopen` finds. -/
def metricsLoad (file : Option Bytes) (m : Metrics) : Metrics :=
  match file with
  | none => m
  | some file => normalizeStartupMetrics ((chunks 128 file).foldl loadLine m)

/-! ## Reading what was written -/

namespace Counter

theorem name_length_le (c : Counter) : c.name.length ≤ 19 := by
  cases c <;> decide

/-- A name is made of small letters and `_`. -/
theorem name_bytes (c : Counter) : ∀ b ∈ c.name, 95 ≤ b := by
  have hall : c.name.all (fun b => 95 ≤ b) = true := by cases c <;> rfl
  intro b hb
  exact of_decide_eq_true (List.all_eq_true.mp hall b hb)

/-- The names tell the counters apart. -/
theorem find_name (c : Counter) : all.find? (fun d => d.name = c.name) = some c := by
  cases c <;> rfl

/-- What is written to one counter does not touch the others. -/
theorem get_set (m : Metrics) (v : Nat) (c d : Counter) :
    d.get (c.set m v) = if d = c then v else d.get m := by
  cases c <;> cases d <;> rfl

end Counter

/-- The counters are in the range of `unsigned long`. -/
def Bounded (m : Metrics) : Prop := ∀ c : Counter, c.get m < 2 ^ 64

theorem not_mem_counterLine {b : UInt8} (h : b = 0 ∨ b = 10) (m : Metrics) (c : Counter) :
    b ∉ counterLine m c := by
  intro hmem
  rcases List.mem_append.mp hmem with hname | hrest
  · have hle := c.name_bytes b hname
    rcases h with rfl | rfl
    · exact absurd hle (by decide)
    · exact absurd hle (by decide)
  · rcases List.mem_cons.mp hrest with heq | hdigit
    · rcases h with rfl | rfl
      · exact absurd heq (by decide)
      · exact absurd heq (by decide)
    · have hnum := fmtBase_isDigit (b := 10) (by omega) (by omega) (c.get m) b hdigit
      rcases h with rfl | rfl
      · exact absurd hnum (by decide)
      · exact absurd hnum (by decide)

theorem length_counterLine_le {m : Metrics} (h : Bounded m) (c : Counter) :
    (counterLine m c).length ≤ 40 := by
  have hname := c.name_length_le
  have hnum := fmtNat_length_le (k := 20) (by omega) (Nat.lt_trans (h c) (by decide))
  rw [counterLine, List.length_append, List.length_cons]
  omega

/-- Its line sets a counter. -/
theorem loadLine_counterLine {saved : Metrics} (h : Bounded saved) (m : Metrics) (c : Counter) :
    loadLine m (counterLine saved c ++ [10]) = c.set m (c.get saved) := by
  have hstr : cstr (counterLine saved c ++ [10]) = counterLine saved c ++ [10] := by
    apply cstr_eq_self
    intro hmem
    rcases List.mem_append.mp hmem with hline | hnl
    · exact not_mem_counterLine (.inl rfl) saved c hline
    · exact absurd hnl (by decide)
  have hname : ∀ b ∈ c.name, decide (b ≠ 61) = true := by
    intro b hb
    have hle := c.name_bytes b hb
    rw [decide_eq_true_eq]
    intro heq
    subst heq
    exact absurd hle (by decide)
  have hsplit : counterLine saved c ++ [10] = c.name ++ 61 :: (fmtNat (c.get saved) ++ [10]) := by
    rw [counterLine, List.append_assoc]
    rfl
  have hdrop : (counterLine saved c ++ [10]).dropWhile (· ≠ 61) =
      61 :: (fmtNat (c.get saved) ++ [10]) := by
    rw [hsplit, List.dropWhile_append_of_pos hname]
    rfl
  have htake : (counterLine saved c ++ [10]).takeWhile (· ≠ 61) = c.name := by
    rw [hsplit, List.takeWhile_append_of_pos hname]
    exact List.append_nil _
  have hval : strtoul (fmtNat (c.get saved) ++ [10]) = c.get saved :=
    strtoul_fmtNat_append (h c) (NoDigit.cons rfl [])
  rw [loadLine, hstr]
  simp only [hdrop, htake, Counter.find_name, hval]

theorem foldl_set (saved m : Metrics) :
    Counter.all.foldl (fun m c => c.set m (c.get saved)) m =
      { saved with
        startupBuckets := m.startupBuckets, uptimeStart := m.uptimeStart
        lastEventTime := m.lastEventTime } := by
  simp only [Counter.all, List.foldl_cons, List.foldl_nil, Counter.set, Counter.get]

/-- The file of a `metrics_save`: only what is not in it stays, and then the
startup statistics are checked. -/
theorem metricsLoad_text {saved : Metrics} (h : Bounded saved) (m : Metrics) :
    metricsLoad (some (metricsText saved)) m =
      normalizeStartupMetrics { saved with
        startupBuckets := m.startupBuckets, uptimeStart := m.uptimeStart
        lastEventTime := m.lastEventTime } := by
  have hrows : metricsText saved =
      (Counter.all.map (counterLine saved)).flatMap fun r => r ++ [10] := by
    rw [metricsText, List.flatMap_map]
  have hchunks : chunks 128 (metricsText saved) =
      (Counter.all.map (counterLine saved)).map fun r => r ++ [10] := by
    rw [hrows]
    apply chunks_lines
    intro r hr
    obtain ⟨c, -, rfl⟩ := List.mem_map.mp hr
    have hlen := length_counterLine_le h c
    exact ⟨by omega, not_mem_counterLine (.inr rfl) saved c⟩
  have hlines : ∀ (cs : List Counter) (m : Metrics),
      ((cs.map (counterLine saved)).map fun r => r ++ [10]).foldl loadLine m =
        cs.foldl (fun m c => c.set m (c.get saved)) m := by
    intro cs
    induction cs with
    | nil => intro m; rfl
    | cons c cs ih =>
      intro m
      rw [List.map_cons, List.map_cons, List.foldl_cons, List.foldl_cons,
        loadLine_counterLine h m c, ih]
  show normalizeStartupMetrics ((chunks 128 (metricsText saved)).foldl loadLine m) = _
  rw [hchunks, hlines, foldl_set]

end ContainerSim.Telemetry
