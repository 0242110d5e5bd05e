import ContainerSim.Lib.Run
import ContainerSim.Telemetry.Persistence

/-!
# Counters over restarts

A process counts, saves, loads and starts again, in any order and with any
files. What holds of the metrics in every state holds of those a file was
written from as well (`Keeps.run`). As long as the number of startups and their
total do not wrap, the startup statistics make sense (`Sane`), so
`metrics_load` never drops them and all sixteen counters come back.
-/

namespace ContainerSim.Telemetry

open Lib EventBus

/-! ## Processes and files -/

/-- The metrics of the process, and the files that have been written. -/
structure Machine where
  metrics : Metrics
  files : Bytes → Option Bytes

/-- The first process, before there is any file. -/
def Machine.start (now : Int64) : Machine := { metrics := metricsInit now, files := fun _ => none }

/-- What an `fopen` for reading finds. -/
def Machine.opened (s : Machine) (path : Bytes) (readable : Bool) : Option Bytes :=
  if readable then s.files path else none

/-- A call, with whether the `fopen` of a file goes well. -/
inductive Call
  | init (now : Int64)
  | event (e : Event)
  | record (ms : UInt64)
  | highwater (mb : UInt64)
  | save (path : Bytes) (writable : Bool)
  | load (path : Bytes) (readable : Bool)

def Call.run (s : Machine) : Call → Machine
  | .init now => { s with metrics := metricsInit now }
  | .event e => { s with metrics := metricsOnEvent e s.metrics }
  | .record ms => { s with metrics := metricsRecordStartupMs ms.toNat s.metrics }
  | .highwater mb => { s with metrics := metricsUpdateMemHighwater mb.toNat s.metrics }
  | .save path writable =>
    let file := metricsSave writable s.metrics (s.files path)
    { s with files := Function.update s.files path file }
  | .load path readable =>
    { s with metrics := metricsLoad (s.opened path readable) s.metrics }

def machineStep (s : Machine) (c : Call) : Option Machine := some (c.run s)

/-- A run goes on with any call. -/
theorem runOk_call {ok : Machine → Call → Prop} {s s' : Machine} {calls : List Call}
    (hrun : RunOk machineStep ok s calls s') (c : Call) (hok : ok s' c) :
    RunOk machineStep ok s (calls ++ [c]) (c.run s') :=
  hrun.snoc hok rfl

/-- What holds of the metrics and of the ones that each file was written from. -/
structure Throughout (Q : Metrics → Prop) (s : Machine) : Prop where
  metrics : Q s.metrics
  files : ∀ path file, s.files path = some file → ∃ saved, Q saved ∧ file = metricsText saved

/-- `Q` is kept by each function, where `ok` allows the call. -/
structure Keeps (ok : Machine → Call → Prop) (Q : Metrics → Prop) : Prop where
  init : ∀ now, Q (metricsInit now)
  event : ∀ e m, Q m → Q (metricsOnEvent e m)
  record : ∀ s ms, ok s (.record ms) → Q s.metrics →
    Q (metricsRecordStartupMs ms.toNat s.metrics)
  highwater : ∀ (mb : UInt64) m, Q m → Q (metricsUpdateMemHighwater mb.toNat m)
  load : ∀ saved m, Q saved → Q m → Q (metricsLoad (some (metricsText saved)) m)

section
variable {ok : Machine → Call → Prop} {Q : Metrics → Prop}

theorem Throughout.opened {s : Machine} (h : Throughout Q s) {path : Bytes} {readable : Bool}
    {file : Bytes} (hopen : s.opened path readable = some file) :
    ∃ saved, Q saved ∧ file = metricsText saved := by
  cases readable with
  | false => cases hopen
  | true => exact h.files path file hopen

theorem Throughout.save {s : Machine} (h : Throughout Q s) (path : Bytes) (writable : Bool) :
    Throughout Q (Call.run s (.save path writable)) := by
  refine ⟨h.metrics, fun path' file hfile => ?_⟩
  change Function.update s.files path _ path' = some file at hfile
  by_cases hpath : path' = path
  · subst hpath
    rw [Function.update_self] at hfile
    cases writable with
    | false => exact h.files path' file hfile
    | true => exact ⟨s.metrics, h.metrics, (Option.some.inj hfile).symm⟩
  · rw [Function.update_of_ne hpath] at hfile
    exact h.files path' file hfile

/-- One call. -/
theorem Keeps.step (hQ : Keeps ok Q) {s s' : Machine} {c : Call} (h : Throughout Q s)
    (hok : ok s c) (hs : machineStep s c = some s') : Throughout Q s' := by
  cases hs
  cases c with
  | init now => exact ⟨hQ.init now, h.files⟩
  | event e => exact ⟨hQ.event e s.metrics h.metrics, h.files⟩
  | record ms => exact ⟨hQ.record s ms hok h.metrics, h.files⟩
  | highwater mb => exact ⟨hQ.highwater mb s.metrics h.metrics, h.files⟩
  | save path writable => exact h.save path writable
  | load path readable =>
    refine ⟨?_, h.files⟩
    show Q (metricsLoad (s.opened path readable) s.metrics)
    cases hopen : s.opened path readable with
    | none => exact h.metrics
    | some file =>
      obtain ⟨saved, hsaved, rfl⟩ := h.opened hopen
      exact hQ.load saved s.metrics hsaved h.metrics

theorem Keeps.start (hQ : Keeps ok Q) (now : Int64) : Throughout Q (.start now) :=
  ⟨hQ.init now, fun _ _ hfile => by cases hfile⟩

/-- Every run. -/
theorem Keeps.run (hQ : Keeps ok Q) {now : Int64} {calls : List Call} {s : Machine}
    (hrun : RunOk machineStep ok (.start now) calls s) : Throughout Q s :=
  hrun.invariant (fun _ _ _ h hok hs => hQ.step h hok hs) (hQ.start now)

end

/-! ## Functions that leave the startups alone -/

structure SameStartup (m m' : Metrics) : Prop where
  count : m'.startupCount = m.startupCount
  total : m'.startupTotalMs = m.startupTotalMs
  max : m'.startupMaxMs = m.startupMaxMs
  min : m'.startupMinMs = m.startupMinMs
  buckets : m'.startupBuckets = m.startupBuckets

theorem sameStartup_event (e : Event) (m : Metrics) : SameStartup m (metricsOnEvent e m) := by
  rw [metricsOnEvent]
  split <;> exact ⟨rfl, rfl, rfl, rfl, rfl⟩

theorem sameStartup_highwater (mb : Nat) (m : Metrics) :
    SameStartup m (metricsUpdateMemHighwater mb m) := by
  rw [metricsUpdateMemHighwater]
  split <;> exact ⟨rfl, rfl, rfl, rfl, rfl⟩

/-! ## The range of the counters -/

theorem addUlong_lt (a b : Nat) : addUlong a b < 2 ^ 64 :=
  Nat.mod_lt _ (by omega)

theorem Bounded.of_get {m m' : Metrics} (h : Bounded m)
    (hget : ∀ c : Counter, c.get m' = c.get m ∨ c.get m' < 2 ^ 64) : Bounded m' := by
  intro c
  rcases hget c with heq | hlt
  · rw [heq]
    exact h c
  · exact hlt

theorem bounded_init (now : Int64) : Bounded (metricsInit now) := by
  intro c
  cases c with
  | startupMinMs =>
    show 2 ^ 64 - 1 < 2 ^ 64
    omega
  | _ => exact Nat.two_pow_pos 64

theorem Bounded.count {m : Metrics} (h : Bounded m) (c : Counter) :
    Bounded (c.set m (addUlong (c.get m) 1)) := by
  intro d
  rw [Counter.get_set]
  split
  · exact addUlong_lt _ _
  · exact h d

theorem Bounded.event {m : Metrics} (h : Bounded m) (e : Event) : Bounded (metricsOnEvent e m) := by
  have hclock : Bounded { m with lastEventTime := e.timestamp } :=
    h.of_get fun c => .inl (by cases c <;> rfl)
  have hall := hclock.count .eventsTotal
  rw [metricsOnEvent]
  split
  · exact hall.count .containersStarted
  · exact hall.count .containersStopped
  · exact hall.count .containersDeleted
  · exact hall.count .containersPaused
  · exact hall.count .containersUnpaused
  · exact hall.count .execLaunches
  · exact hall.count .oomKills
  · exact hall.count .imagesBuilt
  · exact hall.count .imagesRemoved
  · exact hall.count .schedToggles
  · exact hall.count .schedToggles
  · exact hall

theorem Bounded.record {m : Metrics} (h : Bounded m) (ms : Nat) :
    Bounded (metricsRecordStartupMs ms m) := by
  by_cases hms : ms ≤ maxReasonableStartupMs
  · have hs := sampled_record hms m
    have hmax : m.startupMaxMs < 2 ^ 64 := h .startupMaxMs
    have hmin : m.startupMinMs < 2 ^ 64 := h .startupMinMs
    have hulong : maxReasonableStartupMs < 2 ^ 64 := by decide
    apply h.of_get
    intro c
    cases c with
    | startupCount => exact .inr (hs.count.trans_lt (addUlong_lt _ _))
    | startupTotalMs => exact .inr (hs.total.trans_lt (addUlong_lt _ _))
    | startupMaxMs =>
      refine .inr (hs.max.trans_lt ?_)
      omega
    | startupMinMs =>
      refine .inr (hs.min.trans_lt ?_)
      omega
    | _ =>
      left
      rw [metricsRecordStartupMs, if_neg (Nat.not_lt.mpr hms)]
      rfl
  · rw [record_of_lt (Nat.lt_of_not_le hms)]
    exact h

theorem Bounded.highwater {m : Metrics} (h : Bounded m) (mb : UInt64) :
    Bounded (metricsUpdateMemHighwater mb.toNat m) := by
  rw [metricsUpdateMemHighwater]
  split
  · have hset : Bounded (Counter.memHighwaterMb.set m mb.toNat) := by
      intro c
      rw [Counter.get_set]
      split
      · exact mb.toNat_lt
      · exact h c
    exact hset
  · exact h

theorem Bounded.resetStartup {m : Metrics} (h : Bounded m) : Bounded m.resetStartup := by
  apply h.of_get
  intro c
  cases c with
  | startupCount | startupTotalMs | startupMaxMs => exact .inr (Nat.two_pow_pos 64)
  | startupMinMs =>
    right
    show 2 ^ 64 - 1 < 2 ^ 64
    omega
  | _ => exact .inl rfl

theorem Bounded.normalize {m : Metrics} (h : Bounded m) :
    Bounded (normalizeStartupMetrics m) := by
  rw [normalizeStartupMetrics]
  split
  · exact h.resetStartup
  · split
    · exact h.resetStartup
    · exact h

theorem bounded_keeps (ok : Machine → Call → Prop) : Keeps ok Bounded where
  init := bounded_init
  event e _ h := h.event e
  record _ ms _ h := h.record ms.toNat
  highwater mb _ h := h.highwater mb
  load saved m hsaved _ := by
    rw [metricsLoad_text hsaved]
    apply Bounded.normalize
    exact hsaved.of_get fun c => .inl (by cases c <;> rfl)

/-! ## Statistics that make sense -/

/-- What `normalize_startup_metrics_locked` looks for, and why it does not find
it: the total is the sum of samples of at most ten minutes, among them the
greatest. -/
structure Sane (m : Metrics) : Prop where
  bounded : Bounded m
  none : m.startupCount = 0 → m.startupMinMs = ulongMax
  order : m.startupCount ≠ 0 → m.startupMinMs ≤ m.startupMaxMs
  max_le : m.startupMaxMs ≤ maxReasonableStartupMs
  max_le_total : m.startupMaxMs ≤ m.startupTotalMs
  average : m.startupTotalMs ≤ maxReasonableStartupMs * m.startupCount

/-- A sample that counts makes neither the number nor the total wrap. -/
def Unwrapped (s : Machine) : Call → Prop
  | .record ms => ms.toNat ≤ maxReasonableStartupMs →
    s.metrics.startupCount + 1 < 2 ^ 64 ∧ s.metrics.startupTotalMs + ms.toNat < 2 ^ 64
  | _ => True

theorem sane_init (now : Int64) : Sane (metricsInit now) where
  bounded := bounded_init now
  none _ := rfl
  order h := absurd rfl h
  max_le := Nat.zero_le _
  max_le_total := Nat.le_refl 0
  average := Nat.zero_le _

theorem Sane.of_startup {m m' : Metrics} (h : Sane m) (hbounded : Bounded m')
    (hcount : m'.startupCount = m.startupCount) (htotal : m'.startupTotalMs = m.startupTotalMs)
    (hmax : m'.startupMaxMs = m.startupMaxMs) (hmin : m'.startupMinMs = m.startupMinMs) :
    Sane m' := by
  constructor
  · exact hbounded
  · rw [hcount, hmin]
    exact h.none
  · rw [hcount, hmin, hmax]
    exact h.order
  · rw [hmax]
    exact h.max_le
  · rw [hmax, htotal]
    exact h.max_le_total
  · rw [htotal, hcount]
    exact h.average

/-- Only the counters matter. -/
theorem Sane.of_get {m m' : Metrics} (h : Sane m) (hget : ∀ c : Counter, c.get m' = c.get m) :
    Sane m' :=
  h.of_startup (h.bounded.of_get fun c => .inl (hget c)) (hget .startupCount)
    (hget .startupTotalMs) (hget .startupMaxMs) (hget .startupMinMs)

theorem Sane.event {m : Metrics} (h : Sane m) (e : Event) : Sane (metricsOnEvent e m) :=
  have hsame := sameStartup_event e m
  h.of_startup (h.bounded.event e) hsame.count hsame.total hsame.max hsame.min

theorem Sane.highwater {m : Metrics} (h : Sane m) (mb : UInt64) :
    Sane (metricsUpdateMemHighwater mb.toNat m) :=
  have hsame := sameStartup_highwater mb.toNat m
  h.of_startup (h.bounded.highwater mb) hsame.count hsame.total hsame.max hsame.min

theorem Sane.record {m : Metrics} (h : Sane m) {ms : Nat}
    (hwrap : ms ≤ maxReasonableStartupMs →
      m.startupCount + 1 < 2 ^ 64 ∧ m.startupTotalMs + ms < 2 ^ 64) :
    Sane (metricsRecordStartupMs ms m) := by
  by_cases hms : ms ≤ maxReasonableStartupMs
  · have hs := sampled_record hms m
    obtain ⟨hcount, htotal⟩ := hwrap hms
    have hmax := h.max_le
    have hsum := h.max_le_total
    have haverage := h.average
    have hulong : maxReasonableStartupMs < ulongMax := by decide
    constructor
    · exact h.bounded.record ms
    · rw [hs.count, addUlong_of_lt hcount]
      intro hzero
      omega
    · intro _
      rw [hs.min, hs.max]
      by_cases hzero : m.startupCount = 0
      · have hfirst := h.none hzero
        omega
      · have horder := h.order hzero
        omega
    · rw [hs.max]
      omega
    · rw [hs.max, hs.total, addUlong_of_lt htotal]
      omega
    · rw [hs.total, hs.count, addUlong_of_lt htotal, addUlong_of_lt hcount, Nat.mul_succ]
      omega
  · rw [record_of_lt (Nat.lt_of_not_le hms)]
    exact h

/-- **`normalize_startup_metrics_locked` drops nothing** that makes sense. -/
theorem Sane.get_normalize {m : Metrics} (h : Sane m) (c : Counter) :
    c.get (normalizeStartupMetrics m) = c.get m := by
  have hmax := h.max_le
  have hsum := h.max_le_total
  have haverage := h.average
  by_cases hzero : m.startupCount = 0
  · have hmin := h.none hzero
    rw [hzero, Nat.mul_zero] at haverage
    rw [normalizeStartupMetrics, if_pos hzero]
    cases c with
    | startupCount => exact hzero.symm
    | startupTotalMs =>
      show 0 = m.startupTotalMs
      omega
    | startupMaxMs =>
      show 0 = m.startupMaxMs
      omega
    | startupMinMs => exact hmin.symm
    | _ => rfl
  · have hmin := h.order hzero
    have hulong : maxReasonableStartupMs < ulongMax := by decide
    have hquot : m.startupTotalMs / m.startupCount ≤ maxReasonableStartupMs := by
      rw [Nat.mul_comm] at haverage
      exact Nat.div_le_of_le_mul haverage
    rw [normalizeStartupMetrics, if_neg hzero, if_neg (by omega)]

theorem Sane.get_load {saved : Metrics} (h : Sane saved) (m : Metrics) (c : Counter) :
    c.get (metricsLoad (some (metricsText saved)) m) = c.get saved := by
  have hsame : ∀ d : Counter, d.get { saved with
      startupBuckets := m.startupBuckets, uptimeStart := m.uptimeStart
      lastEventTime := m.lastEventTime } = d.get saved := by
    intro d
    cases d <;> rfl
  rw [metricsLoad_text h.bounded, (h.of_get hsame).get_normalize, hsame]

theorem sane_keeps : Keeps Unwrapped Sane where
  init := sane_init
  event e _ h := h.event e
  record _ _ hok h := h.record hok
  highwater mb _ h := h.highwater mb
  load _ m hsaved _ := hsaved.of_get (hsaved.get_load m)

/-- **The counters survive a restart**: whatever was counted, saved and loaded
before, saving now and loading after `metrics_init` gives all sixteen back. -/
theorem counters_survive {now : Int64} {calls : List Call} {s : Machine}
    (hrun : RunOk machineStep Unwrapped (.start now) calls s) (file : Option Bytes)
    (later : Int64) (c : Counter) :
    c.get (metricsLoad (metricsSave true s.metrics file) (metricsInit later)) = c.get s.metrics :=
  (sane_keeps.run hrun).metrics.get_load (metricsInit later) c

/-- One start of 5 ms. -/
theorem counters_survive_one :
    Counter.startupMinMs.get (metricsLoad (metricsSave true
      (metricsRecordStartupMs 5 (metricsInit 0)) none) (metricsInit 9)) = 5 := by
  have hrecord : Unwrapped (.start 0) (.record 5) := fun _ => by decide
  have hrun : RunOk machineStep Unwrapped (.start 0) [.record 5]
      (Call.run (.start 0) (.record 5)) := runOk_call (.nil _) _ hrecord
  exact counters_survive hrun none 9 .startupMinMs

end ContainerSim.Telemetry
