import ContainerSim.Telemetry.Counters
import Mathlib.Order.Bounds.Defs

/-!
# Startup latencies

What the latency fields hold after any number of samples, and that the 99th
percentile read off the histogram is the order statistic of the samples with
that rank. Samples of more than ten minutes are not counted.
-/

namespace ContainerSim.Telemetry

open Lib EventBus

/-- The samples that are counted. -/
def accepted (samples : List Nat) : List Nat :=
  samples.filter fun ms => ms ≤ maxReasonableStartupMs

/-- The latency fields after these samples. -/
structure Recorded (samples : List Nat) (m : Metrics) : Prop where
  count : m.startupCount = samples.length % 2 ^ 64
  total : m.startupTotalMs = samples.sum % 2 ^ 64
  max : m.startupMaxMs = samples.foldl max 0
  min : m.startupMinMs = samples.foldl min ulongMax
  buckets : ∀ i, m.startupBuckets i = (samples.map bucketOf).count i % 2 ^ 64

theorem recorded_init (now : Int64) : Recorded [] (metricsInit now) :=
  ⟨rfl, rfl, rfl, rfl, fun _ => rfl⟩

theorem addUlong_mod (a b : Nat) : addUlong (a % 2 ^ 64) b = (a + b) % 2 ^ 64 :=
  Nat.mod_add_mod a (2 ^ 64) b

/-- One sample. -/
theorem Recorded.record {samples : List Nat} {m : Metrics} (h : Recorded samples m) {ms : Nat}
    (hms : ms ≤ maxReasonableStartupMs) :
    Recorded (samples ++ [ms]) (metricsRecordStartupMs ms m) := by
  have hs := sampled_record hms m
  constructor
  · rw [hs.count, h.count, addUlong_mod, List.length_append]
    rfl
  · rw [hs.total, h.total, addUlong_mod, List.sum_append, List.sum_singleton]
  · rw [hs.max, h.max, List.foldl_append]
    rfl
  · rw [hs.min, h.min, List.foldl_append]
    rfl
  · intro i
    rw [hs.buckets, h.buckets, List.map_append, List.count_append]
    by_cases hi : i = bucketOf ms
    · subst hi
      rw [if_pos rfl, addUlong_mod]
      simp
    · have hne : ¬ bucketOf ms = i := fun heq => hi heq.symm
      rw [if_neg hi]
      simp [hne]

/-- All samples, the ones that are not counted among them. -/
theorem Recorded.run {acc : List Nat} {m : Metrics} (h : Recorded acc m) (samples : List Nat) :
    Recorded (acc ++ accepted samples)
      (samples.foldl (fun m ms => metricsRecordStartupMs ms m) m) := by
  induction samples generalizing acc m with
  | nil =>
    show Recorded (acc ++ []) m
    rwa [List.append_nil]
  | cons ms samples ih =>
    by_cases hms : ms ≤ maxReasonableStartupMs
    · have hnext := ih (h.record hms)
      rw [List.append_assoc] at hnext
      rw [accepted, List.filter_cons_of_pos (by simpa using hms)]
      exact hnext
    · have hsame := record_of_lt (Nat.lt_of_not_le hms) m
      rw [accepted, List.filter_cons_of_neg (by simpa using hms), List.foldl_cons, hsame]
      exact ih h

/-! ## The statistics -/

/-- `metrics_init`, and then these calls of `metrics_record_startup_ms`. -/
def recordAll (now : Int64) (samples : List Nat) : Metrics :=
  samples.foldl (fun m ms => metricsRecordStartupMs ms m) (metricsInit now)

theorem recorded_all (now : Int64) (samples : List Nat) :
    Recorded (accepted samples) (recordAll now samples) :=
  (recorded_init now).run samples

section
variable {samples : List Nat} {m : Metrics}

theorem Recorded.count_eq (h : Recorded samples m) (hlen : samples.length * 99 + 99 < 2 ^ 64) :
    m.startupCount = samples.length :=
  h.count.trans (Nat.mod_eq_of_lt (by omega))

/-- No bucket has wrapped, so they are the histogram of the capped samples. -/
theorem Recorded.buckets_eq (h : Recorded samples m) (hlen : samples.length * 99 + 99 < 2 ^ 64) :
    m.startupBuckets = fun i => (samples.map bucketOf).count i := by
  funext i
  have hle : (samples.map bucketOf).count i ≤ (samples.map bucketOf).length := List.count_le_length
  rw [List.length_map] at hle
  rw [h.buckets, Nat.mod_eq_of_lt (by omega)]

theorem Recorded.sum_buckets (h : Recorded samples m) (hlen : samples.length * 99 + 99 < 2 ^ 64) :
    cumulative m.startupBuckets latBuckets = samples.length := by
  rw [h.buckets_eq hlen, cumulative_count]
  have hall : (samples.map bucketOf).countP (fun x => decide (x < latBuckets)) =
      (samples.map bucketOf).length := by
    rw [List.countP_eq_length]
    intro x hx
    obtain ⟨ms, -, rfl⟩ := List.mem_map.mp hx
    exact decide_eq_true (bucketOf_lt ms)
  rw [hall, List.length_map]

theorem Recorded.p99 (h : Recorded samples m) (hne : samples ≠ [])
    (hlen : samples.length * 99 + 99 < 2 ^ 64) :
    kthSmallest (samples.map bucketOf) (p99Target samples.length) = some (computeP99 m) := by
  have hpos : 0 < samples.length := List.length_pos_of_ne_nil hne
  have hcount := h.count_eq hlen
  have hsum := h.sum_buckets hlen
  have htarget := p99Target_of_lt hlen
  have hreach : reach m.startupBuckets (p99Target samples.length) latBuckets 0 0 =
      kthSmallest (samples.map bucketOf) (p99Target samples.length) := by
    rw [h.buckets_eq hlen]
    refine reach_eq_kthSmallest ?_ (by omega) ?_
    · intro x hx
      obtain ⟨ms, -, rfl⟩ := List.mem_map.mp hx
      exact bucketOf_lt ms
    · rw [List.length_map]
      omega
  have hlt : p99Target samples.length - 1 < (samples.map bucketOf).length := by
    rw [List.length_map]
    omega
  rw [computeP99_eq (by omega) (by omega), hcount, hreach]
  cases hkth : kthSmallest (samples.map bucketOf) (p99Target samples.length) with
  | some v => rfl
  | none =>
    have hperm := List.mergeSort_perm (samples.map bucketOf) fun a b => decide (a ≤ b)
    rw [kthSmallest, List.getElem?_eq_none_iff, hperm.length_eq] at hkth
    omega

theorem Recorded.min_eq (h : Recorded samples m) (hne : samples ≠ [])
    (hall : ∀ ms ∈ samples, ms ≤ maxReasonableStartupMs) :
    samples.min? = some m.startupMinMs := by
  obtain ⟨ms, rest, rfl⟩ := List.exists_cons_of_ne_nil hne
  have hfirst : Min.min ulongMax ms = ms := by
    have hle := hall ms List.mem_cons_self
    rw [maxReasonableStartupMs] at hle
    rw [ulongMax]
    omega
  rw [h.min, List.min?_cons', List.foldl_cons, hfirst]

theorem Recorded.max_eq (h : Recorded samples m) (hne : samples ≠ []) :
    samples.max? = some m.startupMaxMs := by
  obtain ⟨ms, rest, rfl⟩ := List.exists_cons_of_ne_nil hne
  rw [h.max, List.max?_cons', List.foldl_cons, Nat.zero_max]

end

/-- What the latency fields and the percentile should be for these samples. -/
structure LatencyExact (samples : List Nat) (m : Metrics) : Prop where
  p99 : ∃ k, IsLeast {k : Nat | 99 * samples.length ≤ 100 * k} k ∧
    kthSmallest (samples.map fun ms => min ms (latBuckets - 1)) k = some (computeP99 m)
  count : m.startupCount = samples.length
  buckets : cumulative m.startupBuckets latBuckets = samples.length
  min : samples.min? = some m.startupMinMs
  max : samples.max? = some m.startupMaxMs

/-- **p99 is the order statistic** of rank 0.99 `n`, rounded up, of the capped
samples; the counts, the minimum and the maximum are those of the samples, and
the total is their sum as an `unsigned long`. -/
theorem latency_exact (now : Int64) {samples : List Nat} (hne : accepted samples ≠ [])
    (hlen : (accepted samples).length * 99 + 99 < 2 ^ 64) :
    LatencyExact (accepted samples) (recordAll now samples) ∧
      (recordAll now samples).startupTotalMs = (accepted samples).sum % 2 ^ 64 := by
  have h := recorded_all now samples
  have hall : ∀ ms ∈ accepted samples, ms ≤ maxReasonableStartupMs := by
    intro ms hms
    exact of_decide_eq_true (List.mem_filter.mp hms).2
  have hcap : (fun ms => min ms (latBuckets - 1)) = bucketOf := (funext bucketOf_eq).symm
  obtain ⟨hreaches, hleast⟩ := p99Target_spec hlen
  refine ⟨⟨⟨p99Target (accepted samples).length, ⟨hreaches, fun k hk => hleast k hk⟩, ?_⟩,
    h.count_eq hlen, h.sum_buckets hlen, h.min_eq hne hall, h.max_eq hne⟩, h.total⟩
  rw [hcap]
  exact h.p99 hne hlen

/-- Three starts, one of them not counted. -/
theorem latency_exact_three :
    LatencyExact [120, 2500] (recordAll 0 [120, 700000, 2500]) ∧
      (recordAll 0 [120, 700000, 2500]).startupTotalMs = [120, 2500].sum % 2 ^ 64 :=
  @latency_exact 0 [120, 700000, 2500] (by decide) (by decide)

/-- `2 ^ 45` starts of ten minutes: the total wraps long before the count does. -/
theorem not_latency_exact :
    ¬ ∀ (now : Int64) (samples : List Nat), accepted samples ≠ [] →
      (accepted samples).length * 99 + 99 < 2 ^ 64 →
      LatencyExact (accepted samples) (recordAll now samples) ∧
        (recordAll now samples).startupTotalMs = (accepted samples).sum := by
  intro hclaim
  obtain ⟨k, hk⟩ : ∃ k : Nat, k = 2 ^ 45 := ⟨_, rfl⟩
  have hall : accepted (List.replicate k 600000) = List.replicate k 600000 := by
    rw [accepted, List.filter_eq_self]
    intro ms hms
    rw [(List.mem_replicate.mp hms).2]
    decide
  have hne : List.replicate k 600000 ≠ [] := by
    rw [Ne, List.replicate_eq_nil_iff]
    omega
  have htotal := (hclaim 0 (List.replicate k 600000) (by rw [hall]; exact hne) (by
    rw [hall, List.length_replicate]
    omega)).2
  rw [(recorded_all 0 (List.replicate k 600000)).total, hall, List.sum_replicate_nat] at htotal
  have hlt := Nat.mod_lt (k * 600000) (show 0 < 2 ^ 64 by decide)
  omega

end ContainerSim.Telemetry
