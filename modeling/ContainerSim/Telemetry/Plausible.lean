import ContainerSim.Telemetry.Restore

/-!
# A plausible percentile

`compute_p99` reads the histogram, which is in memory only, against the number
of the startups, which comes back from the file together with the minimum and
the maximum. The result lies between these two exactly if the histogram holds
enough of the startups and not too many below the minimum (`Covered`). A sample
keeps that. Loading a file keeps it if the histogram of the process happens to
cover what the file says (`Matches`); right after `metrics_init` it covers only
files that have no startups, or one of 1999 ms or more.
-/

namespace ContainerSim.Telemetry

open Lib EventBus

/-- The percentile lies between the minimum and the maximum, capped at the last
bucket. -/
structure Plausible (m : Metrics) : Prop where
  low : min m.startupMinMs (latBuckets - 1) ≤ computeP99 m
  high : computeP99 m ≤ min m.startupMaxMs (latBuckets - 1)

/-- Less than 99 % of the startups are in buckets below the minimum, and 99 % in
those up to the maximum, which is not asked for in the last bucket. -/
structure Covered (m : Metrics) : Prop where
  below : 100 * cumulative m.startupBuckets (bucketOf m.startupMinMs) < 99 * m.startupCount
  upto : 99 * m.startupCount ≤ 100 * cumulative m.startupBuckets (bucketOf m.startupMaxMs + 1) ∨
    latBuckets - 1 ≤ m.startupMaxMs

/-- Neither the target nor the sum over the histogram wraps. -/
structure InRange (m : Metrics) : Prop where
  target : m.startupCount * 99 + 99 < 2 ^ 64
  sum : cumulative m.startupBuckets latBuckets < 2 ^ 64

theorem plausible_iff {m : Metrics} (hrange : InRange m) (hcount : m.startupCount ≠ 0) :
    Plausible m ↔ Covered m := by
  obtain ⟨hreaches, hleast⟩ := p99Target_spec hrange.target
  have hpos : 0 < p99Target m.startupCount := by omega
  have hbelow : ∀ k, k < p99Target m.startupCount ↔ 100 * k < 99 * m.startupCount := by
    intro k
    constructor
    · intro hlt
      by_contra hge
      have hle := hleast k (Nat.le_of_not_lt hge)
      omega
    · intro hlt
      omega
  have hlow := le_reach_iff (c := m.startupBuckets) hpos (bucketOf_lt m.startupMinMs)
  have hhigh := reach_le_iff (c := m.startupBuckets) hpos (bucketOf_lt m.startupMaxMs)
  rw [← computeP99_eq hcount hrange.sum] at hlow hhigh
  have hlast : bucketOf m.startupMaxMs = latBuckets - 1 ↔ latBuckets - 1 ≤ m.startupMaxMs := by
    rw [bucketOf_eq]
    omega
  rw [hbelow] at hlow
  rw [hlast, ← Nat.not_lt, ← Nat.not_lt, hbelow, Nat.not_lt, Nat.not_lt] at hhigh
  constructor
  · intro h
    have hmin := (bucketOf_eq m.startupMinMs).trans_le h.low
    have hmax := h.high.trans_eq (bucketOf_eq m.startupMaxMs).symm
    exact ⟨hlow.mp hmin, hhigh.mp hmax⟩
  · intro h
    have hmin := hlow.mpr h.below
    have hmax := hhigh.mpr h.upto
    exact ⟨(bucketOf_eq m.startupMinMs).symm.trans_le hmin,
      hmax.trans_eq (bucketOf_eq m.startupMaxMs)⟩

/-- An empty histogram covers no startups but slow ones. -/
theorem covered_empty {m : Metrics} (hempty : ∀ i, m.startupBuckets i = 0)
    (hcount : m.startupCount ≠ 0) : Covered m ↔ latBuckets - 1 ≤ m.startupMaxMs := by
  have hzero := cumulative_eq_zero hempty
  constructor
  · intro h
    rcases h.upto with hle | hslow
    · rw [hzero] at hle
      omega
    · exact hslow
  · intro hslow
    refine ⟨?_, .inr hslow⟩
    rw [hzero]
    omega

/-! ## What each call may do -/

/-- The statistics in a file, as a process without any reads them. -/
def inFile (file : Option Bytes) : Metrics := metricsLoad file (metricsInit 0)

/-- The call keeps the target and the sum over the histogram in range. -/
def InRangeCall (s : Machine) : Call → Prop
  | .record ms => ms.toNat ≤ maxReasonableStartupMs →
    (s.metrics.startupCount + 1) * 99 + 99 < 2 ^ 64 ∧
      cumulative s.metrics.startupBuckets latBuckets + 1 < 2 ^ 64
  | .load path readable => (inFile (s.opened path readable)).startupCount * 99 + 99 < 2 ^ 64
  | _ => True

/-- A file that is loaded has no startups, or the histogram covers them. -/
def Matches (s : Machine) : Call → Prop
  | .load path readable =>
    let m := inFile (s.opened path readable)
    m.startupCount ≠ 0 → Covered { m with startupBuckets := s.metrics.startupBuckets }
  | _ => True

/-! ## A sample -/

theorem record_buckets {m : Metrics} {ms : Nat} (hms : ms ≤ maxReasonableStartupMs)
    (hsum : cumulative m.startupBuckets latBuckets + 1 < 2 ^ 64) :
    (metricsRecordStartupMs ms m).startupBuckets =
      fun i => if i = bucketOf ms then m.startupBuckets i + 1 else m.startupBuckets i := by
  funext i
  rw [(sampled_record hms m).buckets]
  by_cases hi : i = bucketOf ms
  · have hle := le_cumulative m.startupBuckets (hi ▸ bucketOf_lt ms)
    rw [if_pos hi, if_pos hi, addUlong_of_lt (by omega)]
  · rw [if_neg hi, if_neg hi]

/-- The histogram covers the startups it has seen, and is empty before the first. -/
structure Backed (m : Metrics) : Prop where
  range : InRange m
  none : m.startupCount = 0 → ∀ i, m.startupBuckets i = 0
  covered : m.startupCount ≠ 0 → Covered m

theorem backed_init (now : Int64) : Backed (metricsInit now) where
  range := by
    constructor
    · show 0 * 99 + 99 < 2 ^ 64
      omega
    · show cumulative (fun _ => 0) latBuckets < 2 ^ 64
      rw [cumulative_eq_zero fun _ => rfl]
      exact Nat.two_pow_pos 64
  none _ _ := rfl
  covered h := absurd rfl h

theorem InRange.record {m : Metrics} (hcount : (m.startupCount + 1) * 99 + 99 < 2 ^ 64)
    (hsum : cumulative m.startupBuckets latBuckets + 1 < 2 ^ 64) {ms : Nat}
    (hms : ms ≤ maxReasonableStartupMs) : InRange (metricsRecordStartupMs ms m) := by
  constructor
  · rw [(sampled_record hms m).count, addUlong_of_lt (by omega)]
    exact hcount
  · rw [record_buckets hms hsum, cumulative_update, if_pos (bucketOf_lt ms)]
    exact hsum

theorem Backed.record {m : Metrics} (h : Backed m) {ms : Nat} (hms : ms ≤ maxReasonableStartupMs)
    (hcount : (m.startupCount + 1) * 99 + 99 < 2 ^ 64)
    (hsum : cumulative m.startupBuckets latBuckets + 1 < 2 ^ 64) :
    Backed (metricsRecordStartupMs ms m) := by
  have hs := sampled_record hms m
  have hbuckets := record_buckets hms hsum
  have hrange := InRange.record hcount hsum hms
  generalize metricsRecordStartupMs ms m = m' at hs hbuckets hrange
  have hnext : m'.startupCount = m.startupCount + 1 := by
    rw [hs.count, addUlong_of_lt (by omega)]
  -- the minimum only falls and the maximum only grows
  have hmin : m'.startupMinMs ≤ ms ∧ m'.startupMinMs ≤ m.startupMinMs := by
    rw [hs.min]
    omega
  have hmax : ms ≤ m'.startupMaxMs ∧ m.startupMaxMs ≤ m'.startupMaxMs := by
    rw [hs.max]
    omega
  refine ⟨hrange, fun hzero => by omega, fun _ => ⟨?_, ?_⟩⟩
  · -- the sample is not below the minimum
    have hnot : ¬ bucketOf ms < bucketOf m'.startupMinMs :=
      Nat.not_lt.mpr (bucketOf_mono hmin.1)
    rw [hbuckets, cumulative_update, if_neg hnot, hnext]
    by_cases hzero : m.startupCount = 0
    · rw [cumulative_eq_zero (h.none hzero)]
      omega
    · have hbelow := (h.covered hzero).below
      have hmono := cumulative_mono m.startupBuckets (bucketOf_mono hmin.2)
      omega
  · -- and it is not above the maximum
    have hin : bucketOf ms < bucketOf m'.startupMaxMs + 1 :=
      Nat.lt_succ_of_le (bucketOf_mono hmax.1)
    rw [hbuckets, cumulative_update, if_pos hin, hnext]
    by_cases hzero : m.startupCount = 0
    · rw [hzero]
      omega
    · have hmono := cumulative_mono m.startupBuckets (Nat.succ_le_succ (bucketOf_mono hmax.2))
      rcases (h.covered hzero).upto with hupto | hslow
      · change cumulative m.startupBuckets (bucketOf m.startupMaxMs + 1) ≤
          cumulative m.startupBuckets (bucketOf m'.startupMaxMs + 1) at hmono
        omega
      · exact .inr (hslow.trans hmax.2)

/-! ## A file -/

theorem Covered.of_eq {m m' : Metrics} (h : Covered m) (hcount : m'.startupCount = m.startupCount)
    (hmin : m'.startupMinMs = m.startupMinMs) (hmax : m'.startupMaxMs = m.startupMaxMs)
    (hbuckets : m'.startupBuckets = m.startupBuckets) : Covered m' := by
  constructor
  · rw [hcount, hmin, hbuckets]
    exact h.below
  · rw [hcount, hmax, hbuckets]
    exact h.upto

/-- The startups after a file was loaded: what it says, and a histogram that is
cleared if that is nothing. -/
structure Loaded (m file m' : Metrics) : Prop where
  count : m'.startupCount = file.startupCount
  min : m'.startupMinMs = file.startupMinMs
  max : m'.startupMaxMs = file.startupMaxMs
  cleared : m'.startupCount = 0 → ∀ i, m'.startupBuckets i = 0
  kept : m'.startupCount ≠ 0 → m'.startupBuckets = m.startupBuckets

theorem loaded_text {saved : Metrics} (h : Bounded saved) (m : Metrics) :
    Loaded m (inFile (some (metricsText saved))) (metricsLoad (some (metricsText saved)) m) := by
  rw [inFile, metricsLoad_text h, metricsLoad_text h]
  rw [normalizeStartupMetrics, normalizeStartupMetrics]
  by_cases hzero : saved.startupCount = 0
  · rw [if_pos hzero, if_pos hzero]
    exact ⟨rfl, rfl, rfl, fun _ _ => rfl, fun hcount => absurd rfl hcount⟩
  rw [if_neg hzero, if_neg hzero]
  by_cases hodd : saved.startupMinMs = ulongMax ∨ saved.startupMinMs > saved.startupMaxMs ∨
      saved.startupTotalMs < saved.startupMaxMs ∨
      saved.startupTotalMs / saved.startupCount > maxReasonableStartupMs
  · rw [if_pos hodd, if_pos hodd]
    exact ⟨rfl, rfl, rfl, fun _ _ => rfl, fun hcount => absurd rfl hcount⟩
  · rw [if_neg hodd, if_neg hodd]
    exact ⟨rfl, rfl, rfl, fun hcount => absurd hcount hzero, fun _ => rfl⟩

section
variable {m file m' : Metrics}

theorem Loaded.inRange (h : Loaded m file m') (hrange : InRange m)
    (htarget : file.startupCount * 99 + 99 < 2 ^ 64) : InRange m' := by
  constructor
  · rw [h.count]
    exact htarget
  · by_cases hzero : m'.startupCount = 0
    · rw [cumulative_eq_zero (h.cleared hzero)]
      exact Nat.two_pow_pos 64
    · rw [h.kept hzero]
      exact hrange.sum

theorem Loaded.covered_iff (h : Loaded m file m') (hcount : m'.startupCount ≠ 0) :
    Covered m' ↔ Covered { file with startupBuckets := m.startupBuckets } := by
  constructor
  · intro hcov
    exact hcov.of_eq h.count.symm h.min.symm h.max.symm (h.kept hcount).symm
  · intro hcov
    exact hcov.of_eq h.count h.min h.max (h.kept hcount)

end

theorem Backed.of_same {m m' : Metrics} (h : Backed m) (hsame : SameStartup m m') : Backed m' := by
  refine ⟨⟨?_, ?_⟩, ?_, ?_⟩
  · rw [hsame.count]
    exact h.range.target
  · rw [hsame.buckets]
    exact h.range.sum
  · rw [hsame.count, hsame.buckets]
    exact h.none
  · intro hcount
    rw [hsame.count] at hcount
    exact (h.covered hcount).of_eq hsame.count hsame.min hsame.max hsame.buckets

/-! ## Every run -/

theorem Backed.step {s s' : Machine} {c : Call} (hfiles : Throughout Bounded s)
    (h : Backed s.metrics) (hrange : InRangeCall s c) (hmatch : Matches s c)
    (hs : machineStep s c = some s') : Backed s'.metrics := by
  cases hs
  cases c with
  | init now => exact backed_init now
  | event e => exact h.of_same (sameStartup_event e s.metrics)
  | highwater mb => exact h.of_same (sameStartup_highwater mb.toNat s.metrics)
  | save path writable => exact h
  | record ms =>
    show Backed (metricsRecordStartupMs ms.toNat s.metrics)
    by_cases hms : ms.toNat ≤ maxReasonableStartupMs
    · obtain ⟨hcount, hsum⟩ := hrange hms
      exact h.record hms hcount hsum
    · rw [record_of_lt (Nat.lt_of_not_le hms)]
      exact h
  | load path readable =>
    change (inFile (s.opened path readable)).startupCount * 99 + 99 < 2 ^ 64 at hrange
    change (inFile (s.opened path readable)).startupCount ≠ 0 →
      Covered { inFile (s.opened path readable) with
        startupBuckets := s.metrics.startupBuckets } at hmatch
    show Backed (metricsLoad (s.opened path readable) s.metrics)
    cases hopen : s.opened path readable with
    | none => exact h
    | some file =>
      rw [hopen] at hrange hmatch
      obtain ⟨saved, hsaved, rfl⟩ := hfiles.opened hopen
      have hloaded := loaded_text hsaved s.metrics
      refine ⟨hloaded.inRange h.range hrange, hloaded.cleared, fun hcount => ?_⟩
      rw [hloaded.covered_iff hcount]
      rw [hloaded.count] at hcount
      exact hmatch hcount

theorem backed_run {now : Int64} {calls : List Call} {s : Machine}
    (hrun : RunOk machineStep (fun s c => InRangeCall s c ∧ Matches s c) (.start now) calls s) :
    Backed s.metrics := by
  induction hrun with
  | nil => exact backed_init now
  | snoc hrun hok hs ih =>
    have hfiles := (bounded_keeps _).run hrun
    exact ih.step hfiles hok.1 hok.2 hs

/-- If the percentile is plausible after the call, the file that it loads
matches. -/
theorem Backed.matches {s : Machine} {c : Call} (hfiles : Throughout Bounded s)
    (h : Backed s.metrics) (hrange : InRangeCall s c)
    (hafter : (c.run s).metrics.startupCount ≠ 0 → Plausible (c.run s).metrics) :
    Matches s c := by
  cases c with
  | load path readable =>
    change (inFile (s.opened path readable)).startupCount * 99 + 99 < 2 ^ 64 at hrange
    change (metricsLoad (s.opened path readable) s.metrics).startupCount ≠ 0 →
      Plausible (metricsLoad (s.opened path readable) s.metrics) at hafter
    show (inFile (s.opened path readable)).startupCount ≠ 0 →
      Covered { inFile (s.opened path readable) with
        startupBuckets := s.metrics.startupBuckets }
    cases hopen : s.opened path readable with
    | none => exact fun hcount => absurd rfl hcount
    | some file =>
      rw [hopen] at hrange hafter
      obtain ⟨saved, hsaved, rfl⟩ := hfiles.opened hopen
      have hloaded := loaded_text hsaved s.metrics
      intro hcount
      rw [← hloaded.count] at hcount
      rw [← hloaded.covered_iff hcount,
        ← plausible_iff (hloaded.inRange h.range hrange) hcount]
      exact hafter hcount
  | init | event | record | highwater | save => trivial

/-- In every state of the run with startups the percentile is plausible. -/
def PlausibleThroughout (now : Int64) (calls : List Call) : Prop :=
  ∀ calls₁ calls₂ t, calls = calls₁ ++ calls₂ → Runs machineStep (.start now) calls₁ t →
    t.metrics.startupCount ≠ 0 → Plausible t.metrics

/-! ## One start and a restart -/

/-- One start is counted and saved, the process ends, and the next one loads the
file. -/
def oneStart (path : Bytes) (ms : UInt64) : List Call :=
  [] ++ [.record ms] ++ [.save path true] ++ [.init 60] ++ [.load path true]

def afterOneStart (path : Bytes) (ms : UInt64) : Machine :=
  (oneStart path ms).foldl (fun s c => c.run s) (.start 0)

theorem oneStart_run {ok : Machine → Call → Prop} {path : Bytes} {ms : UInt64}
    (hrecord : ok (.start 0) (.record ms)) (hsave : ∀ s, ok s (.save path true))
    (hinit : ∀ s, ok s (.init 60)) (hload : ∀ s, s.metrics = metricsInit 60 →
      s.files path = some (metricsText (metricsRecordStartupMs ms.toNat (metricsInit 0))) →
      ok s (.load path true)) :
    RunOk machineStep ok (.start 0) (oneStart path ms) (afterOneStart path ms) := by
  have hstart : RunOk machineStep ok (.start 0) [] (.start 0) := .nil _
  have hsaved := runOk_call (runOk_call hstart (.record ms) hrecord) (.save path true) (hsave _)
  refine runOk_call (runOk_call hsaved (.init 60) (hinit _)) (.load path true) (hload _ rfl ?_)
  exact Function.update_self _ _ _

/-- What a process reads back of one start. -/
theorem reload_one {ms : Nat} (hms : ms ≤ maxReasonableStartupMs) (now : Int64) {m : Metrics}
    (hm : metricsLoad (some (metricsText (metricsRecordStartupMs ms (metricsInit 0))))
      (metricsInit now) = m) :
    m.startupCount = 1 ∧ m.startupMaxMs = ms ∧ ∀ i, m.startupBuckets i = 0 := by
  have hsane : Sane (metricsRecordStartupMs ms (metricsInit 0)) :=
    (sane_init 0).record fun _ => by
      rw [maxReasonableStartupMs] at hms
      constructor
      · show 0 + 1 < 2 ^ 64
        omega
      · show 0 + ms < 2 ^ 64
        omega
  have hs := sampled_record hms (metricsInit 0)
  have hcount : m.startupCount = 1 := by
    rw [← hm]
    exact (hsane.get_load _ .startupCount).trans hs.count
  refine ⟨hcount, ?_, ?_⟩
  · rw [← hm]
    refine (hsane.get_load _ .startupMaxMs).trans (hs.max.trans ?_)
    exact Nat.zero_max ms
  · have hkept := (loaded_text hsane.bounded (metricsInit now)).kept
    rw [hm] at hkept
    rw [hkept (by omega)]
    exact fun _ => rfl

/-- A slow start is where the percentile of an empty histogram is. -/
theorem oneStart_slow (path : Bytes) {ms : UInt64} (hms : ms.toNat ≤ maxReasonableStartupMs)
    (hslow : latBuckets - 1 ≤ ms.toNat) :
    RunOk machineStep (fun s c => InRangeCall s c ∧ Matches s c) (.start 0) (oneStart path ms)
      (afterOneStart path ms) := by
  refine oneStart_run ⟨?_, trivial⟩ (fun _ => ⟨trivial, trivial⟩) (fun _ => ⟨trivial, trivial⟩) ?_
  · intro _
    have hempty : cumulative (metricsInit 0).startupBuckets latBuckets = 0 :=
      cumulative_eq_zero (fun _ => rfl) _
    constructor
    · show (0 + 1) * 99 + 99 < 2 ^ 64
      omega
    · show cumulative (metricsInit 0).startupBuckets latBuckets + 1 < 2 ^ 64
      omega
  · intro s hinit hfile
    have hopen : s.opened path true =
        some (metricsText (metricsRecordStartupMs ms.toNat (metricsInit 0))) := hfile
    obtain ⟨m, hm⟩ : ∃ m, inFile (s.opened path true) = m := ⟨_, rfl⟩
    obtain ⟨hcount, hmax, -⟩ := reload_one hms 0 (m := m) (by rw [← hm, hopen, inFile])
    constructor
    · show (inFile (s.opened path true)).startupCount * 99 + 99 < 2 ^ 64
      rw [hm, hcount]
      omega
    · show (inFile (s.opened path true)).startupCount ≠ 0 →
        Covered { inFile (s.opened path true) with startupBuckets := s.metrics.startupBuckets }
      rw [hm, hinit]
      intro hne
      have hempty := @covered_empty { m with startupBuckets := (metricsInit 60).startupBuckets }
        (fun _ => rfl) hne
      exact hempty.mpr (hslow.trans (Nat.le_of_eq hmax.symm))

/-- A faster one is below it, and then the percentile is above the maximum. -/
theorem oneStart_fast (path : Bytes) {ms : UInt64} (hfast : ms.toNat < latBuckets - 1) :
    ¬ PlausibleThroughout 0 (oneStart path ms) := by
  intro hall
  have hms : ms.toNat ≤ maxReasonableStartupMs := (Nat.le_of_lt hfast).trans (by decide)
  have hrun : Runs machineStep (.start 0) (oneStart path ms) (afterOneStart path ms) :=
    oneStart_run trivial (fun _ => trivial) (fun _ => trivial) fun _ _ _ => trivial
  have hreload : metricsLoad (some (metricsText (metricsRecordStartupMs ms.toNat (metricsInit 0))))
      (metricsInit 60) = (afterOneStart path ms).metrics := by
    have hfile : Function.update (fun _ : Bytes => (none : Option Bytes)) path
        (some (metricsText (metricsRecordStartupMs ms.toNat (metricsInit 0)))) path = some _ :=
      Function.update_self _ _ _
    show _ = metricsLoad (Function.update (fun _ : Bytes => (none : Option Bytes)) path
      (some (metricsText (metricsRecordStartupMs ms.toNat (metricsInit 0)))) path) (metricsInit 60)
    rw [hfile]
  obtain ⟨hcount, hmax, hempty⟩ := reload_one hms 60 hreload
  have hne : (afterOneStart path ms).metrics.startupCount ≠ 0 := by omega
  have hrange : InRange (afterOneStart path ms).metrics := by
    constructor
    · omega
    · rw [cumulative_eq_zero hempty]
      exact Nat.two_pow_pos 64
  have hlast := hall _ [] _ (List.append_nil _).symm hrun hne
  rw [plausible_iff hrange hne, covered_empty hempty hne, hmax] at hlast
  omega

/-! ## The percentile over restarts -/

/-- **The percentile is plausible all along a run** in which nothing wraps
exactly if every file that is loaded matches the histogram of the process. -/
theorem p99_plausible_iff {now : Int64} {calls : List Call} {s : Machine}
    (hrun : RunOk machineStep InRangeCall (.start now) calls s) :
    PlausibleThroughout now calls ↔
      RunOk machineStep (fun s c => InRangeCall s c ∧ Matches s c) (.start now) calls s := by
  constructor
  · intro hall
    induction hrun with
    | nil => exact .nil _
    | @snoc s' s'' calls c hrun hok hs ih =>
      have hbefore := ih fun calls₁ calls₂ t heq =>
        hall calls₁ (calls₂ ++ [c]) t (by rw [heq, List.append_assoc])
      have hafter := hall (calls ++ [c]) [] s'' (List.append_nil _).symm
        ((hrun.snoc hok hs).mono fun _ _ _ => trivial)
      have hfiles := (bounded_keeps _).run hrun
      cases hs
      exact runOk_call hbefore c ⟨hok, (backed_run hbefore).matches hfiles hok hafter⟩
  · rintro hmatch calls₁ calls₂ t rfl ht hcount
    obtain ⟨t', ht'⟩ := hmatch.of_append
    obtain rfl := ht.unique ht'
    have hbacked := backed_run ht'
    exact (plausible_iff hbacked.range hcount).mpr (hbacked.covered hcount)

/-- A start of 2500 ms, and a restart. -/
theorem p99_plausible_slow : PlausibleThroughout 0 (oneStart (bytes "metrics.state") 2500) := by
  have hrun := @oneStart_slow (bytes "metrics.state") 2500 (by decide) (by decide)
  exact (p99_plausible_iff (hrun.mono fun _ _ h => h.1)).mpr hrun

/-- A start of 5 ms: after the restart the percentile is 1999 ms. -/
theorem not_p99_plausible :
    ¬ PlausibleThroughout 0 (oneStart (bytes "metrics.state") 5) :=
  oneStart_fast _ (by decide)

end ContainerSim.Telemetry
