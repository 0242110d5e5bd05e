import ContainerSim.Telemetry.Restore

/-!
# A metrics.state that was cut short

`metrics_save` writes over the old file. When the process dies meanwhile, or the
disk is full, the file is the beginning of what was to be written, perhaps up to
the middle of a number. The next `metrics_load` reads the first counters as they
were, leaves the last ones alone and may read one between them without its last
digits (`Cut`), so that no sequence of crashes makes a counter count what has
not happened (`never_overcounts`).
-/

namespace ContainerSim.Telemetry

open Lib EventBus

/-! ## Reading a file that was cut -/

/-- What the beginning of a line does: nothing, or it sets the counter to its
first digits. -/
theorem loadLine_cut {saved : Metrics} (h : Bounded saved) (m : Metrics) (c : Counter) {k : Nat} :
    loadLine m ((counterLine saved c).take k) = m ∨
      ∃ j, loadLine m ((counterLine saved c).take k) = c.set m (c.get saved / 10 ^ j) := by
  have hstr : cstr ((counterLine saved c).take k) = (counterLine saved c).take k :=
    cstr_eq_self fun hmem => not_mem_counterLine (.inl rfl) saved c (List.mem_of_mem_take hmem)
  have hname : ∀ b ∈ c.name, decide (b ≠ 61) = true := by
    intro b hb
    have hle := c.name_bytes b hb
    rw [decide_eq_true_eq]
    rintro rfl
    exact absurd hle (by decide)
  rw [loadLine, hstr]
  by_cases hshort : k ≤ c.name.length
  · -- the line ends in front of `=`
    left
    have htake : (counterLine saved c).take k = c.name.take k := by
      rw [counterLine, List.take_append_of_le_length hshort]
    have hdrop : (c.name.take k).dropWhile (· ≠ 61) = [] := by
      rw [List.dropWhile_eq_nil_iff]
      intro b hb
      exact hname b (List.mem_of_mem_take hb)
    simp only [htake, hdrop]
  · right
    obtain ⟨i, rfl⟩ := Nat.exists_eq_add_of_lt (Nat.lt_of_not_le hshort)
    have htake : (counterLine saved c).take (c.name.length + i + 1) =
        c.name ++ 61 :: (fmtNat (c.get saved)).take i := by
      rw [counterLine, Nat.add_assoc, List.take_length_add_append, List.take_succ_cons]
    have hdrop : (c.name ++ 61 :: (fmtNat (c.get saved)).take i).dropWhile (· ≠ 61) =
        61 :: (fmtNat (c.get saved)).take i := by
      rw [List.dropWhile_append_of_pos hname]
      rfl
    have hfront : (c.name ++ 61 :: (fmtNat (c.get saved)).take i).takeWhile (· ≠ 61) = c.name := by
      rw [List.takeWhile_append_of_pos hname]
      exact List.append_nil _
    refine ⟨((fmtNat (c.get saved)).drop i).length, ?_⟩
    simp only [htake, hdrop, hfront, Counter.find_name, strtoul_take_fmtNat (h c)]

/-- What is left of the counters `saved`: those in front of the cut come from the
file, those behind it stay, and the one at the cut may have lost its last digits. -/
structure Cut (saved m r : Metrics) (pre post : List Counter) : Prop where
  all : Counter.all = pre ++ post
  front : ∀ c ∈ pre, c.get r = c.get saved
  behind : ∀ c ∈ post.tail, c.get r = c.get m
  at_cut : ∀ c ∈ post.head?, c.get r = c.get m ∨ ∃ j, c.get r = c.get saved / 10 ^ j

/-- Each line sets its counter. -/
theorem get_foldl_set (saved m : Metrics) (cs : List Counter) (c : Counter) :
    c.get (cs.foldl (fun m c => c.set m (c.get saved)) m) =
      if c ∈ cs then c.get saved else c.get m := by
  induction cs generalizing m with
  | nil => rfl
  | cons d cs ih =>
    rw [List.foldl_cons, ih, Counter.get_set]
    by_cases hmem : c ∈ cs
    · simp [hmem]
    · by_cases hd : c = d
      · subst hd
        simp
      · simp [hmem, hd]

/-- The lines of a list of counters. -/
theorem foldl_loadLine {saved : Metrics} (h : Bounded saved) (cs : List Counter) (m : Metrics) :
    ((cs.map (counterLine saved)).map fun r => r ++ [10]).foldl loadLine m =
      cs.foldl (fun m c => c.set m (c.get saved)) m := by
  induction cs generalizing m with
  | nil => rfl
  | cons c cs ih =>
    rw [List.map_cons, List.map_cons, List.foldl_cons, List.foldl_cons,
      loadLine_counterLine h m c, ih]

/-- **What a cut file gives**, before the startup statistics are checked. -/
theorem foldl_cut {saved : Metrics} (h : Bounded saved) (m : Metrics) (k : Nat) :
    ∃ pre post,
      Cut saved m ((chunks 128 ((metricsText saved).take k)).foldl loadLine m) pre post := by
  have hrows : ∀ r ∈ Counter.all.map (counterLine saved),
      r.length + 2 ≤ 128 ∧ (10 : UInt8) ∉ r := by
    intro r hr
    obtain ⟨c, -, rfl⟩ := List.mem_map.mp hr
    have hlen := length_counterLine_le h c
    exact ⟨by omega, not_mem_counterLine (.inr rfl) saved c⟩
  obtain ⟨rows, rows', last, hall, hchunks, hlast⟩ := chunks_take hrows k
  rw [List.flatMap_map] at hchunks
  obtain ⟨pre, post, hcounters, rfl, rfl⟩ := List.map_eq_append_iff.mp hall
  have hnodup : (pre ++ post).Nodup := by
    rw [← hcounters]
    decide
  have hapart : ∀ c ∈ post, c ∉ pre :=
    fun c hc hpre => (List.nodup_append.mp hnodup).2.2 c hpre c hc rfl
  -- the whole lines set their counters
  have hwhole : Cut saved m (pre.foldl (fun m c => c.set m (c.get saved)) m) pre post := by
    refine ⟨hcounters, fun c hc => ?_, fun c hc => ?_, fun c hc => .inl ?_⟩
    · exact (get_foldl_set saved m pre c).trans (if_pos hc)
    · exact (get_foldl_set saved m pre c).trans (if_neg (hapart c (List.mem_of_mem_tail hc)))
    · exact (get_foldl_set saved m pre c).trans (if_neg (hapart c (List.mem_of_mem_head? hc)))
  refine ⟨pre, post, ?_⟩
  rw [metricsText, hchunks, List.foldl_append, foldl_loadLine h]
  rcases hlast with rfl | ⟨r, post', j, hpost, -, rfl⟩
  · exact hwhole
  · obtain ⟨d, post, rfl, rfl, -⟩ := List.map_eq_cons_iff.mp hpost
    rw [List.foldl_cons, List.foldl_nil]
    -- and the cut line, if it can still be read, sets its own to something less
    rcases loadLine_cut h (pre.foldl (fun m c => c.set m (c.get saved)) m) d (k := j) with
      hnone | ⟨e, hset⟩
    · rw [hnone]
      exact hwhole
    · rw [hset]
      have hothers : ∀ c, c ≠ d → ∀ t v, c.get (d.set t v) = c.get t := by
        intro c hc t v
        rw [Counter.get_set, if_neg hc]
      refine ⟨hcounters, fun c hc => ?_, fun c hc => ?_, fun c hc => .inr ⟨e, ?_⟩⟩
      · rw [hothers c fun heq => hapart d List.mem_cons_self (heq ▸ hc)]
        exact hwhole.front c hc
      · have hne : c ≠ d := by
          rintro rfl
          exact (List.nodup_cons.mp (List.nodup_append.mp hnodup).2.1).1 hc
        rw [hothers c hne]
        exact hwhole.behind c hc
      · cases hc
        rw [Counter.get_set, if_pos rfl]

/-- A counter is one of the three. -/
theorem Cut.get {saved m r : Metrics} {pre post : List Counter} (h : Cut saved m r pre post)
    (c : Counter) : c.get r = c.get m ∨ ∃ j, c.get r = c.get saved / 10 ^ j := by
  have hmem : c ∈ pre ++ post := by
    rw [← h.all]
    cases c <;> decide
  rcases List.mem_append.mp hmem with hpre | hpost
  · exact .inr ⟨0, by simpa using h.front c hpre⟩
  · cases post with
    | nil => cases hpost
    | cons d post =>
      rcases List.mem_cons.mp hpost with rfl | hpost
      · exact h.at_cut c rfl
      · exact .inl (h.behind c hpost)

/-! ## What counts at most -/

/-- The counter of an event. -/
def Counter.ofEvent : EventType → Option Counter
  | .containerStarted => some .containersStarted
  | .containerStopped => some .containersStopped
  | .containerDeleted => some .containersDeleted
  | .containerPaused => some .containersPaused
  | .containerUnpaused => some .containersUnpaused
  | .execLaunched => some .execLaunches
  | .oomKill => some .oomKills
  | .imageBuilt => some .imagesBuilt
  | .imageRemoved => some .imagesRemoved
  | .schedEnabled | .schedDisabled => some .schedToggles
  | _ => none

/-- What a call makes of a counter that was at most `b`: the events are counted,
the times of the startups summed up, and of the others the greatest is kept. -/
def Counter.grown (c : Counter) (b : Nat) : Call → Nat
  | .event e => if c = .eventsTotal ∨ Counter.ofEvent e.type = some c then b + 1 else b
  | .record ms =>
    if ms.toNat > maxReasonableStartupMs then b
    else
      match c with
      | .startupCount => b + 1
      | .startupTotalMs => b + ms.toNat
      | .startupMaxMs => max b ms.toNat
      | _ => b
  | .highwater mb => if c = .memHighwaterMb then max b mb.toNat else b
  | .init _ | .save _ _ | .load _ _ => b

/-- A call, or a `metrics_save` of which only the first bytes get to the disk. -/
inductive TornCall
  | call (c : Call)
  | cut (path : Bytes) (k : Nat)

def tornStep (s : Machine) : TornCall → Option Machine
  | .call c => some (c.run s)
  | .cut path k =>
    some { s with files := Function.update s.files path (some ((metricsText s.metrics).take k)) }

def Counter.grownTorn (c : Counter) (b : Nat) : TornCall → Nat
  | .call call => c.grown b call
  | .cut _ _ => b

/-- At most `B`; the least startup time is no count. -/
structure Under (B : Counter → Nat) (m : Metrics) : Prop where
  bounded : Bounded m
  under : ∀ c, c ≠ .startupMinMs → c.get m ≤ B c

variable {B B' : Counter → Nat} {m m' : Metrics}

theorem Under.mono (h : Under B m) (hle : ∀ c, B c ≤ B' c) : Under B' m :=
  ⟨h.bounded, fun c hc => Nat.le_trans (h.under c hc) (hle c)⟩

theorem Counter.le_grown (c : Counter) (b : Nat) (call : Call) : b ≤ c.grown b call := by
  unfold Counter.grown
  split
  · split <;> omega
  · split
    · omega
    · split <;> omega
  · split <;> omega
  all_goals exact Nat.le_refl b

theorem under_init (now : Int64) : Under B (metricsInit now) := by
  refine ⟨bounded_init now, fun c hc => ?_⟩
  cases c with
  | startupMinMs => exact absurd rfl hc
  | _ => exact Nat.zero_le _

theorem addUlong_le (a b : Nat) : addUlong a b ≤ a + b := Nat.mod_le _ _

/-- An event counts in `events_total` and in its own counter. -/
theorem metricsOnEvent_eq (e : Event) (m : Metrics) :
    metricsOnEvent e m =
      let all := Counter.eventsTotal.set { m with lastEventTime := e.timestamp }
        (addUlong m.eventsTotal 1)
      match Counter.ofEvent e.type with
      | some d => d.set all (addUlong (d.get all) 1)
      | none => all := by
  unfold metricsOnEvent
  cases e.type <;> rfl

theorem Under.event (h : Under B m) (e : Event) :
    Under (fun c => c.grown (B c) (.event e)) (metricsOnEvent e m) := by
  refine ⟨h.bounded.event e, fun c hc => ?_⟩
  have hunder := h.under c hc
  have hsame : c.get { m with lastEventTime := e.timestamp } = c.get m := by cases c <;> rfl
  -- a counter that wraps is below the count again
  have hone := addUlong_le (c.get m) 1
  have hall : c.get (Counter.eventsTotal.set { m with lastEventTime := e.timestamp }
      (addUlong m.eventsTotal 1)) ≤ if c = .eventsTotal then B c + 1 else B c := by
    rw [Counter.get_set, hsame]
    split
    · rename_i htotal
      subst htotal
      exact Nat.le_trans hone (by omega)
    · exact hunder
  -- no event type is counted in events_total a second time
  have hother : ∀ d, Counter.ofEvent e.type = some d → d ≠ .eventsTotal := by
    intro d hd
    unfold Counter.ofEvent at hd
    rintro rfl
    cases htype : e.type <;> rw [htype] at hd <;> cases hd
  rw [metricsOnEvent_eq]
  show _ ≤ if c = .eventsTotal ∨ Counter.ofEvent e.type = some c then B c + 1 else B c
  generalize Counter.eventsTotal.set { m with lastEventTime := e.timestamp }
    (addUlong m.eventsTotal 1) = all at hall ⊢
  cases hd : Counter.ofEvent e.type with
  | none => simpa using hall
  | some d =>
    show c.get (d.set all (addUlong (d.get all) 1)) ≤ _
    rw [Counter.get_set]
    have hne := hother d hd
    by_cases hcd : c = d
    · subst hcd
      rw [if_neg hne] at hall
      rw [if_pos rfl, if_pos (.inr rfl)]
      exact Nat.le_trans (addUlong_le _ 1) (by omega)
    · simpa [hcd, Ne.symm hcd] using hall

theorem Under.record (h : Under B m) (ms : UInt64) :
    Under (fun c => c.grown (B c) (.record ms)) (metricsRecordStartupMs ms.toNat m) := by
  refine ⟨h.bounded.record ms.toNat, fun c hc => ?_⟩
  have hunder := h.under c hc
  unfold metricsRecordStartupMs
  by_cases hms : ms.toNat > maxReasonableStartupMs
  · simpa [Counter.grown, hms] using hunder
  · rw [if_neg hms]
    have hcount := addUlong_le m.startupCount 1
    have htotal := addUlong_le m.startupTotalMs ms.toNat
    cases c with
    | startupMinMs => exact absurd rfl hc
    | startupCount =>
      have hunder : m.startupCount ≤ _ := hunder
      simp only [Counter.grown, if_neg hms, Counter.get]
      omega
    | startupTotalMs =>
      have hunder : m.startupTotalMs ≤ _ := hunder
      simp only [Counter.grown, if_neg hms, Counter.get]
      omega
    | startupMaxMs =>
      have hunder : m.startupMaxMs ≤ _ := hunder
      simp only [Counter.grown, if_neg hms, Counter.get]
      split <;> omega
    | _ =>
      simp only [Counter.grown, if_neg hms]
      exact hunder

theorem Under.highwater (h : Under B m) (mb : UInt64) :
    Under (fun c => c.grown (B c) (.highwater mb)) (metricsUpdateMemHighwater mb.toNat m) := by
  refine ⟨h.bounded.highwater mb, fun c hc => ?_⟩
  have hunder := h.under c hc
  show c.get (if mb.toNat > m.memHighwaterMb then Counter.memHighwaterMb.set m mb.toNat else m) ≤
    if c = .memHighwaterMb then max (B c) mb.toNat else B c
  split
  · rw [Counter.get_set]
    split
    · exact Nat.le_max_right _ _
    · exact hunder
  · split
    · exact Nat.le_trans hunder (Nat.le_max_left _ _)
    · exact hunder

/-- Dropping statistics makes none of them greater. -/
theorem Under.normalize (h : Under B m) : Under B (normalizeStartupMetrics m) := by
  have hreset : Under B m.resetStartup := by
    refine ⟨h.bounded.resetStartup, fun c hc => ?_⟩
    have hunder := h.under c hc
    cases c with
    | startupMinMs => exact absurd rfl hc
    | startupCount | startupTotalMs | startupMaxMs => exact Nat.zero_le _
    | _ => exact hunder
  unfold normalizeStartupMetrics
  split
  · exact hreset
  · split
    · exact hreset
    · exact h

/-- Reading a file that was cut anywhere. -/
theorem Under.load {saved : Metrics} (h : Under B m) (hsaved : Under B saved) (k : Nat) :
    Under B (metricsLoad (some ((metricsText saved).take k)) m) := by
  obtain ⟨pre, post, hcut⟩ := foldl_cut hsaved.bounded m k
  refine Under.normalize ⟨fun c => ?_, fun c hc => ?_⟩
  · rcases hcut.get c with hget | ⟨j, hget⟩
    · rw [hget]
      exact h.bounded c
    · rw [hget]
      exact Nat.lt_of_le_of_lt (Nat.div_le_self _ _) (hsaved.bounded c)
  · rcases hcut.get c with hget | ⟨j, hget⟩
    · rw [hget]
      exact h.under c hc
    · rw [hget]
      exact Nat.le_trans (Nat.div_le_self _ _) (hsaved.under c hc)

/-- At most `B`, and so are the metrics that each file is a beginning of. -/
structure UnderAll (B : Counter → Nat) (s : Machine) : Prop where
  metrics : Under B s.metrics
  files : ∀ path file, s.files path = some file →
    ∃ saved k, Under B saved ∧ file = (metricsText saved).take k

variable {s s' : Machine}

theorem UnderAll.grow (h : UnderAll B s) (hle : ∀ c, B c ≤ B' c) (hm : Under B' m) :
    UnderAll B' { s with metrics := m } := by
  refine ⟨hm, fun path file hfile => ?_⟩
  obtain ⟨saved, k, hsaved, hcut⟩ := h.files path file hfile
  exact ⟨saved, k, hsaved.mono hle, hcut⟩

/-- A file that is written now, in whole or in part. -/
theorem UnderAll.write (h : UnderAll B s) (path : Bytes) (k : Nat) :
    UnderAll B { s with
      files := Function.update s.files path (some ((metricsText s.metrics).take k)) } := by
  refine ⟨h.metrics, fun path' file hfile => ?_⟩
  change Function.update s.files path _ path' = some file at hfile
  by_cases hpath : path' = path
  · subst hpath
    rw [Function.update_self] at hfile
    exact ⟨s.metrics, k, h.metrics, (Option.some.inj hfile).symm⟩
  · rw [Function.update_of_ne hpath] at hfile
    exact h.files path' file hfile

theorem UnderAll.step (h : UnderAll B s) {call : TornCall} (hs : tornStep s call = some s') :
    UnderAll (fun c => c.grownTorn (B c) call) s' := by
  cases call with
  | cut path k =>
    cases hs
    exact h.write path k
  | call call =>
    cases hs
    have hle : ∀ c, B c ≤ c.grown (B c) call := fun c => c.le_grown (B c) call
    cases call with
    | init now => exact h.grow hle (under_init now)
    | event e => exact h.grow hle (h.metrics.event e)
    | record ms => exact h.grow hle (h.metrics.record ms)
    | highwater mb => exact h.grow hle (h.metrics.highwater mb)
    | save path writable =>
      cases writable with
      | true =>
        -- a whole save is one that is cut off behind its end
        have hwrite := h.write path (metricsText s.metrics).length
        rw [List.take_length] at hwrite
        exact hwrite
      | false =>
        have hsame : Function.update s.files path (s.files path) = s.files :=
          Function.update_eq_self path s.files
        show UnderAll B { s with files := Function.update s.files path (s.files path) }
        rw [hsame]
        exact h
    | load path readable =>
      refine h.grow hle ?_
      cases readable with
      | false => exact h.metrics
      | true =>
        cases hfile : s.files path with
        | none =>
          simp only [Machine.opened, if_true, hfile]
          exact h.metrics
        | some file =>
          obtain ⟨saved, k, hsaved, rfl⟩ := h.files path file hfile
          simp only [Machine.opened, if_true, hfile]
          exact h.metrics.load hsaved k

/-- What a run makes of each counter. -/
def grownBy (calls : List TornCall) (c : Counter) : Nat := calls.foldl c.grownTorn 0

theorem underAll_of_runs {now : Int64} {calls : List TornCall}
    (hrun : Runs tornStep (.start now) calls s) : UnderAll (grownBy calls) s := by
  induction hrun with
  | nil => exact ⟨under_init now, fun _ _ hfile => by cases hfile⟩
  | @snoc _ _ calls call _ _ hs ih =>
    have hstep := ih.step hs
    have hgrown : grownBy (calls ++ [call]) = fun c => c.grownTorn (grownBy calls c) call := by
      funext c
      rw [grownBy, List.foldl_append]
      rfl
    rw [hgrown]
    exact hstep

/-- **The counters never count what has not happened.** Whatever is counted, saved,
cut short, loaded and started again, in any order, no counter is greater than what
the calls add up to. Only the least startup time can come out wrong. -/
theorem never_overcounts {now : Int64} {calls : List TornCall}
    (hrun : Runs tornStep (.start now) calls s) {c : Counter} (hc : c ≠ .startupMinMs) :
    c.get s.metrics ≤ grownBy calls c :=
  (underAll_of_runs hrun).metrics.under c hc

/-- The least startup time, 70 ms, loses its last digit. -/
def cutMinimum : List TornCall :=
  [.call (.record 70), .call (.record 80), .cut (bytes "m") 267, .call (.init 9),
    .call (.load (bytes "m") true)]

theorem never_overcounts_cut :
    ∃ s, Runs tornStep (.start 0) cutMinimum s ∧ Counter.startupMinMs.get s.metrics = 7 ∧
      Counter.startupTotalMs.get s.metrics ≤ 150 := by
  obtain ⟨s, hrun, hmin⟩ := exists_runOk_of_exec tornStep (fun _ _ => True) (.start 0) cutMinimum
    (fun s => Counter.startupMinMs.get s.metrics = 7) (by decide +kernel)
  exact ⟨s, hrun, hmin, never_overcounts hrun (c := .startupTotalMs) (by decide)⟩

end ContainerSim.Telemetry
