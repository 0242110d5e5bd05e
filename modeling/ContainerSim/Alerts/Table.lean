import ContainerSim.Lib.Bytes
import ContainerSim.Lib.Run
import ContainerSim.Lib.SlotTable
import Mathlib.Algebra.Ring.Int.Defs

/-!
# The alert table

`g_alerts` has 128 slots. `alert_set` overwrites the slot of its container and
metric or takes a free one, `alert_clear` frees it. A slot has 64 bytes for the
id, and ids are compared in full; with ids that fit the table is a finite map
from containers and metrics to thresholds.
-/

namespace ContainerSim.Alerts

open Lib

/-- `ALERT_MAX`. -/
def alertMax : Nat := 128

/-- `sizeof(container_id)`. -/
def alertIdLen : Nat := 64

inductive AlertMetric where
  | cpu | mem
  deriving DecidableEq, Repr

/-- A slot; `Threshold` is `double`. -/
structure Alert (Threshold : Type) where
  containerId : Bytes
  metric : AlertMetric
  threshold : Threshold
  active : Bool
  firing : Bool
  firedAt : Int
  deriving DecidableEq, Repr

abbrev Key : Type := Bytes × AlertMetric

def Alert.key {Threshold : Type} (a : Alert Threshold) : Key := (a.containerId, a.metric)

section
variable {Threshold : Type} [Zero Threshold] [LT Threshold] [DecidableLT Threshold]

/-- The `Alert` a `memset` to zero leaves. -/
def Alert.zero : Alert Threshold :=
  { containerId := [], metric := .cpu, threshold := 0, active := false, firing := false
    firedAt := 0 }

def alertInit : List (Alert Threshold) := List.replicate alertMax .zero

/-- What the loop of `alert_set` ends with. -/
inductive SetScan where
  | found (i : Nat)
  | notFound (freeSlot : Option Nat)

/-- The loop of `alert_set` from slot `i` on. -/
def setScan (key : Key) : Nat → Option Nat → List (Alert Threshold) → SetScan
  | _, freeSlot, [] => .notFound freeSlot
  | i, freeSlot, a :: alerts =>
    if !a.active then setScan key (i + 1) (freeSlot.or (some i)) alerts
    else if a.key = key then .found i
    else setScan key (i + 1) freeSlot alerts

/-- `alert_set`. -/
def alertSet (id : Bytes) (metric : AlertMetric) (threshold : Threshold)
    (alerts : List (Alert Threshold)) : List (Alert Threshold) × Int :=
  if id = [] ∨ threshold < 0 then (alerts, -1)
  else
    match setScan (id, metric) 0 none alerts with
    | .found i => (alerts.modify i fun a => { a with threshold, firing := false }, 0)
    | .notFound none => (alerts, -1)
    | .notFound (some i) =>
      (alerts.set i
        { containerId := snprintfStr alertIdLen id, metric, threshold, active := true
          firing := false, firedAt := 0 }, 0)

/-- `alert_clear`. -/
def alertClear (id : Bytes) (metric : AlertMetric) (alerts : List (Alert Threshold)) :
    List (Alert Threshold) × Int :=
  (alerts.map fun a => if a.active ∧ a.key = (id, metric) then { a with active := false } else a,
    if alerts.any fun a => a.active && decide (a.key = (id, metric)) then 0 else -1)

/-- A call that changes the table. -/
inductive AlertCall (Threshold : Type) where
  | set (id : Bytes) (metric : AlertMetric) (threshold : Threshold)
  | clear (id : Bytes) (metric : AlertMetric)
  | clearAll

/-- The table with the changes since it was empty; the history is not part of
the program. -/
structure AlertSys (Threshold : Type) where
  alerts : List (Alert Threshold)
  history : List (Change Key Threshold)

def AlertSys.init : AlertSys Threshold := { alerts := alertInit, history := [] }

/-- The threshold the calls have put in force. -/
def AlertSys.inForce (s : AlertSys Threshold) : Key → Option Threshold := Change.replay s.history

/-- `alert_set` takes the arguments. -/
def Takes (id : Bytes) (threshold : Threshold) : Prop := id ≠ [] ∧ ¬ threshold < 0

instance (id : Bytes) (threshold : Threshold) : Decidable (Takes id threshold) := by
  unfold Takes
  infer_instance

/-- What the caller has asked for. -/
def AlertCall.record (history : List (Change Key Threshold)) :
    AlertCall Threshold → List (Change Key Threshold)
  | .set id metric threshold =>
    if Takes id threshold then history ++ [.put (id, metric) threshold] else history
  | .clear id metric => history ++ [.del (id, metric)]
  | .clearAll => []

def AlertCall.run (alerts : List (Alert Threshold)) : AlertCall Threshold → List (Alert Threshold)
  | .set id metric threshold => (alertSet id metric threshold alerts).1
  | .clear id metric => (alertClear id metric alerts).1
  | .clearAll => alertInit

def alertStep (s : AlertSys Threshold) (call : AlertCall Threshold) : Option (AlertSys Threshold) :=
  some { alerts := call.run s.alerts, history := call.record s.history }

/-! ## The loop of `alert_set` -/

variable {key : Key} {alerts : List (Alert Threshold)}

omit [Zero Threshold] [LT Threshold] [DecidableLT Threshold] in
theorem setScan_spec (i : Nat) (freeSlot : Option Nat) :
    match setScan key i freeSlot alerts with
    | .found k => ∃ pre a post, alerts = pre ++ a :: post ∧ k = i + pre.length ∧
        a.active = true ∧ a.key = key
    | .notFound slot =>
      (∀ a ∈ alerts, a.active = true → a.key ≠ key) ∧
      (slot = freeSlot ∧ (freeSlot = none → ∀ a ∈ alerts, a.active = true) ∨
        ∃ pre a post, alerts = pre ++ a :: post ∧ slot = some (i + pre.length) ∧
          a.active = false) := by
  induction alerts generalizing i freeSlot with
  | nil => exact ⟨List.forall_mem_nil _, .inl ⟨rfl, fun _ => List.forall_mem_nil _⟩⟩
  | cons a alerts ih =>
    rw [setScan]
    -- a free slot is remembered if it is the first; a used one is compared
    cases hactive : a.active with
    | false =>
      have hrest := ih (i + 1) (freeSlot.or (some i))
      simp only [Bool.not_false, if_true]
      cases hscan : setScan key (i + 1) (freeSlot.or (some i)) alerts with
      | found k =>
        rw [hscan] at hrest
        obtain ⟨pre, b, post, rfl, rfl, hb⟩ := hrest
        exact ⟨a :: pre, b, post, rfl, by simp; omega, hb⟩
      | notFound slot =>
        rw [hscan] at hrest
        obtain ⟨hnone, hslot⟩ := hrest
        refine ⟨List.forall_mem_cons.mpr ⟨fun h => ?_, hnone⟩, ?_⟩
        · rw [hactive] at h
          cases h
        · rcases hslot with ⟨rfl, -⟩ | ⟨pre, b, post, rfl, rfl, hb⟩
          · cases freeSlot with
            | some j => exact .inl ⟨rfl, fun h => by cases h⟩
            | none => exact .inr ⟨[], a, alerts, rfl, rfl, hactive⟩
          · exact .inr ⟨a :: pre, b, post, rfl, by simp; omega, hb⟩
    | true =>
      simp only [Bool.not_true, Bool.false_eq_true, if_false]
      by_cases hkey : a.key = key
      · rw [if_pos hkey]
        exact ⟨[], a, alerts, rfl, rfl, hactive, hkey⟩
      · rw [if_neg hkey]
        have hrest := ih (i + 1) freeSlot
        cases hscan : setScan key (i + 1) freeSlot alerts with
        | found k =>
          rw [hscan] at hrest
          obtain ⟨pre, b, post, rfl, rfl, hb⟩ := hrest
          exact ⟨a :: pre, b, post, rfl, by simp; omega, hb⟩
        | notFound slot =>
          rw [hscan] at hrest
          obtain ⟨hnone, hslot⟩ := hrest
          refine ⟨List.forall_mem_cons.mpr ⟨fun _ => hkey, hnone⟩, ?_⟩
          rcases hslot with ⟨rfl, hfull⟩ | ⟨pre, b, post, rfl, rfl, hb⟩
          · exact .inl ⟨rfl, fun h => List.forall_mem_cons.mpr ⟨hactive, hfull h⟩⟩
          · exact .inr ⟨a :: pre, b, post, rfl, by simp; omega, hb⟩

/-! ## The table as a map -/

/-- The table stands for the map. -/
structure Tracks (alerts : List (Alert Threshold)) (m : Key → Option Threshold) : Prop where
  size : alerts.length = alertMax
  represents : Represents Alert.active Alert.key Alert.threshold alerts m

/-- Fewer keys than slots. -/
def Few (m : Key → Option Threshold) : Prop :=
  ∃ ks : List Key, ks.length < alertMax ∧ ∀ k, m k ≠ none → k ∈ ks

omit [LT Threshold] [DecidableLT Threshold] in
theorem tracks_init : Tracks (alertInit : List (Alert Threshold)) fun _ => none := by
  refine ⟨List.length_replicate, .empty fun a ha => ?_⟩
  rw [List.eq_of_mem_replicate ha]
  rfl

/-- `alert_set` finds the slot of its key, or a free one. -/
theorem Tracks.set_zero {m : Key → Option Threshold} (h : Tracks alerts m) {id : Bytes}
    {metric : AlertMetric} {threshold : Threshold} (htakes : Takes id threshold)
    (hroom : m (id, metric) ≠ none ∨ Few m) : (alertSet id metric threshold alerts).2 = 0 := by
  have hargs : ¬ (id = [] ∨ threshold < 0) := fun hbad => hbad.elim htakes.1 htakes.2
  have hscan := @setScan_spec _ (id, metric) alerts 0 none
  unfold alertSet
  rw [if_neg hargs]
  cases hcase : setScan (id, metric) 0 none alerts with
  | found i => rfl
  | notFound slot =>
    rw [hcase] at hscan
    obtain ⟨hnone, hslot⟩ := hscan
    rcases hslot with ⟨rfl, hfull⟩ | ⟨pre, a, post, -, rfl, -⟩
    · exfalso
      rcases hroom with hset | ⟨ks, hlen, hks⟩
      · obtain ⟨a, ha, hactive, hkey⟩ := mem_liveKeys.mp (h.represents.mem_keys.mpr hset)
        exact hnone a ha hactive hkey
      · obtain ⟨a, ha, hfree⟩ := h.represents.exists_free (h.size ▸ hlen) hks
        rw [hfull rfl a ha] at hfree
        cases hfree
    · rfl

/-- An id that fits its 64 bytes is found again. -/
theorem Tracks.set {m : Key → Option Threshold} (h : Tracks alerts m) {id : Bytes}
    {metric : AlertMetric} {threshold : Threshold} (htakes : Takes id threshold)
    (hid : id.length < alertIdLen) (hroom : m (id, metric) ≠ none ∨ Few m) :
    Tracks (alertSet id metric threshold alerts).1
      ((Change.put (id, metric) threshold).apply m) := by
  have hzero := h.set_zero htakes hroom
  have hargs : ¬ (id = [] ∨ threshold < 0) := fun hbad => hbad.elim htakes.1 htakes.2
  have hscan := @setScan_spec _ (id, metric) alerts 0 none
  unfold alertSet at hzero ⊢
  rw [if_neg hargs] at hzero ⊢
  cases hcase : setScan (id, metric) 0 none alerts with
  | found i =>
    rw [hcase] at hscan
    obtain ⟨pre, a, post, rfl, rfl, hactive, hkey⟩ := hscan
    -- the threshold is changed where the alert stands
    have hmodify : ((pre ++ a :: post).modify (0 + pre.length) fun a =>
        { a with threshold, firing := false }) =
        pre ++ { a with threshold, firing := false } :: post := by
      rw [Nat.zero_add, modify_middle]
    simp only [hmodify]
    refine ⟨?_, ?_⟩
    · rw [← h.size, List.length_append, List.length_append]
      rfl
    · let updated : Alert Threshold := { a with threshold, firing := false }
      have hupdate : Represents _ _ _ (pre ++ updated :: post)
          ((Change.put updated.key threshold).apply m) := h.represents.update hactive hactive rfl
      rw [show updated.key = (id, metric) from hkey] at hupdate
      exact hupdate
  | notFound slot =>
    rw [hcase] at hscan hzero
    obtain ⟨hnone, hslot⟩ := hscan
    rcases hslot with ⟨rfl, -⟩ | ⟨pre, a, post, rfl, rfl, hfree⟩
    · cases hzero
    · have hcut : snprintfStr alertIdLen id = id := snprintfStr_eq_self (Nat.le_sub_one_of_lt hid)
      -- no live alert has the key, so the map has none
      have hnew : m (id, metric) = none := by
        by_contra hset
        obtain ⟨b, hb, hactive, hkey⟩ := mem_liveKeys.mp (h.represents.mem_keys.mpr hset)
        exact hnone b hb hactive hkey
      have hset : ∀ b, (pre ++ a :: post).set (0 + pre.length) b = pre ++ b :: post := by
        intro b
        simp
      simp only [hset, hcut]
      refine ⟨?_, ?_⟩
      · rw [← h.size, List.length_append, List.length_append]
        rfl
      · exact h.represents.fill hfree rfl hnew

omit [Zero Threshold] [LT Threshold] [DecidableLT Threshold] in
theorem Tracks.clear {m : Key → Option Threshold} (h : Tracks alerts m) (id : Bytes)
    (metric : AlertMetric) :
    Tracks (alertClear id metric alerts).1 ((Change.del (id, metric)).apply m) := by
  refine ⟨?_, h.represents.free (fun a hactive hkey => ?_) fun a hne => if_neg hne⟩
  · rw [← h.size]
    exact List.length_map _
  · rw [if_pos ⟨hactive, hkey⟩]

omit [Zero Threshold] [LT Threshold] [DecidableLT Threshold] in
theorem Tracks.clear_zero {m : Key → Option Threshold} (h : Tracks alerts m) (id : Bytes)
    (metric : AlertMetric) : (alertClear id metric alerts).2 = 0 ↔ m (id, metric) ≠ none := by
  have hany : (alerts.any fun a => a.active && decide (a.key = (id, metric))) = true ↔
      m (id, metric) ≠ none := by
    rw [← h.represents.mem_keys, mem_liveKeys, List.any_eq_true]
    simp only [Bool.and_eq_true, decide_eq_true_eq]
  rw [← hany]
  unfold alertClear
  simp only
  split
  · rename_i hfound
    exact ⟨fun _ => hfound, fun _ => rfl⟩
  · rename_i hfound
    exact ⟨fun hzero => (by cases hzero), fun htrue => absurd htrue hfound⟩

/-! ## Runs -/

/-- A key that is set is in force already, or there are fewer than slots. -/
def HasRoom (s : AlertSys Threshold) : AlertCall Threshold → Prop
  | .set id metric threshold => Takes id threshold → s.inForce (id, metric) ≠ none ∨ Few s.inForce
  | .clear _ _ => True
  | .clearAll => True

/-- An id that is taken fits its slot. -/
def IdFits : AlertCall Threshold → Prop
  | .set id _ threshold => Takes id threshold → id.length < alertIdLen
  | .clear _ _ => True
  | .clearAll => True

theorem Tracks.step {s s' : AlertSys Threshold} {call : AlertCall Threshold}
    (h : Tracks s.alerts s.inForce) (hroom : HasRoom s call) (hfits : IdFits call)
    (hs : alertStep s call = some s') : Tracks s'.alerts s'.inForce := by
  obtain rfl := Option.some.inj hs
  cases call with
  | set id metric threshold =>
    by_cases htakes : Takes id threshold
    · have hset := h.set htakes (hfits htakes) (hroom htakes)
      simp only [AlertCall.run, AlertCall.record, AlertSys.inForce, if_pos htakes,
        Change.replay_snoc]
      exact hset
    · have hargs : id = [] ∨ threshold < 0 := by
        by_contra hbad
        push Not at hbad
        exact htakes hbad
      simp only [AlertCall.run, AlertCall.record, AlertSys.inForce, if_neg htakes, alertSet,
        if_pos hargs]
      exact h
  | clear id metric =>
    simp only [AlertCall.run, AlertCall.record, AlertSys.inForce, Change.replay_snoc]
    exact h.clear id metric
  | clearAll => exact tracks_init

/-- As long as the ids that are set fit their slots the table is the map of
the calls: a key has at most one slot, setting succeeds, clearing reports
whether the key was set and leaves no slot of it, and the threshold of its slot
is the one that was set last. -/
theorem alerts_finite_map {calls : List (AlertCall Threshold)} {s : AlertSys Threshold}
    (hrun : RunOk alertStep (fun s call => HasRoom s call ∧ IdFits call) .init calls s) :
    (∀ k, s.alerts.countP (fun a => a.active && decide (a.key = k)) ≤ 1) ∧
      (∀ id metric threshold, HasRoom s (.set id metric threshold) → Takes id threshold →
        (alertSet id metric threshold s.alerts).2 = 0) ∧
      (∀ id metric, ((alertClear id metric s.alerts).2 = 0 ↔ s.inForce (id, metric) ≠ none) ∧
        ∀ a ∈ (alertClear id metric s.alerts).1, a.active = true → a.key ≠ (id, metric)) ∧
      ∀ k threshold, (∃ a ∈ s.alerts, a.active = true ∧ a.key = k ∧ a.threshold = threshold) ↔
        s.inForce k = some threshold := by
  have h : Tracks s.alerts s.inForce := by
    refine hrun.invariant (I := fun s => Tracks s.alerts s.inForce) ?_ tracks_init
    exact fun s call s' h hok hs => h.step hok.1 hok.2 hs
  refine ⟨h.represents.countP_le_one, fun id metric threshold hroom htakes => ?_,
    fun id metric => ⟨h.clear_zero id metric, fun a ha hactive hkey => ?_⟩, h.represents.mem⟩
  · exact h.set_zero htakes (hroom htakes)
  · have hmem := mem_liveKeys.mpr ⟨a, ha, hactive, hkey⟩
    rw [(h.clear id metric).represents.mem_keys] at hmem
    exact hmem (if_pos rfl)

end

/-- Setting and clearing an id of 63 bytes. -/
theorem alerts_finite_map_sixty_three :
    let id : Bytes := List.replicate 63 97
    let s : AlertSys Int :=
      { alerts := (alertSet id .cpu 80 alertInit).1, history := [.put (id, .cpu) 80] }
    (∃ a ∈ s.alerts, a.active = true ∧ a.key = (id, .cpu) ∧ a.threshold = 80) ∧
      (alertClear id .cpu s.alerts).2 = 0 := by
  intro id s
  have htakes : Takes id (80 : Int) := ⟨by decide, by decide⟩
  have hrun : RunOk alertStep (fun s call => HasRoom s call ∧ IdFits call) .init
      [.set id .cpu (80 : Int)] s := by
    refine RunOk.cons ⟨fun _ => .inr ⟨[], by decide, fun _ h => absurd rfl h⟩, fun _ => ?_⟩ ?_
      (.nil s)
    · decide
    · rw [alertStep, AlertCall.record, if_pos htakes]
      rfl
  obtain ⟨-, -, hclear, hforce⟩ := alerts_finite_map hrun
  exact ⟨(hforce _ _).mpr rfl, (hclear id .cpu).1.mpr (by decide)⟩

/-- An id of 64 bytes is not found again: setting it twice takes two slots. -/
theorem not_alerts_finite_map :
    ¬ ∀ (calls : List (AlertCall Int)) (s : AlertSys Int),
      RunOk alertStep HasRoom .init calls s →
      (∀ k, s.alerts.countP (fun a => a.active && decide (a.key = k)) ≤ 1) ∧
      ∀ id metric, (alertClear id metric s.alerts).2 = 0 ↔ s.inForce (id, metric) ≠ none := by
  intro hclaim
  let id : Bytes := List.replicate 64 97
  have htakes : ∀ threshold : Int, 0 ≤ threshold → Takes id threshold :=
    fun threshold h => ⟨by decide, Int.not_lt.mpr h⟩
  let once : AlertSys Int :=
    { alerts := (alertSet id .cpu 80 alertInit).1, history := [.put (id, .cpu) 80] }
  let twice : AlertSys Int :=
    { alerts := (alertSet id .cpu 90 once.alerts).1
      history := [.put (id, .cpu) 80, .put (id, .cpu) 90] }
  have hfirst : alertStep .init (.set id .cpu 80) = some once := by
    rw [alertStep, AlertCall.record, if_pos (htakes 80 (by decide))]
    rfl
  have hsecond : alertStep once (.set id .cpu 90) = some twice := by
    rw [alertStep, AlertCall.record, if_pos (htakes 90 (by decide))]
    rfl
  have hrun : RunOk alertStep HasRoom .init [.set id .cpu 80, .set id .cpu 90] twice := by
    refine RunOk.cons (fun _ => .inr ⟨[], by decide, fun _ h => absurd rfl h⟩) hfirst ?_
    exact RunOk.cons (fun _ => .inl (by decide)) hsecond (.nil twice)
  have hone := (hclaim _ _ hrun).1 (List.replicate 63 97, .cpu)
  revert hone
  decide +kernel

end ContainerSim.Alerts
