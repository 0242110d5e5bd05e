import ContainerSim.EventBus.Bus
import ContainerSim.Lib.Run

/-!
# Following the event stream

`events -f` calls `eventbus_drain_from` again and again, each time with the
cursor the call before returned. A call reads the counter in one locked section
and prints its window of the ring in another. What was emitted in between can
have taken slots of the window, and the event printed from such a slot is a
later one (`follow_repeats`). As long as it has not, what the follower prints is
a part of what was emitted, in order (`follow_in_order`).
-/

namespace ContainerSim.EventBus

open Lib

/-- One call that printed: its cursor, the counter it read, the counter when it
printed, and what it printed. -/
structure Drain where
  fromSeq : Nat
  total : Nat
  later : Nat
  shown : List Event

structure Follow where
  bus : Bus
  /-- what the last call returned -/
  cursor : Nat
  /-- a call that has read the counter and not printed yet: the start of its
  window after the clamp, and the counter -/
  reading : Option (Nat × Nat)
  drains : List Drain
  /-- the events emitted since the follower started -/
  emitted : List Event

/-- `cursor = eventbus_total()`, on a bus in any state. -/
def Follow.start (bus : Bus) : Follow :=
  { bus, cursor := bus.total, reading := none, drains := [], emitted := [] }

/-- The events printed, in order. -/
def Follow.printed (s : Follow) : List Event := s.drains.flatMap Drain.shown

inductive FollowAct where
  /-- the locked section of an `eventbus_emit` -/
  | emit (call : Emit)
  /-- the first locked section of `eventbus_drain_from`, and what it decides -/
  | readTotal
  /-- the second one -/
  | print

/-- `eventbus_drain_from` between its two sections. -/
def window (fromSeq total : Nat) : Option (Nat × Nat) :=
  if fromSeq ≥ total then none
  else if total - fromSeq > ringSize then some (total - ringSize, total)
  else some (fromSeq, total)

/-- The return of a call that printed `shown`. -/
def Follow.shows (s : Follow) (total : Nat) (shown : List Event) : Follow :=
  { s with
    cursor := total
    reading := none
    drains := s.drains ++ [{ fromSeq := s.cursor, total, later := s.bus.total, shown }] }

def followStep (s : Follow) : FollowAct → Option Follow
  | .emit call =>
    let (bus, e) := s.bus.publish call
    some { s with bus, emitted := s.emitted ++ [e] }
  | .readTotal =>
    match s.reading with
    | some _ => none
    | none =>
      match window s.cursor s.bus.total with
      | none => some { s with cursor := s.bus.total }
      | some w => some { s with reading := some w }
  | .print =>
    s.reading.map fun w =>
      s.shows w.2 ((List.range (w.2 - w.1)).map fun i => s.bus.ring.get (w.1 + i))

/-- The counter does not wrap, and a call prints while the oldest event of its
window is still in the ring. -/
def FollowOk (s : Follow) : FollowAct → Prop
  | .emit _ => s.bus.total + 1 < 2 ^ 64
  | .readTotal => True
  | .print => ∀ w ∈ s.reading, s.bus.total ≤ w.1 + ringSize

instance (s : Follow) (a : FollowAct) : Decidable (FollowOk s a) := by
  cases a with
  | emit call => unfold FollowOk; infer_instance
  | readTotal => unfold FollowOk; infer_instance
  | print => unfold FollowOk; infer_instance

/-! ## The window -/

theorem window_spec {fromSeq total : Nat} {w : Nat × Nat} (h : window fromSeq total = some w) :
    w.2 = total ∧ fromSeq ≤ w.1 ∧ w.1 < w.2 ∧
      ∀ seq, fromSeq ≤ seq → seq < w.1 → seq + ringSize < w.2 := by
  have hround := ringSize_pos
  obtain ⟨first, last⟩ := w
  unfold window at h
  split at h
  · simp at h
  · split at h
    · obtain ⟨hfirst, hlast⟩ := Prod.mk.inj (Option.some.inj h)
      refine ⟨hlast.symm, ?_, ?_, fun seq _ hlt => ?_⟩
      · show fromSeq ≤ first
        omega
      · show first < last
        omega
      · have hlt : seq < first := hlt
        show seq + ringSize < last
        omega
    · obtain ⟨hfirst, hlast⟩ := Prod.mk.inj (Option.some.inj h)
      refine ⟨hlast.symm, ?_, ?_, fun seq hle hlt => ?_⟩
      · show fromSeq ≤ first
        omega
      · show first < last
        omega
      · have hlt : seq < first := hlt
        omega

theorem window_none {fromSeq total : Nat} (h : window fromSeq total = none) : total ≤ fromSeq := by
  unfold window at h
  split at h
  · assumption
  · split at h
    · cases h
    · cases h

/-! ## Every run -/

/-- The emitted events are numbered in turn, the last round of them is in the
ring, and the calls so far have split what is before the cursor into what was
printed and what was too old to print. -/
structure FollowInv (start : Nat) (s : Follow) : Prop where
  total : s.bus.total = start + s.emitted.length
  seqs : ∀ k e, s.emitted[k]? = some e → e.seq = start + k
  ring : ∀ k e, s.emitted[k]? = some e → s.emitted.length ≤ k + ringSize →
    s.bus.ring.get (start + k) = e
  cursor : start ≤ s.cursor ∧ s.cursor ≤ s.bus.total
  reading : ∀ w ∈ s.reading, s.cursor ≤ w.1 ∧ w.1 < w.2 ∧ w.2 ≤ s.bus.total ∧
    ∀ seq, s.cursor ≤ seq → seq < w.1 → seq + ringSize < w.2
  increasing : (s.printed.map Event.seq).Pairwise (· < ·)
  behind : ∀ e ∈ s.printed, e.seq < s.cursor
  genuine : ∀ e ∈ s.printed, e ∈ s.emitted
  skipped : ∀ seq, start ≤ seq → seq < s.cursor →
    seq ∈ s.printed.map Event.seq ∨
      ∃ d ∈ s.drains, d.fromSeq ≤ seq ∧ seq < d.total ∧ seq + ringSize < d.later

theorem followInv_start (bus : Bus) : FollowInv bus.total (Follow.start bus) where
  total := rfl
  seqs := by simp [Follow.start]
  ring := by simp [Follow.start]
  cursor := ⟨Nat.le_refl _, Nat.le_refl _⟩
  reading := by simp [Follow.start]
  increasing := .nil
  behind := by simp [Follow.start, Follow.printed]
  genuine := by simp [Follow.start, Follow.printed]
  skipped := by
    intro seq hle hlt
    exact absurd hlt (Nat.not_lt.mpr hle)

theorem FollowInv.emit {start : Nat} {s : Follow} (h : FollowInv start s) (call : Emit)
    (hroom : s.bus.total + 1 < 2 ^ 64) :
    FollowInv start { s with
      bus := (s.bus.publish call).1, emitted := s.emitted ++ [call.event s.bus.total] } := by
  have htotal : (s.bus.publish call).1.total = s.bus.total + 1 := Nat.mod_eq_of_lt hroom
  have hlen : (s.emitted ++ [call.event s.bus.total]).length = s.emitted.length + 1 := by simp
  have hold := h.total
  -- an event is an old one or the new one
  have hcases : ∀ k e, (s.emitted ++ [call.event s.bus.total])[k]? = some e →
      s.emitted[k]? = some e ∧ k < s.emitted.length ∨
        k = s.emitted.length ∧ e = call.event s.bus.total := by
    intro k e he
    by_cases hk : k < s.emitted.length
    · rw [List.getElem?_append_left hk] at he
      exact .inl ⟨he, hk⟩
    · rw [List.getElem?_append_right (by omega)] at he
      have hzero : k - s.emitted.length = 0 := by
        by_contra hne
        rw [List.getElem?_eq_none (by simp; omega)] at he
        cases he
      rw [hzero] at he
      exact .inr ⟨by omega, (Option.some.inj he).symm⟩
  refine ⟨?_, ?_, ?_, ?_, ?_, h.increasing, h.behind, ?_, h.skipped⟩
  · show (s.bus.publish call).1.total = start + (s.emitted ++ [call.event s.bus.total]).length
    omega
  · intro k e he
    obtain ⟨he, -⟩ | ⟨rfl, rfl⟩ := hcases k e he
    · exact h.seqs k e he
    · exact hold
  · intro k e he hlast
    have hlast : (s.emitted ++ [call.event s.bus.total]).length ≤ k + ringSize := hlast
    show (s.bus.ring.put s.bus.total (call.event s.bus.total)).get (start + k) = e
    obtain ⟨he, hk⟩ | ⟨rfl, rfl⟩ := hcases k e he
    · rw [RingBuf.get_put_of_ne]
      · exact h.ring k e he (by omega)
      · exact RingBuf.mod_ne_of_near (by omega) (by omega)
    · rw [← hold, RingBuf.get_put_self]
  · have hcursor := h.cursor
    exact ⟨hcursor.1, by show s.cursor ≤ (s.bus.publish call).1.total; omega⟩
  · intro w hw
    obtain ⟨hle, hlt, hbus, hskip⟩ := h.reading w hw
    exact ⟨hle, hlt, by show w.2 ≤ (s.bus.publish call).1.total; omega, hskip⟩
  · exact fun e he => List.mem_append_left _ (h.genuine e he)

theorem FollowInv.readTotal {start : Nat} {s s' : Follow} (h : FollowInv start s)
    (hs : followStep s .readTotal = some s') : FollowInv start s' := by
  have hcursor := h.cursor
  simp only [followStep] at hs
  split at hs
  · cases hs
  · rename_i hreading
    split at hs
    · rename_i hnone
      have hle := window_none hnone
      have hsame : s.bus.total = s.cursor := by omega
      cases hs
      rw [hsame]
      exact h
    · rename_i w hw
      obtain ⟨hlast, hfirst, hlt, hskip⟩ := window_spec hw
      cases hs
      refine ⟨h.total, h.seqs, h.ring, hcursor, ?_, h.increasing, h.behind, h.genuine, h.skipped⟩
      intro w' hw'
      cases hw'
      exact ⟨hfirst, hlt, Nat.le_of_eq hlast, hskip⟩

/-- What a call prints from an intact window. -/
theorem FollowInv.shown {start : Nat} {s : Follow} (h : FollowInv start s) {first total : Nat}
    (hw : s.reading = some (first, total)) (hintact : s.bus.total ≤ first + ringSize) {i : Nat}
    (hi : i < total - first) :
    s.bus.ring.get (first + i) ∈ s.emitted ∧ (s.bus.ring.get (first + i)).seq = first + i := by
  obtain ⟨hle, hlt, hbus, -⟩ := h.reading _ hw
  have hcursor := h.cursor
  have htotal := h.total
  have hle : s.cursor ≤ first := hle
  have hbus : total ≤ s.bus.total := hbus
  obtain ⟨k, hk⟩ : ∃ k, first + i = start + k := ⟨first + i - start, by omega⟩
  have hlen : k < s.emitted.length := by omega
  have he := List.getElem?_eq_getElem hlen
  rw [hk, h.ring k _ he (by omega)]
  exact ⟨List.getElem_mem hlen, h.seqs k _ he⟩

theorem printed_shows (s : Follow) (total : Nat) (shown : List Event) :
    (s.shows total shown).printed = s.printed ++ shown := by
  show (s.drains ++ [_]).flatMap Drain.shown = s.drains.flatMap Drain.shown ++ shown
  rw [List.flatMap_append, List.flatMap_singleton]

theorem FollowInv.print {start : Nat} {s s' : Follow} (h : FollowInv start s)
    (hok : FollowOk s .print) (hs : followStep s .print = some s') : FollowInv start s' := by
  obtain ⟨⟨first, total⟩, hw, rfl⟩ := Option.map_eq_some_iff.mp hs
  have hintact : s.bus.total ≤ first + ringSize := hok _ hw
  obtain ⟨hle, hlt, hbus, hskip⟩ := h.reading _ hw
  have hle : s.cursor ≤ first := hle
  have hlt : first < total := hlt
  have hbus : total ≤ s.bus.total := hbus
  have hcursor := h.cursor
  show FollowInv start (s.shows total
    ((List.range (total - first)).map fun i => s.bus.ring.get (first + i)))
  generalize hshown : (List.range (total - first)).map (fun i => s.bus.ring.get (first + i)) = shown
  -- nothing has been written over between the copy of the window and the print
  have hmem : ∀ e ∈ shown, e ∈ s.emitted ∧ first ≤ e.seq ∧ e.seq < total := by
    intro e he
    rw [← hshown] at he
    obtain ⟨i, hi, rfl⟩ := List.mem_map.mp he
    have hi := List.mem_range.mp hi
    obtain ⟨hin, hseq⟩ := h.shown hw hintact hi
    exact ⟨hin, by omega, by omega⟩
  have hseqs : shown.map Event.seq = (List.range (total - first)).map (first + ·) := by
    rw [← hshown, List.map_map]
    apply List.map_congr_left
    intro i hi
    exact (h.shown hw hintact (List.mem_range.mp hi)).2
  refine ⟨h.total, h.seqs, h.ring, ⟨?_, hbus⟩, by simp [Follow.shows], ?_, ?_, ?_, ?_⟩
  · show start ≤ total
    omega
  · rw [printed_shows, List.map_append, List.pairwise_append]
    refine ⟨h.increasing, ?_, ?_⟩
    · rw [hseqs, List.pairwise_map]
      exact List.pairwise_lt_range.imp fun hij => Nat.add_lt_add_left hij first
    · -- what was printed before is behind the cursor
      intro a ha b hb
      obtain ⟨e, he, rfl⟩ := List.mem_map.mp ha
      obtain ⟨e', he', rfl⟩ := List.mem_map.mp hb
      have hbehind := h.behind e he
      have hahead := (hmem e' he').2.1
      omega
  · intro e he
    rw [printed_shows] at he
    show e.seq < total
    rcases List.mem_append.mp he with he | he
    · have hbehind := h.behind e he
      omega
    · exact (hmem e he).2.2
  · intro e he
    rw [printed_shows] at he
    rcases List.mem_append.mp he with he | he
    · exact h.genuine e he
    · exact (hmem e he).1
  · intro seq hge hseq
    have hseq : seq < total := hseq
    rw [printed_shows, List.map_append]
    by_cases hnew : seq < s.cursor
    · obtain hold | ⟨d, hd, hskipped⟩ := h.skipped seq hge hnew
      · exact .inl (List.mem_append_left _ hold)
      · exact .inr ⟨d, List.mem_append_left _ hd, hskipped⟩
    · by_cases hclamp : seq < first
      · -- behind the window: the clamp left it out
        refine .inr ⟨⟨s.cursor, total, s.bus.total, shown⟩, List.mem_append_right _ (by simp), ?_⟩
        have hfar : seq + ringSize < total := hskip seq (by omega) hclamp
        exact ⟨by show s.cursor ≤ seq; omega, hseq, by show seq + ringSize < s.bus.total; omega⟩
      · -- in the window: it is printed now
        refine .inl (List.mem_append_right _ ?_)
        rw [hseqs]
        exact List.mem_map.mpr ⟨seq - first, List.mem_range.mpr (by omega), by omega⟩

theorem FollowInv.step {start : Nat} {s s' : Follow} {a : FollowAct} (h : FollowInv start s)
    (hok : FollowOk s a) (hs : followStep s a = some s') : FollowInv start s' := by
  cases a with
  | emit call =>
    cases hs
    exact h.emit call hok
  | readTotal => exact h.readTotal hs
  | print => exact h.print hok hs

/-- **Following neither repeats nor reorders** as long as no call prints from a
window that has lost an event: the numbers printed increase, the events printed
are events emitted, and what a call passed over was followed by 256 more before
the call printed. -/
theorem follow_in_order {bus : Bus} {as : List FollowAct} {s : Follow}
    (hrun : RunOk followStep FollowOk (Follow.start bus) as s) :
    (s.printed.map Event.seq).Pairwise (· < ·) ∧ (∀ e ∈ s.printed, e ∈ s.emitted) ∧
      ∀ seq, bus.total ≤ seq → seq < s.cursor → seq ∈ s.printed.map Event.seq ∨
        ∃ d ∈ s.drains, d.fromSeq ≤ seq ∧ seq < d.total ∧ seq + ringSize < d.later := by
  have hinv : FollowInv bus.total s :=
    hrun.invariant (fun _ _ _ hi hok hs => hi.step hok hs) (followInv_start bus)
  exact ⟨hinv.increasing, hinv.genuine, hinv.skipped⟩

/-! ## A follower that lags -/

def tick : FollowAct :=
  .emit { type := .netInit, containerId := [], detail := [], value := 0, now := 0 }

/-- The follower lags by more than a ring and catches up. -/
theorem follow_in_order_lagging :
    ∃ s, RunOk followStep FollowOk (Follow.start .empty)
        ([tick, .readTotal, .print] ++ List.replicate 260 tick ++ [.readTotal, .print]) s ∧
      (s.printed.map Event.seq).Pairwise (· < ·) := by
  obtain ⟨s, hrun, -⟩ := exists_runOk_of_exec followStep FollowOk (Follow.start .empty)
    ([tick, .readTotal, .print] ++ List.replicate 260 tick ++ [.readTotal, .print])
    (fun _ => True) (by decide +kernel)
  exact ⟨s, hrun, (follow_in_order hrun).1⟩

/-- A full ring of events, one more between the two sections of a call: the
last event is printed first. -/
theorem follow_repeats :
    ∃ s, Runs followStep (Follow.start .empty)
        (List.replicate 256 tick ++ [.readTotal, tick, .print]) s ∧
      ¬ (s.printed.map Event.seq).Pairwise (· < ·) := by
  obtain ⟨s, hrun, hfirst⟩ := exists_runOk_of_exec followStep (fun _ _ => True)
    (Follow.start .empty) (List.replicate 256 tick ++ [.readTotal, tick, .print])
    (fun s => (s.printed.map Event.seq).take 2 = [256, 1]) (by decide +kernel)
  refine ⟨s, hrun, fun hsorted => ?_⟩
  have htwo := hsorted.sublist (List.take_sublist 2 _)
  rw [hfirst] at htwo
  simp at htwo

end ContainerSim.EventBus
