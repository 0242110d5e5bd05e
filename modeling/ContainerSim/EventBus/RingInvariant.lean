import ContainerSim.EventBus.Emitters

/-!
# What the ring stands for

However the calls of `eventbus_emit` interleave, the order in which they had the
lock decides what is in the ring: under every number of the last 256 the event
that got the number (`ring_holds_last`). The counter is the number of events, as
far as a `uint64_t` can count them (`ring_not_exact`).
-/

namespace ContainerSim.EventBus

open Lib

/-- `EVENTBUS_RING_MASK`. -/
def ringMask : Nat := ringSize - 1

/-- `seq & EVENTBUS_RING_MASK` -/
def slotOf (seq : Nat) : Fin ringSize :=
  ⟨seq &&& ringMask, Nat.lt_of_le_of_lt Nat.and_le_right (by decide)⟩

/-- A process after `eventbus_init` without a log file. -/
def Emitters.fresh (calloc : Bool) : Emitters :=
  { bus := eventbusInit calloc none, pending := fun _ => none, file := [], written := [] }

/-- The calls of a run in the order in which they had the lock. -/
def lockOrder (as : List EmitterAct) : List Emit :=
  as.filterMap fun
    | .publish _ call => some call
    | .write _ => none

/-- The calls are counted and numbered in the order of the lock, and the slots
of the last numbers hold the events that got them. -/
structure ExactRing (as : List EmitterAct) (s : Emitters) : Prop where
  total : s.bus.total = (lockOrder as).length
  next : ∀ tid call s', emitterStep s (.publish tid call) = some s' →
    s'.pending tid = some (call.event (lockOrder as).length)
  slot : ∀ seq, s.bus.total - ringSize ≤ seq → seq < s.bus.total →
    ∃ call, (lockOrder as)[seq]? = some call ∧ s.bus.ring.slot (slotOf seq) = call.event seq

theorem slotOf_eq (seq : Nat) : slotOf seq = Fin.ofNat ringSize seq := by
  apply Fin.ext
  exact Nat.and_two_pow_sub_one_eq_mod seq 8

theorem lockOrder_snoc (as : List EmitterAct) (a : EmitterAct) :
    lockOrder (as ++ [a]) = lockOrder as ++ lockOrder [a] :=
  List.filterMap_append

/-- The bus is that of the calls one after the other. -/
theorem bus_of_run {s s' : Emitters} {as : List EmitterAct} (hrun : Runs emitterStep s as s') :
    s'.bus = (lockOrder as).foldl (fun b call => (b.publish call).1) s.bus := by
  induction hrun with
  | nil => rfl
  | @snoc t t' as a _ _ hs ih =>
    rw [lockOrder_snoc, List.foldl_append, ← ih]
    cases a with
    | publish tid call =>
      simp only [emitterStep] at hs
      split at hs
      · cases hs
      · obtain rfl := Option.some.inj hs
        rfl
    | write tid =>
      obtain ⟨e, -, rfl⟩ := Option.map_eq_some_iff.mp hs
      rfl

/-- The event of a call has the number the counter had. -/
theorem pending_of_publish {s s' : Emitters} {tid : Nat} {call : Emit}
    (h : emitterStep s (.publish tid call) = some s') :
    s'.pending tid = some (call.event s.bus.total) := by
  simp only [emitterStep] at h
  split at h
  · cases h
  · obtain rfl := Option.some.inj h
    exact Function.update_self _ _ _

section
variable {calloc : Bool} {as : List EmitterAct} {s : Emitters}

theorem fresh_run (hrun : Runs emitterStep (.fresh calloc) as s) :
    s.bus = { ring := Bus.empty.ring.fill 0 (eventsFrom 0 (lockOrder as))
              total := (lockOrder as).length % 2 ^ 64 } := by
  have hempty : (Emitters.fresh calloc).bus = .empty := rfl
  rw [bus_of_run hrun, hempty, publish_all .empty (by decide)]
  show Bus.mk _ ((0 + (lockOrder as).length) % 2 ^ 64) = _
  rw [Nat.zero_add]
  rfl

/-- The slots of the last calls hold their events. -/
theorem slot_of_recent (hrun : Runs emitterStep (.fresh calloc) as s) {k : Nat} {call : Emit}
    (hcall : (lockOrder as)[k]? = some call) (hlast : (lockOrder as).length ≤ k + ringSize) :
    s.bus.ring.slot (slotOf (k % 2 ^ 64)) = call.event (k % 2 ^ 64) := by
  obtain ⟨hk, rfl⟩ := List.getElem?_eq_some_iff.mp hcall
  have hevent := eventsFrom_get (show 0 < 2 ^ 64 by decide) hk
  rw [Nat.zero_add] at hevent
  obtain ⟨hk', hevent⟩ := List.getElem?_eq_some_iff.mp hevent
  have hget := RingBuf.get_fill Bus.empty.ring 0 (eventsFrom 0 (lockOrder as)) hk'
    (by rwa [eventsFrom_length])
  -- the slot of a number does not notice the wrap of the counter
  have hslot : slotOf (k % 2 ^ 64) = Fin.ofNat ringSize (0 + k) := by
    rw [slotOf_eq, Nat.zero_add, RingBuf.ofNat_eq_iff]
    exact Nat.mod_mod_of_dvd _ ⟨2 ^ 56, rfl⟩
  rw [fresh_run hrun, hslot, ← hevent]
  exact hget

/-- A number of the window is the number of one of the last calls. -/
theorem exists_recent (hrun : Runs emitterStep (.fresh calloc) as s) {seq : Nat}
    (hlow : s.bus.total - ringSize ≤ seq) (hhigh : seq < s.bus.total) :
    ∃ k call, (lockOrder as)[k]? = some call ∧ seq = k % 2 ^ 64 ∧
      (lockOrder as).length ≤ k + ringSize ∧
      ((lockOrder as).length < 2 ^ 64 → k = seq) := by
  have htotal : s.bus.total = (lockOrder as).length % 2 ^ 64 := by rw [fresh_run hrun]
  have hdiv := Nat.mod_add_div (lockOrder as).length (2 ^ 64)
  have hlt : s.bus.total < 2 ^ 64 := by
    rw [htotal]
    exact Nat.mod_lt _ (by omega)
  rw [← htotal] at hdiv
  have hk : 2 ^ 64 * ((lockOrder as).length / 2 ^ 64) + seq < (lockOrder as).length := by omega
  refine ⟨_, _, List.getElem?_eq_getElem hk, ?_, by omega, fun hsmall => ?_⟩
  · rw [Nat.mul_add_mod, Nat.mod_eq_of_lt (by omega)]
  · rw [Nat.div_eq_of_lt hsmall, Nat.mul_zero, Nat.zero_add]

/-- **The ring after any run**: the counter is the number of events modulo
2 ^ 64, the next event gets that number, and every number of the window has the
event of the last call that got it in its slot. Until the counter wraps the ring
is exact. -/
theorem ring_holds_last (hrun : Runs emitterStep (.fresh calloc) as s) :
    s.bus.total = (lockOrder as).length % 2 ^ 64 ∧
      (∀ tid call s', emitterStep s (.publish tid call) = some s' →
        s'.pending tid = some (call.event ((lockOrder as).length % 2 ^ 64))) ∧
      (∀ seq, s.bus.total - ringSize ≤ seq → seq < s.bus.total →
        ∃ k call, (lockOrder as)[k]? = some call ∧ seq = k % 2 ^ 64 ∧
          (lockOrder as).length ≤ k + ringSize ∧
          s.bus.ring.slot (slotOf seq) = call.event seq) ∧
      ((lockOrder as).length < 2 ^ 64 → ExactRing as s) := by
  have htotal : s.bus.total = (lockOrder as).length % 2 ^ 64 := by rw [fresh_run hrun]
  refine ⟨htotal, fun tid call s' hs => ?_, fun seq hlow hhigh => ?_, fun hsmall => ⟨?_, ?_, ?_⟩⟩
  · rw [pending_of_publish hs, htotal]
  · obtain ⟨k, call, hcall, rfl, hlast, -⟩ := exists_recent hrun hlow hhigh
    exact ⟨k, call, hcall, rfl, hlast, slot_of_recent hrun hcall hlast⟩
  · rw [htotal, Nat.mod_eq_of_lt hsmall]
  · intro tid call s' hs
    rw [pending_of_publish hs, htotal, Nat.mod_eq_of_lt hsmall]
  · intro seq hlow hhigh
    obtain ⟨k, call, hcall, hk, hlast, hexact⟩ := exists_recent hrun hlow hhigh
    obtain rfl := hexact hsmall
    have hslot := slot_of_recent hrun hcall hlast
    rw [← hk] at hslot
    exact ⟨call, hcall, hslot⟩

end

/-- Three calls of two threads, the second thread between the calls of the first. -/
theorem ring_holds_last_three : ∃ as s, Runs emitterStep (.fresh true) as s ∧
    (lockOrder as).length = 3 ∧ s.bus.total = (lockOrder as).length % 2 ^ 64 := by
  let call (detail : String) : Emit :=
    { type := .netInit, containerId := [], detail := bytes detail, value := 0, now := 0 }
  obtain ⟨s, hrun, hcount⟩ := exists_runOk_of_exec emitterStep (fun _ _ => True)
    (Emitters.fresh true)
    [.publish 0 (call "br0"), .publish 1 (call "br1"), .write 0, .publish 0 (call "br2")]
    (fun s => s.bus.total = 3) (by decide +kernel)
  exact ⟨_, s, hrun, rfl, (ring_holds_last hrun).1⟩

/-- One thread that calls again and again. -/
theorem exists_run_of_length (n : Nat) : ∃ as s, Runs emitterStep (.fresh true) as s ∧
    (lockOrder as).length = n ∧ s.pending 0 = none := by
  induction n with
  | zero => exact ⟨[], .fresh true, .nil _, rfl, rfl⟩
  | succ n ih =>
    obtain ⟨as, s, hrun, hlen, hnone⟩ := ih
    let call : Emit :=
      { type := .netInit, containerId := [], detail := [], value := 0, now := 0 }
    have hpublish : ∃ s₁, emitterStep s (.publish 0 call) = some s₁ := by
      simp only [emitterStep, hnone]
      exact ⟨_, rfl⟩
    obtain ⟨s₁, hs₁⟩ := hpublish
    have hpending := pending_of_publish hs₁
    have hwrite : ∃ s₂, emitterStep s₁ (.write 0) = some s₂ ∧ s₂.pending 0 = none := by
      simp only [emitterStep, hpending, Option.map_some]
      refine ⟨_, rfl, ?_⟩
      show Function.update s₁.pending 0 none 0 = none
      exact Function.update_self _ _ _
    obtain ⟨s₂, hs₂, hnone₂⟩ := hwrite
    refine ⟨as ++ [.publish 0 call] ++ [.write 0], s₂, (hrun.snoc trivial hs₁).snoc trivial hs₂,
      ?_, hnone₂⟩
    rw [lockOrder_snoc, lockOrder_snoc, List.length_append, List.length_append, hlen]
    rfl

/-- After 2 ^ 64 events the counter is 0. -/
theorem ring_not_exact : ¬ ∀ calloc as s, Runs emitterStep (.fresh calloc) as s →
    ExactRing as s := by
  intro h
  obtain ⟨as, s, hrun, hlen, -⟩ := exists_run_of_length (2 ^ 64)
  have htotal := (h true as s hrun).total
  rw [fresh_run hrun, hlen] at htotal
  have hwrap : 2 ^ 64 % 2 ^ 64 = 2 ^ 64 := htotal
  rw [Nat.mod_self] at hwrap
  exact absurd hwrap (by decide)

end ContainerSim.EventBus
