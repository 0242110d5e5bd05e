import ContainerSim.Lib.Bytes
import ContainerSim.Lib.RingBuf

/-!
# The event bus

The ring of the last 256 events and the counter that numbers them. What every
thread does under `g_lock` in `eventbus_emit` is `Bus.publish`; the line it
writes after that is in `Persist`. The counter is a `uint64_t` and wraps, which
the ring does not notice since 256 divides 2 ^ 64.
-/

namespace ContainerSim.EventBus

open Lib

/-- `EVENTBUS_RING_SIZE`. -/
abbrev ringSize : Nat := 256

theorem ringSize_pos : 0 < ringSize := by decide

instance : NeZero ringSize := ⟨by decide⟩

/-- `EVENTBUS_DETAIL_LEN`. -/
def detailLen : Nat := 128

inductive EventType where
  | containerCreated | containerStarted | containerStopped | containerDeleted
  | containerPaused | containerUnpaused
  | execLaunched | oomKill
  | imageBuilt | imageRemoved | imageTagged
  | netInit | netTeardown
  | securityProfileApplied
  | schedEnabled | schedDisabled
  | orchSpecUp | orchSpecDown | orchSvcStarted | orchSvcHealthy | orchSvcUnhealthy
  | orchSvcRestarted
  | alertFired | alertResolved
  deriving DecidableEq, Repr

/-- The types in the order of the enumeration. -/
def EventType.all : List EventType :=
  [.containerCreated, .containerStarted, .containerStopped, .containerDeleted, .containerPaused,
    .containerUnpaused, .execLaunched, .oomKill, .imageBuilt, .imageRemoved, .imageTagged,
    .netInit, .netTeardown, .securityProfileApplied, .schedEnabled, .schedDisabled, .orchSpecUp,
    .orchSpecDown, .orchSvcStarted, .orchSvcHealthy, .orchSvcUnhealthy, .orchSvcRestarted,
    .alertFired, .alertResolved]

/-- `eventbus_type_name`. -/
def eventbusTypeName : EventType → Bytes
  | .containerCreated => bytes "CONTAINER_CREATED"
  | .containerStarted => bytes "CONTAINER_STARTED"
  | .containerStopped => bytes "CONTAINER_STOPPED"
  | .containerDeleted => bytes "CONTAINER_DELETED"
  | .containerPaused => bytes "CONTAINER_PAUSED"
  | .containerUnpaused => bytes "CONTAINER_UNPAUSED"
  | .execLaunched => bytes "EXEC_LAUNCHED"
  | .oomKill => bytes "OOM_KILL"
  | .imageBuilt => bytes "IMAGE_BUILT"
  | .imageRemoved => bytes "IMAGE_REMOVED"
  | .imageTagged => bytes "IMAGE_TAGGED"
  | .netInit => bytes "NET_INIT"
  | .netTeardown => bytes "NET_TEARDOWN"
  | .securityProfileApplied => bytes "SECURITY_PROFILE_APPLIED"
  | .schedEnabled => bytes "SCHED_ENABLED"
  | .schedDisabled => bytes "SCHED_DISABLED"
  | .orchSpecUp => bytes "ORCH_SPEC_UP"
  | .orchSpecDown => bytes "ORCH_SPEC_DOWN"
  | .orchSvcStarted => bytes "ORCH_SVC_STARTED"
  | .orchSvcHealthy => bytes "ORCH_SVC_HEALTHY"
  | .orchSvcUnhealthy => bytes "ORCH_SVC_UNHEALTHY"
  | .orchSvcRestarted => bytes "ORCH_SVC_RESTARTED"
  | .alertFired => bytes "ALERT_FIRED"
  | .alertResolved => bytes "ALERT_RESOLVED"

structure Event where
  type : EventType
  timestamp : Int64
  containerId : Bytes
  detail : Bytes
  value : Int64
  seq : Nat
  deriving DecidableEq

/-- The `Event` a `memset` to zero leaves. -/
def Event.zero : Event :=
  { type := .containerCreated, timestamp := 0, containerId := [], detail := [], value := 0,
    seq := 0 }

structure Bus where
  /-- `g_ring` -/
  ring : RingBuf ringSize Event
  /-- `g_total` -/
  total : Nat

/-- The bus after the `memset` of `eventbus_init`. -/
def Bus.empty : Bus := { ring := ⟨fun _ => .zero⟩, total := 0 }

/-- The arguments of one `eventbus_emit` and the time it reads. A NULL pointer
counts as the empty string. -/
structure Emit where
  type : EventType
  containerId : Bytes
  detail : Bytes
  value : Int64
  /-- `time(NULL)` -/
  now : Int64

/-- The event of a call that gets number `seq`. -/
def Emit.event (call : Emit) (seq : Nat) : Event :=
  { type := call.type
    timestamp := call.now
    containerId := snprintfStr 64 call.containerId
    detail := snprintfStr detailLen call.detail
    value := call.value
    seq }

/-- The locked section of `eventbus_emit`, with the event it stores. -/
def Bus.publish (b : Bus) (call : Emit) : Bus × Event :=
  let e := call.event b.total
  ({ ring := b.ring.put b.total e, total := (b.total + 1) % 2 ^ 64 }, e)

@[simp] theorem publish_ring (b : Bus) (call : Emit) :
    (b.publish call).1.ring = b.ring.put b.total (call.event b.total) := rfl

@[simp] theorem publish_total (b : Bus) (call : Emit) :
    (b.publish call).1.total = (b.total + 1) % 2 ^ 64 := rfl

@[simp] theorem publish_event (b : Bus) (call : Emit) :
    (b.publish call).2 = call.event b.total := rfl

/-! ## A sequence of calls -/

/-- The events of a sequence of calls, the first one with number `start`. -/
def eventsFrom (start : Nat) : List Emit → List Event
  | [] => []
  | call :: calls => call.event start :: eventsFrom ((start + 1) % 2 ^ 64) calls

@[simp] theorem eventsFrom_length (start : Nat) (calls : List Emit) :
    (eventsFrom start calls).length = calls.length := by
  induction calls generalizing start with
  | nil => rfl
  | cons call calls ih =>
    show (eventsFrom _ calls).length + 1 = calls.length + 1
    rw [ih]

theorem mem_eventsFrom {start : Nat} {calls : List Emit} {e : Event}
    (h : e ∈ eventsFrom start calls) : ∃ call ∈ calls, ∃ seq, e = call.event seq := by
  induction calls generalizing start with
  | nil => simp [eventsFrom] at h
  | cons call calls ih =>
    rcases List.mem_cons.mp h with rfl | h
    · exact ⟨call, List.mem_cons_self, start, rfl⟩
    · obtain ⟨call', hcall, seq, rfl⟩ := ih h
      exact ⟨call', List.mem_cons_of_mem _ hcall, seq, rfl⟩

theorem eventsFrom_append {start : Nat} (hstart : start < 2 ^ 64) (calls calls' : List Emit) :
    eventsFrom start (calls ++ calls') =
      eventsFrom start calls ++ eventsFrom ((start + calls.length) % 2 ^ 64) calls' := by
  induction calls generalizing start with
  | nil =>
    show eventsFrom start calls' = eventsFrom ((start + 0) % 2 ^ 64) calls'
    rw [Nat.add_zero, Nat.mod_eq_of_lt hstart]
  | cons call calls ih =>
    have hwrap : (start + 1) % 2 ^ 64 < 2 ^ 64 := Nat.mod_lt _ (by omega)
    have hnext := ih hwrap
    rw [Nat.mod_add_mod, Nat.add_assoc, Nat.add_comm 1] at hnext
    exact congrArg (call.event start :: ·) hnext

theorem eventsFrom_get {start : Nat} (hstart : start < 2 ^ 64) {calls : List Emit} {k : Nat}
    (hk : k < calls.length) :
    (eventsFrom start calls)[k]? = some (calls[k].event ((start + k) % 2 ^ 64)) := by
  have hsplit := eventsFrom_append hstart (calls.take k) (calls.drop k)
  have hlen : (calls.take k).length = k := by
    rw [List.length_take]
    omega
  rw [List.take_append_drop, hlen, List.drop_eq_getElem_cons hk] at hsplit
  rw [hsplit, List.getElem?_append_right (by rw [eventsFrom_length, hlen]), eventsFrom_length,
    hlen, Nat.sub_self]
  rfl

/-- The ring holds the events under their numbers. -/
theorem publish_all (b : Bus) (hb : b.total < 2 ^ 64) (calls : List Emit) :
    calls.foldl (fun b call => (b.publish call).1) b =
      { ring := b.ring.fill b.total (eventsFrom b.total calls)
        total := (b.total + calls.length) % 2 ^ 64 } := by
  induction calls generalizing b with
  | nil =>
    show b = { ring := b.ring, total := b.total % 2 ^ 64 }
    rw [Nat.mod_eq_of_lt hb]
  | cons call calls ih =>
    have hlt : (b.publish call).1.total < 2 ^ 64 := Nat.mod_lt _ (by omega)
    -- the ring does not see the wrap
    have hslot : (b.total + 1) % 2 ^ 64 % ringSize = (b.total + 1) % ringSize :=
      Nat.mod_mod_of_dvd _ ⟨2 ^ 56, rfl⟩
    rw [List.foldl_cons, ih _ hlt]
    simp only [publish_ring, publish_total, List.length_cons, Nat.mod_add_mod]
    rw [RingBuf.fill_congr _ _ hslot, Nat.add_assoc, Nat.add_comm 1]
    rfl

end ContainerSim.EventBus
