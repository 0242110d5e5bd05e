import ContainerSim.Lib.Kleene
import ContainerSim.Runtime.Appends
import ContainerSim.Lib.Keyed
import ContainerSim.Runtime.Pairing
import ContainerSim.Runtime.Rule
import Mathlib.Computability.RegularExpressions

/-!
# Lifecycle events

The CONTAINER_* events of one id, in the order they are emitted, against the
language of the lifecycle. The state of a record says where its word stands
(`Container.phase`), and every operation but a start takes both on together.

A start does so only if it completes. One that fails after it has its process
stops it again, which emits STOPPED for a container that never was STARTED. One
that finds its record PAUSED emits a second STARTED.
-/

namespace ContainerSim.Runtime

open Lib Sched
open RegularExpression (char)
open scoped Computability

/-! ## The language -/

/-- `(PAUSED UNPAUSED)* PAUSED?` -/
def pauses : RegularExpression EventType :=
  RegularExpression.star (char .paused * char .unpaused) * (1 + char .paused)

/-- `STARTED (PAUSED UNPAUSED)* PAUSED? STOPPED` -/
def round : RegularExpression EventType := char .started * pauses * char .stopped

/-- A container that is there: `CREATED` and some rounds. -/
def present : RegularExpression EventType := char .created * RegularExpression.star round

/-- Containers of one id, one after the other: each is created, goes through
rounds and is deleted; the last one may be in the middle of a round. -/
def lifecycle : RegularExpression EventType :=
  RegularExpression.star (present * char .deleted) * (1 + present * (1 + char .started * pauses))

/-- Where the word of an id stands. -/
inductive Phase where
  | gone | idle | up | paused
  deriving DecidableEq

def Phase.next : Phase → EventType → Option Phase
  | .gone, .created => some .idle
  | .idle, .started => some .up
  | .up, .paused => some .paused
  | .paused, .unpaused => some .up
  | .up, .stopped => some .idle
  | .paused, .stopped => some .idle
  | .idle, .deleted => some .gone
  | _, _ => none

def Phase.run : Phase → List EventType → Option Phase
  | p, [] => some p
  | p, e :: word => (p.next e).bind fun p => p.run word

/-- What may still come for a container that is not running. -/
def idleWords : RegularExpression EventType :=
  RegularExpression.star round * (1 + char .started * pauses + char .deleted * lifecycle)

/-- What may still come for a running one. -/
def upWords : RegularExpression EventType := pauses * (1 + char .stopped * idleWords)

/-- What may still come. -/
def Phase.words : Phase → RegularExpression EventType
  | .gone => lifecycle
  | .idle => idleWords
  | .up => upWords
  | .paused => 1 + char .unpaused * upWords + char .stopped * idleWords

theorem Phase.run_append (p : Phase) (word word' : List EventType) :
    p.run (word ++ word') = (p.run word).bind fun q => q.run word' := by
  induction word generalizing p with
  | nil => rfl
  | cons e word ih =>
    show (p.next e).bind _ = ((p.next e).bind _).bind _
    cases p.next e with
    | none => rfl
    | some q => exact ih q

section Inclusions

variable {α : Type*} [KleeneAlgebra α]

theorem created_le (C R A D : α) :
    C * (R∗ * (1 + A + D * ((C * R∗ * D)∗ * (1 + C * R∗ * (1 + A))))) ≤
      (C * R∗ * D)∗ * (1 + C * R∗ * (1 + A)) := by
  calc C * (R∗ * (1 + A + D * ((C * R∗ * D)∗ * (1 + C * R∗ * (1 + A)))))
      = C * R∗ * (1 + A) + C * R∗ * D * ((C * R∗ * D)∗ * (1 + C * R∗ * (1 + A))) := by
        rw [mul_add, mul_add, ← mul_assoc, ← mul_assoc, ← mul_assoc]
    _ ≤ (C * R∗ * D)∗ * (1 + C * R∗ * (1 + A)) := by
        apply add_le
        · exact le_kstar_mul _ (le_add_of_le_right _ le_rfl)
        · exact mul_kstar_mul_le _ _

/-- A round is finished, or it is not. -/
theorem started_le (S X T A : α) :
    S * (X * (1 + T * ((S * X * T)∗ * (1 + S * X + A)))) ≤ (S * X * T)∗ * (1 + S * X + A) := by
  calc S * (X * (1 + T * ((S * X * T)∗ * (1 + S * X + A))))
      = S * X + S * X * T * ((S * X * T)∗ * (1 + S * X + A)) := by
        rw [mul_add, mul_add, mul_one, ← mul_assoc, ← mul_assoc, ← mul_assoc]
    _ ≤ (S * X * T)∗ * (1 + S * X + A) := by
        apply add_le
        · exact le_kstar_mul _ (le_add_of_le_left _ (le_add_of_le_right _ le_rfl))
        · exact mul_kstar_mul_le _ _

theorem deleted_le (R A B : α) : B ≤ R∗ * (A + B) :=
  le_kstar_mul R (le_add_of_le_right A le_rfl)

/-- A pause is the last one, or it is followed by UNPAUSED. -/
theorem paused_le (P U B : α) :
    P * (1 + U * ((P * U)∗ * (1 + P) * (1 + B)) + B) ≤ (P * U)∗ * (1 + P) * (1 + B) := by
  calc P * (1 + U * ((P * U)∗ * (1 + P) * (1 + B)) + B)
      = P * (1 + B) + (P * U) * ((P * U)∗ * ((1 + P) * (1 + B))) := by
        rw [add_right_comm, mul_add, ← mul_assoc P U, mul_assoc ((P * U)∗)]
    _ ≤ (P * U)∗ * ((1 + P) * (1 + B)) := by
        apply add_le
        · exact le_kstar_mul _ (mul_le_mul_left (le_add_of_le_right 1 le_rfl) _)
        · exact mul_kstar_mul_le _ _
    _ = (P * U)∗ * (1 + P) * (1 + B) := (mul_assoc _ _ _).symm

theorem stopped_le (P U B : α) : B ≤ (P * U)∗ * (1 + P) * (1 + B) := by
  rw [mul_assoc]
  apply le_kstar_mul
  calc B = 1 * B := (one_mul B).symm
    _ ≤ (1 + P) * (1 + B) :=
      mul_le_mul' (le_add_of_le_left P le_rfl) (le_add_of_le_right 1 le_rfl)

end Inclusions

/-- One event and what may come after it. -/
theorem words_next {p q : Phase} {e : EventType} (h : p.next e = some q) {word : List EventType}
    (hword : word ∈ (char e * q.words).matches') : word ∈ p.words.matches' := by
  suffices hle : (char e * q.words).matches' ≤ p.words.matches' from hle hword
  cases p with
  | gone =>
    cases e with
    | created => cases h; exact created_le _ _ _ _
    | _ => cases h
  | idle =>
    cases e with
    | started => cases h; exact started_le _ _ _ _
    | deleted => cases h; exact deleted_le _ _ _
    | _ => cases h
  | up =>
    cases e with
    | paused => cases h; exact paused_le _ _ _
    | stopped => cases h; exact stopped_le _ _ _
    | _ => cases h
  | paused =>
    cases e with
    | unpaused => cases h; exact le_add_of_le_left _ (le_add_of_le_right _ le_rfl)
    | stopped => cases h; exact le_add_of_le_right _ le_rfl
    | _ => cases h

theorem run_words {p q : Phase} {word : List EventType} (h : p.run word = some q) :
    word ∈ p.words.matches' := by
  induction word generalizing p with
  | nil => cases p <;> decide
  | cons e word ih =>
    obtain ⟨p', hp', hrest⟩ := Option.bind_eq_some_iff.mp h
    have hmem : e :: word ∈ (char e * p'.words).matches' := by
      rw [RegularExpression.matches'_mul, RegularExpression.matches'_char, Language.mem_mul]
      exact ⟨[e], rfl, word, ih hrest, rfl⟩
    exact words_next hp' hmem

/-! ## Words of a trace -/

/-- A lifecycle event with its container. -/
def lifeEvent : Effect → Option (Bytes × EventType)
  | .event .oomKill _ _ _ => none
  | .event .securityProfile _ _ _ => none
  | .event type id _ _ => some (id, type)
  | _ => none

/-- The lifecycle events of all containers, in order. -/
def lives (trace : List Effect) : List (Bytes × EventType) := trace.filterMap lifeEvent

/-- The lifecycle events of one id. -/
def wordOf (id : Bytes) (trace : List Effect) : List EventType :=
  (lives trace).filterMap fun p => if p.1 = id then some p.2 else none

@[simp] theorem lives_emit (w : World) (e : Effect) :
    lives (w.emit e).trace = lives w.trace ++ (lifeEvent e).toList := by
  rw [lives, World.emit, List.filterMap_append]
  cases h : lifeEvent e <;> simp [lives, h]

theorem lives_network {w w' : World} (h : Appends Effect.OfNetwork w w') :
    lives w'.trace = lives w.trace := by
  apply h.filterMap_eq
  intro e he
  cases e with
  | event => cases he
  | _ => rfl

theorem lives_ending {pid : Int} {w w' : World} (h : Appends (Effect.OfEnding pid) w w') :
    lives w'.trace = lives w.trace := by
  apply h.filterMap_eq
  intro e he
  cases e with
  | event => cases he
  | _ => rfl

/-- Where the word of a record stands. -/
def Container.phase (c : Container) : Phase :=
  match c.state with
  | .created | .stopped => .idle
  | .running => .up
  | .paused => .paused

theorem phase_idle {c : Container} (h : ¬ Live c) : c.phase = .idle := by
  unfold Container.phase
  cases hstate : c.state with
  | created => rfl
  | stopped => rfl
  | running => exact absurd (.inl hstate) h
  | paused => exact absurd (.inr hstate) h

/-- A live record may stop. -/
theorem phase_stopped {c : Container} (h : Live c) : c.phase.next .stopped = some .idle := by
  unfold Container.phase
  rcases h with h | h
  · rw [h]
    rfl
  · rw [h]
    rfl

/-! ## What one record tells -/

/-- The events emitted meanwhile are of this record, and its state has moved as
they tell. -/
structure Speaks (c : Container) (w : World) (c' : Container) (w' : World) : Prop where
  id : c'.id = c.id
  moved : ∃ es, lives w'.trace = lives w.trace ++ es.map (fun e => (c.id, e)) ∧
    c.phase.run es = some c'.phase

theorem Speaks.silent {c c' : Container} {w w' : World} (hid : c'.id = c.id)
    (hstate : c'.state = c.state) (hlives : lives w'.trace = lives w.trace) :
    Speaks c w c' w' := by
  refine ⟨hid, [], by rw [hlives, List.map_nil, List.append_nil], ?_⟩
  show some c.phase = some c'.phase
  rw [Container.phase, Container.phase, hstate]

theorem Speaks.one {c c' : Container} {w w' : World} {e : EventType} (hid : c'.id = c.id)
    (hnext : c.phase.next e = some c'.phase)
    (hlives : lives w'.trace = lives w.trace ++ [(c.id, e)]) : Speaks c w c' w' := by
  refine ⟨hid, [e], hlives, ?_⟩
  show (c.phase.next e).bind _ = _
  rw [hnext]
  rfl

theorem Speaks.trans {c c' c'' : Container} {w w' w'' : World} (h : Speaks c w c' w')
    (h' : Speaks c' w' c'' w'') : Speaks c w c'' w'' := by
  obtain ⟨es, hes, hrun⟩ := h.moved
  obtain ⟨es', hes', hrun'⟩ := h'.moved
  refine ⟨h'.id.trans h.id, es ++ es', ?_, ?_⟩
  · rw [hes', hes, List.append_assoc, List.map_append, h.id]
  · rw [Phase.run_append, hrun]
    exact hrun'

/-- A live record is found stopped. -/
theorem Speaks.stop {c c' : Container} {w w' : World} (hlive : Live c) (hid : c'.id = c.id)
    (hstate : c'.state = .stopped)
    (hlives : lives w'.trace = lives w.trace ++ [(c.id, .stopped)]) : Speaks c w c' w' := by
  have hidle : ¬ Live c' := by
    rw [Live, hstate]
    simp
  apply Speaks.one hid _ hlives
  rw [phase_idle hidle]
  exact phase_stopped hlive

theorem syncContainerState_speaks (o : SyncOutcome) (c : Container) (w : World) :
    Speaks c w (syncContainerState o c w).1 (syncContainerState o c w).2.1 := by
  unfold syncContainerState
  split
  · exact .silent rfl rfl rfl
  rename_i hlive
  have hl : Live c := by
    by_contra hl
    exact hlive (.inl (not_or.mp hl))
  split
  · exact .silent rfl rfl rfl
  cases o.wait with
  | reaped status =>
    -- the one STOPPED event comes after the cleanup, which emits nothing
    obtain ⟨hsame, -, hstate, -⟩ := cleanupContainerNetwork_spec
      { c with stoppedAt := o.now, exitCode := status.code, state := .stopped, pid := -1 }
      ((w.emit (.reaped c.pid)).schedRemove c.pid)
    refine .stop hl hsame.id hstate ?_
    rw [lives_emit, lives_network (cleanupContainerNetwork_appends _ _), trace_schedRemove,
      lives_emit]
    show (lives w.trace ++ []) ++ [(_, EventType.stopped)] = _
    rw [List.append_nil, hsame.id]
  | echild =>
    simp only
    split
    · exact .silent rfl rfl rfl
    · obtain ⟨hsame, -, hstate, -⟩ := cleanupContainerNetwork_spec
        { c with state := .stopped, pid := -1 } (w.emit (.foundDead c.pid))
      refine .stop hl hsame.id hstate ?_
      rw [lives_emit, lives_network (cleanupContainerNetwork_appends _ _), lives_emit]
      show (lives w.trace ++ []) ++ [(_, EventType.stopped)] = _
      rw [List.append_nil, hsame.id]
  | nothing => exact .silent rfl rfl rfl
  | eintr => exact .silent rfl rfl rfl
  | error => exact .silent rfl rfl rfl

theorem pollRecord_speaks (o : SyncOutcome) (c : Container) (w : World) :
    Speaks c w (pollRecord o c w).1 (pollRecord o c w).2.1 := by
  unfold pollRecord
  split
  · have hoom : Speaks c w { c with oomKillCount := o.oom }
        (w.emit (.event .oomKill c.id [] o.rssMb)) :=
      .silent rfl rfl (by rw [lives_emit]; exact List.append_nil _)
    exact hoom.trans (syncContainerState_speaks o _ _)
  · exact syncContainerState_speaks o c w

theorem stopContainerProcess_speaks (o : StopOutcome) (timeoutS : Int) (c : Container)
    (w : World) :
    Speaks c w (stopContainerProcess o timeoutS c w).1
      (stopContainerProcess o timeoutS c w).2.1 := by
  unfold stopContainerProcess
  split
  · exact .silent rfl rfl rfl
  rename_i hlive
  have hl : Live c := by
    by_contra hl
    exact hlive (.inl (not_or.mp hl))
  simp only
  have hcont : lives (if c.state = .paused ∧ o.cont then
      w.emit (.signal c.pid .cont) else w).trace = lives w.trace := by
    split
    · rw [lives_emit]
      exact List.append_nil _
    · rfl
  generalize (if c.state = .paused ∧ o.cont then w.emit (.signal c.pid .cont) else w) = w₁
    at hcont ⊢
  have hsignals := (lives_ending (stopSignals_appends o timeoutS c.pid w₁)).trans hcont
  generalize stopSignals o timeoutS c.pid w₁ = r at hsignals ⊢
  split
  · exact .silent rfl rfl hsignals
  · obtain ⟨hsame, -⟩ := cleanupContainerNetwork_spec c (r.1.schedRemove c.pid)
    refine .stop hl hsame.id rfl ?_
    rw [lives_emit, lives_emit, lives_network (cleanupContainerNetwork_appends _ _),
      trace_schedRemove, hsignals]
    show (lives w.trace ++ [(_, EventType.stopped)]) ++ [] = _
    rw [List.append_nil]
    show lives w.trace ++ [((cleanupContainerNetwork c (r.1.schedRemove c.pid)).1.id, _)] = _
    rw [hsame.id]

theorem waitForContainerProcess_speaks (o : WaitOutcome) (c : Container) (w : World) :
    Speaks c w (waitForContainerProcess o c w).1 (waitForContainerProcess o c w).2.1 := by
  have hfinish : Live c → ∀ (status : WaitStatus) (w' : World), lives w'.trace = lives w.trace →
      ∀ r, r = cleanupContainerNetwork
        { c with stoppedAt := o.now, exitCode := status.code, pid := -1, state := .stopped }
        (w'.emit (.event .stopped c.id (formatWaitStatus status) status.code)) →
      Speaks c w r.1 (r.2.emit (.save o.save)) := by
    rintro hl status w' hw' r rfl
    obtain ⟨hsame, -, hstate, -⟩ := cleanupContainerNetwork_spec
      { c with stoppedAt := o.now, exitCode := status.code, pid := -1, state := .stopped }
      (w'.emit (.event .stopped c.id (formatWaitStatus status) status.code))
    refine .stop hl hsame.id hstate ?_
    rw [lives_emit, lives_network (cleanupContainerNetwork_appends _ _), lives_emit, hw']
    exact List.append_nil _
  unfold waitForContainerProcess
  split
  · exact .silent rfl rfl rfl
  · rename_i hrunning
    have hl : Live c := .inl (not_not.mp (not_or.mp hrunning).1)
    cases o.wait with
    | reaped status => exact hfinish hl status _ (by rw [lives_emit]; exact List.append_nil _) _ rfl
    | echild =>
      simp only
      split
      · exact .silent rfl rfl rfl
      · exact hfinish hl (.exited 0) _ (by rw [lives_emit]; exact List.append_nil _) _ rfl
    | nothing => exact .silent rfl rfl rfl
    | eintr => exact .silent rfl rfl rfl
    | error => exact .silent rfl rfl rfl

theorem pauseContainer_speaks (kill save : Bool) (c : Container) (w : World) :
    Speaks c w (pauseContainer kill save c w).1 (pauseContainer kill save c w).2.1 := by
  unfold pauseContainer
  split
  · exact .silent rfl rfl rfl
  rename_i hrunning
  have hrunning : c.state = .running := not_not.mp (not_or.mp hrunning).1
  split
  · exact .silent rfl rfl rfl
  · refine Speaks.one (e := .paused) rfl ?_ ?_
    · simp only [Container.phase, hrunning]
      rfl
    · rw [lives_emit, lives_emit, lives_emit]
      simp [lifeEvent]

theorem unpauseContainer_speaks (kill save : Bool) (c : Container) (w : World) :
    Speaks c w (unpauseContainer kill save c w).1 (unpauseContainer kill save c w).2.1 := by
  unfold unpauseContainer
  split
  · exact .silent rfl rfl rfl
  rename_i hpaused
  have hpaused : c.state = .paused := not_not.mp (not_or.mp hpaused).1
  split
  · exact .silent rfl rfl rfl
  · refine Speaks.one (e := .unpaused) rfl ?_ ?_
    · simp only [Container.phase, hpaused]
      rfl
    · rw [lives_emit, lives_emit, lives_emit]
      simp [lifeEvent]

/-! ## A start -/

def NsOutcome.isOk : NsOutcome → Bool
  | .ok _ => true
  | _ => false

/-- The start gets past its guards and gets a process. -/
def StartCall.Launches (call : StartCall) : Prop :=
  call.record.state ≠ .running ∧ call.o.malloc = true ∧ call.record.commandLine ≠ [] ∧
    call.o.ns.isOk = true ∧ (call.record.portMaps = [] ∨ call.o.net.attaches call.world = true)

/-- Once it has a process, the start goes through: it has not found its record
PAUSED, the ports can be published, and the save and the trigger succeed. -/
def StartCall.Completes (call : StartCall) : Prop :=
  call.Launches → call.record.state ≠ .paused ∧
    (call.o.net.attaches call.world = true →
      ∀ i, i < call.record.portMaps.length → call.o.portForward i = true) ∧
    call.o.save = true ∧ call.o.trigger = true

instance (call : StartCall) : Decidable call.Launches := by
  unfold StartCall.Launches
  infer_instance

instance (call : StartCall) : Decidable call.Completes := by
  unfold StartCall.Completes
  infer_instance

theorem addPortForwards_all {ok : Nat → Bool} {pms : List PortMapping} {i : Nat}
    (h : ∀ j, j < pms.length → ok (i + j) = true) (ip : Bytes) (w : World) :
    (addPortForwards ok ip i pms w).2 = true := by
  induction pms generalizing i w with
  | nil => rfl
  | cons pm pms ih =>
    have hfirst : ok i = true := h 0 (by simp)
    rw [addPortForwards, if_pos hfirst]
    apply ih
    intro j hj
    rw [Nat.add_assoc, Nat.add_comm 1]
    exact h (j + 1) (by simpa using hj)

theorem lives_namespaceStartContainer (ns : NsOutcome) (net : NetOutcome) (c : Container)
    (w : World) : lives (namespaceStartContainer ns net c w).2.1.trace = lives w.trace := by
  have hnet := lives_network (containerNetSetup_appends net c w)
  unfold namespaceStartContainer
  split
  · rfl
  · cases ns with
    | failBefore => rfl
    | failAfter => exact hnet
    | ok pid =>
      simp only
      split
      · exact hnet
      · rw [lives_emit, hnet]
        exact List.append_nil _

/-- What a process says about how it was made. -/
theorem namespaceStartContainer_launch {ns : NsOutcome} {net : NetOutcome} {c : Container}
    {w : World} {pid : Pid} (h : (namespaceStartContainer ns net c w).2.2 = some pid) :
    c.commandLine ≠ [] ∧ ns.isOk = true ∧ (c.portMaps = [] ∨ net.attaches w = true) ∧
      (namespaceStartContainer ns net c w).1.portMaps = c.portMaps ∧
      (net.attaches w = false → (namespaceStartContainer ns net c w).1 = c) := by
  unfold namespaceStartContainer at h ⊢
  split at h
  · cases h
  rename_i hcmd
  rw [if_neg hcmd]
  cases ns with
  | failBefore => cases h
  | failAfter => cases h
  | ok pid' =>
    simp only at h ⊢
    split at h
    · cases h
    rename_i hrc
    rw [if_neg hrc]
    obtain ⟨hattach, ip, -, hrec, -, -⟩ | ⟨hattach, hrec, -, hcode⟩ := containerNetSetup_cases net c w
    · refine ⟨hcmd, rfl, .inr hattach, ?_, fun hno => ?_⟩
      · show (containerNetSetup net c w).1.portMaps = c.portMaps
        rw [hrec]
      · rw [hno] at hattach
        cases hattach
    · refine ⟨hcmd, rfl, .inl ?_, ?_, fun _ => hrec⟩
      · by_contra hports
        rw [hcode, if_pos hports] at hrc
        exact hrc (by decide)
      · show (containerNetSetup net c w).1.portMaps = c.portMaps
        rw [hrec]

/-- The end of a start that goes through. -/
theorem finishStart_speaks {o : StartOutcome} (schedule : Bool) {c : Container} {w : World}
    (hports : c.ipAddress ≠ [] → ∀ i, i < c.portMaps.length → o.portForward i = true)
    (hsave : o.save = true) (htrigger : o.trigger = true) :
    (finishStart o schedule c w).1 = c ∧
      lives (finishStart o schedule c w).2.1.trace = lives w.trace ++ [(c.id, .started)] := by
  have hpublish : (publish o c w).2 = true := by
    unfold publish
    split
    · rename_i hip
      apply addPortForwards_all
      intro j hj
      rw [Nat.zero_add]
      exact hports hip j hj
    · rfl
  have hmove := finishStart_move o schedule c w
  generalize finishStart o schedule c w = r at hmove ⊢
  cases hmove with
  | unpublished hpub =>
    rw [hpublish] at hpub
    cases hpub
  | undone hfail =>
    rw [hsave, htrigger] at hfail
    simp at hfail
  | done _ _ _ =>
    refine ⟨rfl, ?_⟩
    rw [announced_trace, lives_emit, lives_emit, lives_emit, lives_network (publish_appends o c w)]
    simp [lifeEvent]

theorem Container.cleared_launch (capture : Bool) (c : Container) :
    (c.cleared capture).commandLine = c.commandLine ∧
      (c.cleared capture).portMaps = c.portMaps := by
  unfold Container.cleared
  cases capture with
  | true =>
    show (ensureContainerLogPath c).commandLine = _ ∧ (ensureContainerLogPath c).portMaps = _
    unfold ensureContainerLogPath
    split
    · exact ⟨rfl, rfl⟩
    · exact ⟨rfl, rfl⟩
  | false => exact ⟨rfl, rfl⟩

theorem startContainer_speaks {call : StartCall} (h : call.Completes) :
    Speaks call.record call.world
      (startContainer call.o call.schedule call.capture call.record call.world).1
      (startContainer call.o call.schedule call.capture call.record call.world).2.1 := by
  obtain ⟨o, schedule, capture, c, w⟩ := call
  have hmove := startContainer_move o schedule capture c w
  show Speaks c w (startContainer o schedule capture c w).1
    (startContainer o schedule capture c w).2.1
  generalize startContainer o schedule capture c w = r at hmove ⊢
  cases hmove with
  | refused => exact .silent rfl rfl rfl
  | @noProcess r _ _ hns _ =>
    obtain ⟨hsame, -, hstate, -⟩ := startedRecord_spec hns
    refine .silent hsame.id hstate ?_
    rw [← hns]
    exact lives_namespaceStartContainer _ _ _ _
  | @finish r pid hrunning hmalloc hns hpid =>
    obtain ⟨hsame, -, -, -⟩ := startedRecord_spec hns
    obtain ⟨hcommand, hmaps⟩ := c.cleared_launch capture
    have hlives := lives_namespaceStartContainer o.ns o.net (c.cleared capture) w
    rw [← hns] at hpid
    obtain ⟨hcmd, hok, hnet, hkept, hplain⟩ := namespaceStartContainer_launch hpid
    rw [hns] at hlives hkept hplain
    rw [hcommand] at hcmd
    rw [hmaps] at hnet hkept
    obtain ⟨hnotPaused, hforward, hsave, htrigger⟩ := h ⟨hrunning, hmalloc, hcmd, hok, hnet⟩
    have hports : r.1.ipAddress ≠ [] →
        ∀ i, i < r.1.portMaps.length → o.portForward i = true := by
      intro hip i hi
      rw [hkept] at hi
      refine hforward ?_ i hi
      -- without an attachment the address is still the cleared one
      by_contra hno
      rw [hplain (by simpa using hno)] at hip
      exact hip rfl
    obtain ⟨hrec, hsaid⟩ := finishStart_speaks (c := r.1.launched o pid) (w := r.2.1) schedule
      hports hsave htrigger
    have hidle : ¬ Live c := fun hl => hl.elim hrunning hnotPaused
    refine Speaks.one (e := .started) ?_ ?_ ?_
    · rw [hrec]
      exact hsame.id
    · rw [hrec, phase_idle hidle]
      rfl
    · rw [hsaid, hlives, ← hsame.id]
      rfl

/-! ## The list -/

/-- Where the word of an id stands: as its record tells, if there is one. -/
def phaseIn (l : List Container) (id : Bytes) : Phase :=
  (lookup Container.id Container.phase l id).getD .gone

theorem phaseIn_absent {l : List Container} {id : Bytes} (h : id ∉ l.map Container.id) :
    phaseIn l id = .gone := by
  rw [phaseIn, (lookup_eq_none_iff _ _).mpr h]
  rfl

theorem phaseIn_present {l : List Container} {c : Container} (hids : (l.map Container.id).Nodup)
    (hc : c ∈ l) : phaseIn l c.id = c.phase := by
  have hfind : l.find? (fun d => d.id = c.id) = some c := by
    rw [List.find?_eq_some_iff_append]
    obtain ⟨pre, post, rfl⟩ := List.append_of_mem hc
    refine ⟨by simp, pre, post, rfl, fun d hd => ?_⟩
    rw [List.map_append, List.map_cons, List.nodup_append] at hids
    have hne := hids.2.2 d.id (List.mem_map_of_mem hd) c.id List.mem_cons_self
    simpa using hne
  rw [phaseIn, lookup, hfind]
  rfl

/-- Other ids do not see a record. -/
theorem phaseIn_other (pre post : List Container) {c : Container} {id : Bytes} (h : c.id ≠ id) :
    phaseIn (pre ++ c :: post) id = phaseIn (pre ++ post) id := by
  simp [phaseIn, lookup, List.find?_append, h]

/-- The word of every id, from where it stood, has got to where its record
stands. -/
structure Traced (start : Bytes → Phase) (w : World) (l : List Container) : Prop where
  ids : (l.map Container.id).Nodup
  words : ∀ id, (start id).run (wordOf id w.trace) = some (phaseIn l id)

theorem wordOf_append {w w' : World} {id : Bytes} {es : List EventType}
    (h : lives w'.trace = lives w.trace ++ es.map fun e => (id, e)) (id' : Bytes) :
    wordOf id' w'.trace = wordOf id' w.trace ++ if id = id' then es else [] := by
  have hes : ∀ es : List EventType, ((es.map fun e => (id, e)).filterMap fun p =>
      if p.1 = id' then some p.2 else none) = if id = id' then es else [] := by
    intro es
    induction es with
    | nil => simp
    | cons e es ih =>
      by_cases hid : id = id'
      · rw [if_pos hid] at ih ⊢
        simp [hid]
      · rw [if_neg hid] at ih ⊢
        simp [hid]
  rw [wordOf, h, List.filterMap_append, hes]
  rfl

theorem wordOf_congr {w w' : World} (h : lives w'.trace = lives w.trace) (id : Bytes) :
    wordOf id w'.trace = wordOf id w.trace := by
  rw [wordOf, wordOf, h]

variable {start : Bytes → Phase}

theorem Traced.silent {w w' : World} {l : List Container} (h : Traced start w l)
    (hlives : lives w'.trace = lives w.trace) : Traced start w' l := by
  refine ⟨h.ids, fun id => ?_⟩
  rw [wordOf_congr hlives]
  exact h.words id

theorem Traced.record {c c' : Container} {w w' : World} {pre post : List Container}
    (h : Traced start w (pre ++ c :: post)) (hs : Speaks c w c' w') :
    Traced start w' (pre ++ c' :: post) := by
  obtain ⟨es, hes, hrun⟩ := hs.moved
  have hids : ((pre ++ c' :: post).map Container.id).Nodup := by
    have hsame : (pre ++ c' :: post).map Container.id = (pre ++ c :: post).map Container.id := by
      simp [hs.id]
    rw [hsame]
    exact h.ids
  refine ⟨hids, fun id => ?_⟩
  rw [wordOf_append hes, Phase.run_append, h.words id]
  show (phaseIn (pre ++ c :: post) id).run _ = _
  by_cases hid : c.id = id
  · subst hid
    rw [if_pos rfl, phaseIn_present h.ids (by simp), hrun, ← hs.id,
      phaseIn_present hids (by simp)]
  · have hid' : c'.id ≠ id := fun heq => hid (hs.id ▸ heq)
    rw [if_neg hid, phaseIn_other _ _ hid, phaseIn_other _ _ hid']
    rfl

theorem traced_ruled (start : Bytes → Phase) : Ruled (Traced start) where
  sync := fun o c w _ _ h => h.record (pollRecord_speaks o c w)
  stop := fun o timeoutS c w _ _ h => h.record (stopContainerProcess_speaks o timeoutS c w)
  wait := fun o c w _ _ h => h.record (waitForContainerProcess_speaks o c w)
  pause := fun kill save c w _ _ h => h.record (pauseContainer_speaks kill save c w)
  unpause := fun kill save c w _ _ h => h.record (unpauseContainer_speaks kill save c w)
  logPath := fun c w _ _ h =>
    h.record (.silent (ensureContainerLogPath_spec c).1.id (ensureContainerLogPath_spec c).2.2 rfl)
  save := by
    intro ok w l h
    apply h.silent
    rw [lives_emit]
    exact List.append_nil _
  create := by
    intro c w l hnew hfresh h
    -- `created` comes first in the word of a new id
    have habsent : c.id ∉ l.map Container.id := by
      intro hmem
      obtain ⟨d, hd, heq⟩ := List.mem_map.mp hmem
      exact hfresh d hd heq
    have hids : ((l ++ [c]).map Container.id).Nodup := by
      rw [List.map_append]
      exact h.ids.append (List.nodup_singleton _) (List.disjoint_singleton.mpr habsent)
    refine ⟨hids, fun id => ?_⟩
    have hone : lives (w.emit (.event .created c.id c.rootfs 0)).trace =
        lives w.trace ++ [EventType.created].map fun e => (c.id, e) := lives_emit _ _
    rw [wordOf_append hone, Phase.run_append, h.words id]
    show (phaseIn l id).run _ = _
    by_cases hid : c.id = id
    · subst hid
      have hidle : ¬ Live c := by
        rw [Live, hnew.state]
        simp
      rw [if_pos rfl, phaseIn_absent habsent, phaseIn_present hids (by simp), phase_idle hidle]
      rfl
    · have hother := phaseIn_other l [] hid
      rw [List.append_nil] at hother
      rw [if_neg hid, hother]
      rfl
  putBack := by
    intro c w pre post hidle h
    obtain ⟨hsame, -, hstate, -⟩ := cleanupContainerNetwork_spec c w
    have hback := h.record (.silent hsame.id hstate
      (lives_network (cleanupContainerNetwork_appends c w)))
    generalize (cleanupContainerNetwork c w).1 = c' at hback ⊢
    -- the record has moved to the end, which changes the phase of no id
    have hperm : (pre ++ post ++ [c']).Perm (pre ++ c' :: post) := by
      rw [List.append_assoc]
      exact (List.perm_append_singleton c' post).append_left pre
    refine ⟨(hperm.map _).nodup_iff.mpr hback.ids, fun id => ?_⟩
    rw [hback.words id]
    by_cases hid : c'.id = id
    · subst hid
      rw [phaseIn_present hback.ids (by simp),
        phaseIn_present ((hperm.map _).nodup_iff.mpr hback.ids) (by simp)]
    · have hother := phaseIn_other (pre ++ post) [] hid
      rw [List.append_nil] at hother
      rw [phaseIn_other _ _ hid, hother]
  remove := by
    intro c w pre post hidle h
    -- `deleted` ends the word of an id that no record bears any more
    have hsub : ((pre ++ post).map Container.id).Nodup := by
      refine h.ids.sublist (List.Sublist.map _ ?_)
      exact List.Sublist.append_left (List.sublist_cons_self _ _) _
    refine ⟨hsub, fun id => ?_⟩
    have hone : lives (w.emit (.event .deleted c.id [] 0)).trace =
        lives w.trace ++ [EventType.deleted].map fun e => (c.id, e) := lives_emit _ _
    rw [wordOf_append hone, Phase.run_append, h.words id]
    show (phaseIn (pre ++ c :: post) id).run _ = _
    by_cases hid : c.id = id
    · subst hid
      have habsent : c.id ∉ (pre ++ post).map Container.id := by
        have hids := h.ids
        rw [List.map_append, List.map_cons, List.nodup_middle, List.nodup_cons] at hids
        rw [List.map_append]
        exact hids.1
      rw [if_pos rfl, phaseIn_present h.ids (by simp), phase_idle hidle, phaseIn_absent habsent]
      rfl
    · rw [if_neg hid, phaseIn_other _ _ hid]
      rfl

theorem Traced.op {m m' : Manager} {op : UserOp} (h : Traced start m.world m.list) (hwf : Wf m)
    (hcomplete : ∀ call, op.startCall m = some call → call.Completes)
    (hs : userStep op m = some m') : Traced start m'.world m'.list := by
  refine (traced_ruled start).userStep hwf (fun call hcall => ?_) hs h
  intro pre post hq
  exact hq.record (startContainer_speaks (hcomplete call hcall))

/-! ## The process and its end -/

/-- The loop of `cleanup_all_containers` that stops what is live. -/
def stopAll (stop : Nat → StopOutcome) : List Container → World → List Container × World
  | [], w => ([], w)
  | c :: cs, w =>
    let r :=
      if c.state = .running ∨ c.state = .paused then stopContainerProcess (stop c.ptr) 5 c w
      else (c, w, 0)
    let rest := stopAll stop cs r.2.1
    (r.1 :: rest.1, rest.2)

/-- `cleanup_all_containers`, up to where it frees the list. -/
def cleanupAllContainers (poll : PollOutcome) (stop : Nat → StopOutcome) (save : Bool)
    (m : Manager) : Manager :=
  let m := pollStates poll m
  let (list, w) := stopAll stop m.list m.world
  { m with list, world := w.emit (.save save) }

/-- One process: the manager, and whether it has cleaned up and is about to
exit. -/
structure Process where
  mgr : Manager
  exited : Bool

inductive ProcessOp where
  | op (op : UserOp)
  | exit (poll : PollOutcome) (stop : Nat → StopOutcome) (save : Bool)

def processStep (s : Process) (a : ProcessOp) : Option Process :=
  if s.exited then none
  else
    match a with
    | .op op => (userStep op s.mgr).map fun m => { s with mgr := m }
    | .exit poll stop save =>
      some { mgr := cleanupAllContainers poll stop save s.mgr, exited := true }

/-- Every start that gets a process goes through. -/
def StartsComplete (s : Process) : ProcessOp → Prop
  | .op op => ∀ call ∈ op.startCall s.mgr, call.Completes
  | .exit _ _ _ => True

instance (s : Process) (a : ProcessOp) : Decidable (StartsComplete s a) := by
  cases a with
  | op op => unfold StartsComplete; infer_instance
  | exit poll stop save => unfold StartsComplete; infer_instance

theorem Traced.stopAll (stop : Nat → StopOutcome) (pre : List Container) {l : List Container}
    {w : World}
    (h : Traced start w (pre ++ l)) :
    Traced start (Runtime.stopAll stop l w).2 (pre ++ (Runtime.stopAll stop l w).1) := by
  induction l generalizing pre w with
  | nil => exact h
  | cons c cs ih =>
    have hfirst : Speaks c w
        (if c.state = .running ∨ c.state = .paused then stopContainerProcess (stop c.ptr) 5 c w
          else (c, w, 0)).1
        (if c.state = .running ∨ c.state = .paused then stopContainerProcess (stop c.ptr) 5 c w
          else (c, w, 0)).2.1 := by
      split
      · exact stopContainerProcess_speaks (stop c.ptr) 5 c w
      · exact .silent rfl rfl rfl
    rw [Runtime.stopAll]
    generalize (if c.state = .running ∨ c.state = .paused then
      stopContainerProcess (stop c.ptr) 5 c w else (c, w, 0)) = r at hfirst ⊢
    have hnext : Traced start r.2.1 ((pre ++ [r.1]) ++ cs) := by
      rw [List.append_assoc]
      exact h.record hfirst
    have hrest := ih _ hnext
    rw [List.append_assoc] at hrest
    exact hrest

theorem Traced.exit {m : Manager} (h : Traced start m.world m.list) (poll : PollOutcome)
    (stop : Nat → StopOutcome) (save : Bool) :
    Traced start (cleanupAllContainers poll stop save m).world
      (cleanupAllContainers poll stop save m).list := by
  have hpolled := (traced_ruled start).pollStates poll h
  have hstopped := Traced.stopAll stop [] hpolled
  exact (traced_ruled start).save save _ _ hstopped

/-- Well-formed, as long as the process goes on. -/
structure ProcessInv (start : Bytes → Phase) (s : Process) : Prop where
  wf : s.exited = false → Wf s.mgr
  traced : Traced start s.mgr.world s.mgr.list

theorem ProcessInv.step {s s' : Process} {a : ProcessOp} (h : ProcessInv start s)
    (hok : StartsComplete s a) (hs : processStep s a = some s') : ProcessInv start s' := by
  unfold processStep at hs
  by_cases hexited : s.exited = true
  · rw [if_pos hexited] at hs
    cases hs
  · rw [if_neg hexited] at hs
    have hwf := h.wf (by simpa using hexited)
    cases a with
    | op op =>
      obtain ⟨m, hm, rfl⟩ := Option.map_eq_some_iff.mp hs
      exact ⟨fun _ => hwf.userStep hm, h.traced.op hwf hok hm⟩
    | exit poll stop save =>
      cases hs
      exact ⟨nofun, h.traced.exit poll stop save⟩

/-- **Lifecycle events form a legal trace** in a run in which every start that
gets a process goes through. An id that was not restored has a word of the
lifecycle; a restored one goes on from its state. -/
theorem lifecycle_events_legal {m₀ : Manager} (h₀ : RestoredList m₀)
    (hnone : m₀.world.trace = []) {as : List ProcessOp} {s : Process}
    (hrun : RunOk processStep StartsComplete ⟨m₀, false⟩ as s) :
    (∀ id, id ∉ m₀.list.map Container.id →
      wordOf id s.mgr.world.trace ∈ lifecycle.matches') ∧
    (∀ c ∈ m₀.list, wordOf c.id s.mgr.world.trace ∈ c.phase.words.matches') := by
  have hinit : ProcessInv (phaseIn m₀.list) ⟨m₀, false⟩ := by
    refine ⟨fun _ => h₀.numbered.toWf, h₀.ids, fun id => ?_⟩
    show (phaseIn m₀.list id).run (wordOf id m₀.world.trace) = _
    rw [hnone]
    rfl
  have hinv := hrun.invariant (fun _ _ _ hi hok hs => ProcessInv.step hi hok hs) hinit
  refine ⟨fun id hid => ?_, fun c hc => ?_⟩
  · have hword := run_words (hinv.traced.words id)
    rw [phaseIn_absent hid] at hword
    exact hword
  · have hword := run_words (hinv.traced.words c.id)
    rw [phaseIn_present h₀.ids hc] at hword
    exact hword

/-! ## A PAUSED container is started -/

/-- One container through every transition, its id used again, and the exit. -/
def wholeLife : List ProcessOp :=
  [.op (.life (.runBackground (.clean (.ofNat 100)) .zero)),
    .op (.life (.pause .quiet true true (containerId 1))),
    .op (.life (.unpause .quiet true true (containerId 1))),
    .op (.life (.stop .quiet .clean (containerId 1) 0)),
    .op (.life (.start .quiet (.clean (.ofNat 101)) (containerId 1))),
    .op (.life (.stop .quiet .clean (containerId 1) 0)), .op (.prune .quiet true),
    .op (.life (.runBackground (.clean (.ofNat 102)) .zero)),
    .exit .quiet (fun _ => .clean) true]

theorem lifecycle_wholeLife :
    ∃ s, RunOk processStep StartsComplete ⟨Manager.init, false⟩ wholeLife s ∧
      wordOf (containerId 1) s.mgr.world.trace ∈ lifecycle.matches' ∧
      wordOf (containerId 1) s.mgr.world.trace =
        [.created, .started, .paused, .unpaused, .stopped, .started, .stopped, .deleted,
          .created, .started, .stopped] := by
  obtain ⟨s, hrun, hword⟩ := exists_runOk_of_exec processStep StartsComplete ⟨Manager.init, false⟩
    wholeLife
    (fun s => wordOf (containerId 1) s.mgr.world.trace =
      [.created, .started, .paused, .unpaused, .stopped, .started, .stopped, .deleted,
        .created, .started, .stopped]) (by decide +kernel)
  have hlegal := (lifecycle_events_legal restoredList_init rfl hrun).1 (containerId 1) (by simp [Manager.init])
  exact ⟨s, hrun, hlegal, hword⟩

/-- A second STARTED before any STOPPED: `start` only refuses RUNNING. -/
theorem paused_start_repeats :
    ∃ s, Runs processStep ⟨Manager.init, false⟩
        [.op (.life (.runBackground (.clean (.ofNat 100)) .zero)),
          .op (.life (.pause .quiet true true (containerId 1))),
          .op (.life (.start .quiet (.clean (.ofNat 101)) (containerId 1)))] s ∧
      wordOf (containerId 1) s.mgr.world.trace ∉ lifecycle.matches' := by
  obtain ⟨s, hrun, hword⟩ := exists_runOk_of_exec processStep (fun _ _ => True)
    ⟨Manager.init, false⟩ [.op (.life (.runBackground (.clean (.ofNat 100)) .zero)),
      .op (.life (.pause .quiet true true (containerId 1))),
      .op (.life (.start .quiet (.clean (.ofNat 101)) (containerId 1)))]
    (fun s => wordOf (containerId 1) s.mgr.world.trace = [.created, .started, .paused, .started])
    (by decide +kernel)
  refine ⟨s, hrun, ?_⟩
  rw [hword]
  decide

end ContainerSim.Runtime
