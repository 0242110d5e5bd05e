import ContainerSim.Runtime.Metadata

/-!
# Following a log

`container_logs_follow` prints what the log holds, then looks whether it has been
interrupted or the container has stopped, and sleeps. The container writes in
between. What has been printed is a part of the log from its start, in each round
at least what was there when the round began, and the follower returns by itself
only when it has printed everything that will ever be written
(`logs_follow_complete`). A start of the container by another thread cuts the log
off and must not happen meanwhile (`restart_hides_output`).
-/

namespace ContainerSim.Runtime

open Lib Sched

inductive FollowPc where
  /-- in the loop that reads all there is -/
  | drain
  /-- at `container_consume_interrupt` -/
  | interrupt
  | poll
  | sleep
  /-- in the last loop -/
  | final
  | returned (interrupted : Bool)
  deriving DecidableEq, Repr

structure LogFollow where
  mgr : Manager
  id : Bytes
  /-- the address of the record whose log is read -/
  ptr : Nat
  /-- its process, which writes the log, has not ended -/
  alive : Bool
  log : Bytes
  /-- `g_interrupt_requested` -/
  requested : Bool
  pc : FollowPc
  offset : Nat
  /-- the end-of-file indicator of the stream -/
  eof : Bool
  out : Bytes
  /-- the length of the log when the round began -/
  mark : Nat
  deriving DecidableEq

/-- Answers to what comes before the loop. -/
structure FollowOutcome where
  poll : PollOutcome
  /-- what the file holds that `fopen` opens -/
  fopen : Bytes → Option Bytes
  tty : Bool
  alive : Bool

/-- The hint for a terminal. -/
def followHint (tty : Bool) (id : Bytes) : Bytes :=
  if tty then
    -- an em dash in UTF-8
    bytes "[hint] following logs for " ++ id ++ bytes " " ++ [0xe2, 0x80, 0x94] ++
      bytes " press Ctrl+C to stop\n"
  else []

/-- `container_logs_follow` up to its loop: what it prints and returns, or the
follower. -/
def containerLogsFollow (o : FollowOutcome) (id : Bytes) (m : Manager) :
    Manager × (Bytes × Int ⊕ LogFollow) :=
  if id = [] then (m, .inl (bytes "[error] usage: logs -f <id>\n\n", -1))
  else
    let m := pollStates o.poll m
    match findContainer m.list id with
    | none => (m, .inl (bytes "[error] container " ++ id ++ bytes " not found\n\n", -1))
    | some c =>
      if c.logPath = [] then
        (m, .inl (bytes "[manager] " ++ id ++
          bytes " has no log file (use runbg to capture output)\n\n", 0))
      else
        match o.fopen c.logPath with
        | none =>
          (m, .inl (bytes "[manager] log file not yet created for " ++ id ++ bytes "\n\n", 0))
        | some log =>
          (m, .inr
            { mgr := m, id, ptr := c.ptr, alive := o.alive, log, requested := false, pc := .drain
              offset := 0, eof := false, out := followHint o.tty id, mark := log.length })

/-- The size of `buf`. -/
def followBufLen : Nat := 4096

inductive LogAct where
  /-- the container writes -/
  | write (text : Bytes)
  /-- its process ends -/
  | exit
  /-- the log is opened with `O_TRUNC` for a process started anew -/
  | restart
  /-- another thread works on the manager -/
  | others (m : Manager)
  /-- `container_request_interrupt` -/
  | request
  | fread
  | consume
  | poll (o : PollOutcome)
  | wake

/-- An `fread` that returns more than 0: a short count is one at the end of the
file. -/
def LogFollow.read (s : LogFollow) : LogFollow :=
  let n := min followBufLen (s.log.length - s.offset)
  { s with
    out := s.out ++ (s.log.drop s.offset).take n
    offset := s.offset + n
    eof := decide (n < followBufLen) }

/-- An `fread` returns 0 with the indicator set, or at the end of the file. -/
def LogFollow.dry (s : LogFollow) : Prop := s.eof = true ∨ s.log.length ≤ s.offset

instance (s : LogFollow) : Decidable s.dry := by
  unfold LogFollow.dry
  infer_instance

def logStep (s : LogFollow) : LogAct → Option LogFollow
  | .write text => if s.alive then some { s with log := s.log ++ text } else none
  | .exit => some { s with alive := false }
  | .restart => some { s with log := [], alive := true }
  | .others m => some { s with mgr := m }
  | .request => some { s with requested := true }
  | .fread =>
    match s.pc with
    | .drain => some (if s.dry then { s with pc := .interrupt, eof := false } else s.read)
    | .final => some (if s.dry then { s with pc := .returned false } else s.read)
    | _ => none
  | .consume =>
    match s.pc with
    | .interrupt =>
      some (if s.requested then
        { s with requested := false, pc := .returned true, out := s.out ++ [10] }
      else { s with pc := .poll })
    | _ => none
  | .poll o =>
    match s.pc with
    | .poll =>
      let mgr := pollStates o s.mgr
      let gone := ((findContainer mgr.list s.id).map Container.state).all (· = .stopped)
      some { s with mgr, pc := if gone then .final else .sleep }
    | _ => none
  | .wake =>
    match s.pc with
    | .sleep => some { s with pc := .drain, mark := s.log.length }
    | _ => none

/-- The id leads to the record, which is live. -/
def Watched (ptr : Nat) (id : Bytes) (list : List Container) : Prop :=
  ∃ c, findContainer list id = some c ∧ c.ptr = ptr ∧ Live c

/-- The system does not report an end before there is one, other threads keep the
record of a process that is alive, and none starts the container again. -/
def LogOk (s : LogFollow) : LogAct → Prop
  | .poll o => s.alive = true → (o.sync s.ptr).LiveAnswer
  | .others m => s.alive = true → Watched s.ptr s.id m.list
  | .restart => False
  | _ => True

/-- What `waitpid` has reaped. -/
def reapedStatus : WaitRes → Option WaitStatus
  | .reaped st => some st
  | .nothing | .echild | .eintr | .error => none

theorem reapedStatus_eq_none {w : WaitRes} : reapedStatus w = none ↔ ∀ st, w ≠ .reaped st := by
  cases w <;> simp [reapedStatus]

instance (w : WaitRes) : Decidable (∀ st, w ≠ .reaped st) :=
  decidable_of_iff _ reapedStatus_eq_none

instance (s : SyncOutcome) : Decidable s.LiveAnswer := by
  unfold SyncOutcome.LiveAnswer
  infer_instance

instance (ptr : Nat) (id : Bytes) (list : List Container) : Decidable (Watched ptr id list) :=
  decidable_of_iff ((findContainer list id).any fun c => c.ptr = ptr ∧ Live c) <| by
    rw [Option.any_eq_true]
    simp only [decide_eq_true_eq, Watched]

instance (s : LogFollow) (a : LogAct) : Decidable (LogOk s a) := by
  cases a with
  | poll o => unfold LogOk; infer_instance
  | others m => unfold LogOk; infer_instance
  | restart => exact isFalse id
  | write text => exact isTrue trivial
  | exit => exact isTrue trivial
  | request => exact isTrue trivial
  | fread => exact isTrue trivial
  | consume => exact isTrue trivial
  | wake => exact isTrue trivial

/-! ## The record -/

/-- Looking for the first element with a property that only elements that had it
have. -/
theorem find?_forall₂ {α : Type*} {R : α → α → Prop} {p : α → Bool} {l l' : List α} {a : α}
    (hrel : List.Forall₂ R l l') (hback : ∀ x y, R x y → p y = true → p x = true)
    (h : l.find? p = some a) (hkeep : ∀ y, R a y → p y = true) :
    ∃ b, l'.find? p = some b ∧ R a b := by
  induction hrel with
  | nil => cases h
  | @cons x y xs ys hxy _ ih =>
    rw [List.find?_cons] at h
    cases hx : p x with
    | true =>
      rw [hx] at h
      cases h
      exact ⟨y, by rw [List.find?_cons, hkeep y hxy], hxy⟩
    | false =>
      rw [hx] at h
      have hy : p y = false := by
        rw [← Bool.not_eq_true]
        exact fun hpy => absurd (hback x y hxy hpy) (by rw [hx]; exact Bool.false_ne_true)
      obtain ⟨b, hb, hab⟩ := ih h
      exact ⟨b, by rw [List.find?_cons, hy]; exact hb, hab⟩

theorem find?_none_forall₂ {α : Type*} {R : α → α → Prop} {p : α → Bool} {l l' : List α}
    (hrel : List.Forall₂ R l l') (hback : ∀ x y, R x y → p y = true → p x = true)
    (h : l.find? p = none) : l'.find? p = none := by
  rw [List.find?_eq_none] at h ⊢
  intro y hy hpy
  obtain ⟨x, hx, hxy⟩ := forall₂_mem_right hrel hy
  exact h x hx (hback x y hxy hpy)

/-- What one poll makes of each record, by the answers for its address. -/
theorem pollStates_records (o : PollOutcome) (m : Manager) :
    List.Forall₂ (fun c c' => ∃ w, c' = (pollRecord (o.sync c.ptr) c w).1) m.list
      (pollStates o m).list := by
  have hlist : ∀ (l : List Container) (w : World),
      List.Forall₂ (fun c c' => ∃ w, c' = (pollRecord (o.sync c.ptr) c w).1) l
        (pollList o.sync l w).1 := by
    intro l
    induction l with
    | nil => exact fun _ => .nil
    | cons c cs ih => exact fun w => .cons ⟨w, rfl⟩ (ih _)
  exact hlist m.list m.world

theorem Live.back {o : SyncOutcome} {c : Container} {w : World}
    (h : Live (pollRecord o c w).1) : Live c := by
  rcases (pollRecord_pollRel o c w).state with hs | hs
  · rwa [Live, hs] at h
  · exact absurd h (not_live_stopped hs)

theorem pollRecord_keeps {o : SyncOutcome} {c : Container} (w : World) (h : o.LiveAnswer) :
    (pollRecord o c w).1.state = c.state ∧ (pollRecord o c w).1.ptr = c.ptr := by
  refine ⟨?_, (pollRecord_pollRel o c w).same.ptr⟩
  have hsame := congrArg Container.state (pollRecord_live (c := c) w fun _ => h)
  exact hsame

theorem Watched.poll {ptr : Nat} {id : Bytes} {m : Manager} {o : PollOutcome}
    (h : Watched ptr id m.list) (hlive : (o.sync ptr).LiveAnswer) :
    Watched ptr id (pollStates o m).list := by
  obtain ⟨c, hfind, hptr, hc⟩ := h
  have hrel := pollStates_records o m
  have hid : ∀ x y, (∃ w, y = (pollRecord (o.sync x.ptr) x w).1) →
      y.id = x.id ∧ y.name = x.name := by
    rintro x y ⟨w, rfl⟩
    have hsame := (pollRecord_pollRel (o.sync x.ptr) x w).same
    exact ⟨hsame.id, hsame.name⟩
  have hkeep : ∀ y, (∃ w, y = (pollRecord (o.sync c.ptr) c w).1) → y.ptr = ptr ∧ Live y := by
    rintro y ⟨w, rfl⟩
    rw [← hptr] at hlive
    obtain ⟨hstate, hsame⟩ := pollRecord_keeps (c := c) w hlive
    refine ⟨hsame.trans hptr, ?_⟩
    rw [Live, hstate]
    exact hc
  have hidback : ∀ x y, (∃ w, y = (pollRecord (o.sync x.ptr) x w).1) →
      decide (y.id = id) = true → decide (x.id = id) = true := by
    intro x y hxy hy
    rwa [← (hid x y hxy).1]
  rw [findContainer, Option.or_eq_some_iff] at hfind
  -- `find_container` looks for the id first, then for the name of a live record
  rcases hfind with hfind | ⟨hnone, hfind⟩
  · have hcid : c.id = id := by simpa using List.find?_some hfind
    obtain ⟨c', hfind', hcc'⟩ := find?_forall₂ hrel hidback hfind fun y hy => by
      rw [(hid c y hy).1, hcid, decide_eq_true rfl]
    refine ⟨c', ?_, hkeep c' hcc'⟩
    rw [findContainer, hfind', Option.some_or]
  · rw [Option.or_eq_some_iff] at hfind
    rcases hfind with hfind | ⟨hdead, hfind⟩
    · have hcname : c.name = id := by
        have hfound := List.find?_some hfind
        rw [decide_eq_true_eq] at hfound
        exact hfound.1
      obtain ⟨c', hfind', hcc'⟩ := find?_forall₂ hrel
        (p := fun c => c.name = id ∧ (c.state = .running ∨ c.state = .paused))
        (fun x y hxy hy => by
          rw [decide_eq_true_eq] at hy ⊢
          obtain ⟨w, rfl⟩ := hxy
          exact ⟨(hid x _ ⟨w, rfl⟩).2.symm.trans hy.1, Live.back hy.2⟩) hfind
        (fun y hy => by
          rw [decide_eq_true_eq]
          exact ⟨(hid c y hy).2.trans hcname, (hkeep y hy).2⟩)
      refine ⟨c', ?_, hkeep c' hcc'⟩
      rw [findContainer, find?_none_forall₂ hrel hidback hnone, Option.none_or, hfind',
        Option.some_or]
    · -- a live record is not a fallback
      exfalso
      have hcname : c.name = id := by simpa using List.find?_some hfind
      refine List.find?_eq_none.mp hdead c (List.mem_of_find?_eq_some hfind) ?_
      rw [decide_eq_true_eq]
      exact ⟨hcname, hc⟩

/-! ## What is printed -/

/-- Where the follower is: `start` is what it has printed before the loop. -/
structure LogInv (start : Bytes) (s : LogFollow) : Prop where
  watched : s.alive = true → Watched s.ptr s.id s.mgr.list
  offset : s.offset ≤ s.log.length
  out : s.out = start ++ s.log.take s.offset ++ if s.pc = .returned true then [10] else []
  mark : s.mark ≤ s.log.length
  /-- a round ends behind what was there when it began -/
  covered : s.pc = .interrupt ∨ s.pc = .poll ∨ s.pc = .sleep → s.mark ≤ s.offset
  eof : s.eof = true → s.mark ≤ s.offset
  /-- nothing is written any more -/
  ended : s.pc = .final ∨ s.pc = .returned false →
    s.alive = false ∧ (s.eof = true ∨ s.pc = .returned false → s.offset = s.log.length)
  clear : s.pc = .interrupt ∨ s.pc = .poll ∨ s.pc = .sleep → s.eof = false

variable {start : Bytes} {s s' : LogFollow}

/-- A short count means the end of the file. -/
theorem LogFollow.read_spec (hoffset : s.offset ≤ s.log.length) :
    s.read.offset ≤ s.log.length ∧ s.offset ≤ s.read.offset ∧
      (s.read.eof = true → s.read.offset = s.log.length) ∧
      ∀ text, s.out = text ++ s.log.take s.offset →
        s.read.out = text ++ s.log.take s.read.offset := by
  refine ⟨?_, ?_, fun heof => ?_, fun text htext => ?_⟩
  · show s.offset + min followBufLen (s.log.length - s.offset) ≤ _
    omega
  · exact Nat.le_add_right _ _
  · have hshort : min followBufLen (s.log.length - s.offset) < followBufLen := by
      simpa [LogFollow.read] using heof
    show s.offset + min followBufLen (s.log.length - s.offset) = _
    omega
  · show s.out ++ (s.log.drop s.offset).take _ = text ++ s.log.take (s.offset + _)
    rw [htext, List.take_add, List.append_assoc]

theorem LogInv.text (h : LogInv start s) (hpc : s.pc ≠ .returned true) :
    s.out = start ++ s.log.take s.offset := by
  rw [h.out, if_neg hpc, List.append_nil]

theorem LogInv.read (h : LogInv start s) (hpc : s.pc = .drain ∨ s.pc = .final) :
    LogInv start s.read := by
  have hread := LogFollow.read_spec h.offset
  have hnot : s.pc ≠ .returned true := by rcases hpc with hpc | hpc <;> simp [hpc]
  have hround : ¬ (s.pc = .interrupt ∨ s.pc = .poll ∨ s.pc = .sleep) := by
    rcases hpc with hpc | hpc <;> simp [hpc]
  exact
    { watched := h.watched
      offset := hread.1
      out := by
        show s.read.out = _ ++ if s.pc = _ then _ else _
        rw [if_neg hnot, List.append_nil]
        exact hread.2.2.2 start (h.text hnot)
      mark := h.mark
      covered := fun hin => absurd hin hround
      eof := fun heof => (hread.2.2.1 heof).symm ▸ h.mark
      ended := fun hend => ⟨(h.ended hend).1, fun hlast => hlast.elim hread.2.2.1 fun hret => by
        have hret : s.pc = .returned false := hret
        rcases hpc with hpc | hpc <;> simp [hpc] at hret⟩
      clear := fun hin => absurd hin hround }

theorem LogInv.fread (h : LogInv start s) (hs : logStep s .fread = some s') : LogInv start s' := by
  unfold logStep at hs
  simp only at hs
  split at hs
  · rename_i hpc
    cases hs
    have hdrain := h.text (by rw [hpc]; decide)
    split
    · rename_i hdry
      have hcovered : s.mark ≤ s.offset := hdry.elim h.eof fun hend => h.mark.trans hend
      exact { h with
        out := by simpa using hdrain
        covered := fun _ => hcovered
        eof := fun heof => absurd heof Bool.false_ne_true
        ended := fun hend => by simp at hend
        clear := fun _ => rfl }
    · exact h.read (.inl hpc)
  · rename_i hpc
    cases hs
    have hfinal := h.text (by rw [hpc]; decide)
    obtain ⟨hdead, hend⟩ := h.ended (.inl hpc)
    split
    · rename_i hdry
      have hall : s.offset = s.log.length :=
        hdry.elim (fun heof => hend (.inl heof)) fun hlast => Nat.le_antisymm h.offset hlast
      exact { h with
        out := by simpa using hfinal
        covered := fun hround => by simp at hround
        ended := fun _ => ⟨hdead, fun _ => hall⟩
        clear := fun hround => by simp at hround }
    · exact h.read (.inr hpc)
  · cases hs

theorem LogInv.step {a : LogAct} (h : LogInv start s) (hok : LogOk s a)
    (hs : logStep s a = some s') : LogInv start s' := by
  cases a with
  | write text =>
    obtain ⟨halive, hs⟩ := Option.ite_none_right_eq_some.mp hs
    cases hs
    have hrunning : ¬ (s.pc = .final ∨ s.pc = .returned false) := by
      intro hend
      rw [(h.ended hend).1] at halive
      cases halive
    exact { h with
      offset := by
        show s.offset ≤ (s.log ++ text).length
        rw [List.length_append]
        exact Nat.le_add_right_of_le h.offset
      out := by
        show s.out = start ++ (s.log ++ text).take s.offset ++ _
        rw [List.take_append_of_le_length h.offset]
        exact h.out
      mark := by
        show s.mark ≤ (s.log ++ text).length
        rw [List.length_append]
        exact Nat.le_add_right_of_le h.mark
      ended := fun hend => absurd hend hrunning }
  | exit =>
    cases hs
    exact { h with
      watched := fun halive => absurd halive Bool.false_ne_true
      ended := fun hend => ⟨rfl, (h.ended hend).2⟩ }
  | restart => exact hok.elim
  | others m =>
    cases hs
    exact { h with watched := hok }
  | request =>
    cases hs
    exact { h with }
  | fread => exact h.fread hs
  | consume =>
    unfold logStep at hs
    simp only at hs
    split at hs
    · rename_i hpc
      cases hs
      have htext := h.text (by rw [hpc]; decide)
      split
      · exact { h with
          out := by
            show s.out ++ [10] = _
            rw [htext, if_pos rfl]
          covered := fun hround => by simp at hround
          ended := fun hend => by simp at hend
          clear := fun hround => by simp at hround }
      · exact { h with
          out := by simpa using htext
          covered := fun _ => h.covered (.inl hpc)
          ended := fun hend => by simp at hend
          clear := fun _ => h.clear (.inl hpc) }
    · cases hs
  | poll o =>
    unfold logStep at hs
    simp only at hs
    split at hs
    · rename_i hpc
      cases hs
      have htext := h.text (by rw [hpc]; decide)
      have hclear := h.clear (.inr (.inl hpc))
      have hwatched : s.alive = true → Watched s.ptr s.id (pollStates o s.mgr).list :=
        fun halive => (h.watched halive).poll (hok halive)
      split
      · rename_i hgone
        -- a record that is not live belongs to a process that has ended
        have hdead : s.alive = false := by
          rw [← Bool.not_eq_true]
          intro halive
          obtain ⟨c, hfind, -, hc⟩ := hwatched halive
          rw [hfind] at hgone
          exact not_live_stopped (by simpa using hgone) hc
        exact { h with
          watched := hwatched
          out := by simpa using htext
          covered := fun hround => by simp at hround
          ended := fun _ => ⟨hdead, fun hlast => by simp [hclear] at hlast⟩
          clear := fun _ => hclear }
      · exact { h with
          watched := hwatched
          out := by simpa using htext
          covered := fun _ => h.covered (.inr (.inl hpc))
          ended := fun hend => by simp at hend
          clear := fun _ => hclear }
    · cases hs
  | wake =>
    unfold logStep at hs
    simp only at hs
    split at hs
    · rename_i hpc
      cases hs
      have htext := h.text (by rw [hpc]; decide)
      have hclear := h.clear (.inr (.inr hpc))
      exact { h with
        out := by simpa using htext
        mark := Nat.le_refl _
        covered := fun hround => by simp at hround
        eof := fun heof => absurd (hclear.symm.trans heof) Bool.false_ne_true
        ended := fun hend => by simp at hend
        clear := fun hround => by simp at hround }
    · cases hs

/-- A follower that starts on a live record, if its process is alive. -/
theorem LogInv.of_start {o : FollowOutcome} {id : Bytes} {m : Manager}
    (h : (containerLogsFollow o id m).2 = .inr s)
    (halive : o.alive = true → Watched s.ptr id s.mgr.list) :
    LogInv (followHint o.tty id) s := by
  unfold containerLogsFollow at h
  split at h
  · cases h
  · simp only at h
    split at h
    · cases h
    · split at h
      · cases h
      · split at h
        · cases h
        · cases h
          exact
            { watched := halive
              offset := Nat.zero_le _
              out := by simp
              mark := Nat.le_refl _
              covered := fun hround => by simp at hround
              eof := fun heof => absurd heof Bool.false_ne_true
              ended := fun hend => by simp at hend
              clear := fun _ => rfl }

/-- **Following a log is complete.** In every run, what is printed is the log from
its start, up to some place. Once in each round that is behind everything that was
written before the round began, and when the follower returns by itself the
process has ended and the whole log is printed. -/
theorem logs_follow_complete {o : FollowOutcome} {id : Bytes} {m : Manager} {s₀ : LogFollow}
    {as : List LogAct} (hstart : (containerLogsFollow o id m).2 = .inr s₀)
    (halive : o.alive = true → Watched s₀.ptr id s₀.mgr.list)
    (hrun : RunOk logStep LogOk s₀ as s) :
    (∃ k ≤ s.log.length, s.out = followHint o.tty id ++ s.log.take k ++
      if s.pc = .returned true then [10] else []) ∧
    (s.pc = .sleep → followHint o.tty id ++ s.log.take s.mark <+: s.out) ∧
    (s.pc = .returned false → s.alive = false ∧ s.out = followHint o.tty id ++ s.log) := by
  have h : LogInv (followHint o.tty id) s :=
    hrun.invariant (fun _ _ _ hi hok hs => hi.step hok hs) (.of_start hstart halive)
  refine ⟨⟨s.offset, h.offset, h.out⟩, fun hpc => ?_, fun hpc => ?_⟩
  · have hmark := h.covered (.inr (.inr hpc))
    rw [h.text (by rw [hpc]; decide), List.prefix_append_right_inj]
    exact List.take_prefix_take_left hmark
  · obtain ⟨hdead, hall⟩ := h.ended (.inr hpc)
    refine ⟨hdead, ?_⟩
    rw [h.text (by rw [hpc]; decide), hall (.inr hpc), List.take_length]

/-- A container in the background, its log so far, and its follower. -/
def followedManager : Manager := (containerRunBackground (.clean (.ofNat 100)) .zero .init).1

def followStart : FollowOutcome :=
  { poll := .quiet, fopen := fun _ => some (bytes "one\n"), tty := false, alive := true }

/-- What the first waitpid of a poll finds out about a process that has ended. -/
def reapedPoll : PollOutcome :=
  { sync := fun _ => { wait := .reaped (.exited 0), alive := false, now := 0, oom := 0, rssMb := 0 }
    save := true }

/-- The container writes and ends while the follower sleeps. -/
def followedExit : List LogAct :=
  [.fread, .fread, .consume, .poll .quiet, .write (bytes "two\n"), .exit, .wake, .fread, .fread,
    .consume, .poll reapedPoll, .fread]

theorem logs_follow_complete_exit :
    ∃ s : LogFollow, s.pc = .returned false ∧ s.alive = false ∧
      s.out = followHint false (containerId 1) ++ s.log := by
  have hsome : ((containerLogsFollow followStart (containerId 1) followedManager).2.getRight?).any
      (fun s₀ => Watched s₀.ptr (containerId 1) s₀.mgr.list ∧
        (exec logStep LogOk s₀ followedExit).any fun s => s.pc = .returned false) = true := by
    decide +kernel
  obtain ⟨s₀, hstart, hboth⟩ := exists_of_any hsome
  obtain ⟨hwatched, hexec⟩ := hboth
  obtain ⟨s, hrun, hpc⟩ := exists_runOk_of_exec logStep LogOk s₀ followedExit
    (fun s => s.pc = .returned false) hexec
  have hinr := Sum.getRight?_eq_some_iff.mp hstart
  have hcomplete := logs_follow_complete hinr (fun _ => hwatched) hrun
  exact ⟨s, hpc, hcomplete.2.2 hpc⟩

/-- A sleeping follower does not see what a container that is started again
writes, as long as that is no more than the follower has read before. -/
theorem restart_hides_output (hpc : s.pc = .sleep) {text : Bytes}
    (hshort : text.length ≤ s.offset) :
    ∃ s', Runs logStep s [.restart, .write text, .wake, .fread] s' ∧ s'.log = text ∧
      s'.out = s.out ∧ s'.pc = .interrupt := by
  let s₁ : LogFollow := { s with log := [], alive := true }
  let s₂ : LogFollow := { s with log := text, alive := true }
  let s₃ : LogFollow := { s₂ with pc := .drain, mark := text.length }
  have hwake : logStep s₂ .wake = some s₃ := by
    show (match s.pc with | .sleep => some s₃ | _ => none) = _
    rw [hpc]
  have hdry : s₃.dry := .inr hshort
  have hfread : logStep s₃ .fread = some { s₃ with pc := .interrupt, eof := false } := by
    show some (if s₃.dry then _ else _) = _
    rw [if_pos hdry]
  exact ⟨_, .cons trivial rfl (.cons trivial rfl (.cons trivial hwake (.cons trivial hfread
    (.nil _)))), rfl, rfl, rfl⟩

end ContainerSim.Runtime
