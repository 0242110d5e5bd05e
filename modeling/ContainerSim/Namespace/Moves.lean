import ContainerSim.Namespace.Handshake

/-!
# What a step of the handshake can do

One relation for each side, with a constructor for every step that passes a
milestone or moves bytes; the others only drift from one place to the next.
-/

namespace ContainerSim.Namespace

open Lib

/-! ## The moves of the parent -/

/-- Steps of the parent that nobody else notices. -/
inductive Drift : ParentPc → ParentPc → Prop
  | refuse : Drift .opening .refused
  | mapped : Drift .mapping .networking
  | unmapped : Drift .mapping .killing
  | noNetwork : Drift .networking .killing
  | unsent (net : NetConfig) (total : Nat) : Drift (.sending net total) .killing
  | listen : Drift .sent (.receiving [])
  | unheard (got : Bytes) : Drift (.receiving got) .abandoning
  | abandon : Drift .abandoning .waiting
  | kill : Drift .killing .waiting
  | untriggered : Drift .started (.triggered (-1))
  | unchecked : Drift .checking (.triggered (-1))
  | stay {pc : ParentPc} (hpc : pc ≠ .opening) : Drift pc pc
  | die (pc : ParentPc) : Drift pc .dead

/-- Child, log and contents of the pipes are as before, and so are the child's
ends. -/
structure ParentFrame (s s' : Handshake) : Prop where
  child : s'.child = s.child
  log : s'.log = s.log
  status : s'.status.buf = s.status.buf
  exec : s'.exec.buf = s.exec.buf
  cont : s'.cont.buf = s.cont.buf
  trig : s'.trig.buf = s.trig.buf
  execWrite : s'.exec.writes .child = s.exec.writes .child
  trigWrite : s'.trig.writes .child = s.trig.writes .child
  trigRead : s'.trig.reads .child = s.trig.reads .child
  ownTrigRead : s'.trig.reads .parent = true → s.trig.reads .parent = true

inductive ParentMove (s : Handshake) : ParentAct → Handshake → Prop
  | clone (hpc : s.parent = .opening) :
      ParentMove s .ok { s.fork with parent := .closing, child := .reading [] }
  | close (hpc : s.parent = .closing) :
      ParentMove s .ok
        { s with
          exec := s.exec.closeWrite .parent, status := s.status.closeWrite .parent
          cont := s.cont.closeRead .parent, trig := s.trig.closeRead .parent, parent := .mapping }
  | drift {a : ParentAct} {s' : Handshake} (hf : ParentFrame s s') (hd : Drift s.parent s'.parent) :
      ParentMove s a s'
  | network (cfg : NetConfig) (hpc : s.parent = .networking) :
      ParentMove s (.net cfg) { s.reach .network with parent := .sending cfg 0 }
  | send {net : NetConfig} {total k : Nat} (hpc : s.parent = .sending net total)
      (hlt : total + k < tokenSize) :
      ParentMove s (.io k)
        { s with
          cont := s.cont.write (((continueToken yes net).drop total).take k)
          parent := .sending net (total + k) }
  | sent {net : NetConfig} {total k : Nat} (hpc : s.parent = .sending net total)
      (heq : total + k = tokenSize) :
      ParentMove s (.io k)
        { s.reach .token with
          cont := s.cont.write (((continueToken yes net).drop total).take k), parent := .sent }
  | receive {got : Bytes} {k : Nat} (hpc : s.parent = .receiving got) :
      ParentMove s (.io k)
        { s with status := (s.status.read k).2, parent := .receiving (got ++ (s.status.read k).1) }
  | notReady {got : Bytes} {k : Nat} (hpc : s.parent = .receiving got) :
      ParentMove s (.io k) { s with status := (s.status.read k).2, parent := .abandoning }
  | ready {got : Bytes} {k : Nat} (hpc : s.parent = .receiving got)
      (hfull : statusSize ≤ (got ++ (s.status.read k).1).length)
      (hready : ¬ NotReady (got ++ (s.status.read k).1)) :
      ParentMove s (.io k)
        { s.reach .ready with
          status := (s.status.read k).2.closeRead .parent, parent := .started }
  | reap (hpc : s.parent = .waiting) (hzombie : s.child = .zombie) :
      ParentMove s .ok { s with child := .reaped, parent := .failed }
  | interrupted (hpc : s.parent = .waiting) : ParentMove s .intr { s with parent := .failed }
  | trigger (hpc : s.parent = .started) (hreader : s.trig.HasReader) :
      ParentMove s .ok
        { s.reach .trigger with
          trig := (s.trig.write [yes]).closeWrite .parent, parent := .checking }
  | errno {k : Nat} (hpc : s.parent = .checking) :
      ParentMove s (.io k)
        { s with exec := (s.exec.read k).2.closeRead .parent, parent := .triggered (-1) }
  | succeed (hpc : s.parent = .checking) (heof : s.exec.AtEof) :
      ParentMove s .eof
        { s with exec := s.exec.closeRead .parent, parent := .triggered 0 }

theorem Party.child_ne_parent : Party.child ≠ Party.parent := by decide

theorem parentFrame_leave (s : Handshake) (pc : ParentPc) :
    ParentFrame s { s.leave .parent with parent := pc } := by
  refine ⟨rfl, rfl, rfl, rfl, rfl, rfl, ?_, ?_, ?_, fun h => ?_⟩
  · exact Pipe.leave_writes_ne Party.child_ne_parent
  · exact Pipe.leave_writes_ne Party.child_ne_parent
  · exact Pipe.leave_reads_ne Party.child_ne_parent
  · rw [Handshake.leave, Pipe.leave_reads_self] at h
    cases h

/-- A step of the parent that changes nothing but its place and its ends. -/
theorem ParentMove.of_drift {s s' : Handshake} {a : ParentAct} {pc pc' : ParentPc}
    (hpc : s.parent = pc) (hpc' : s'.parent = pc') (hd : Drift pc pc') (hf : ParentFrame s s') :
    ParentMove s a s' :=
  .drift hf (hpc ▸ hpc' ▸ hd)

theorem parentStep_move {s s' : Handshake} {a : ParentAct} (h : parentStep s a = some s') :
    ParentMove s a s' := by
  have hends : ∀ {w : Pipe Party UInt8}, (w.closeWrite .parent).writes .child = w.writes .child :=
    Pipe.closeWrite_writes_ne Party.child_ne_parent
  have hsame : ∀ pc, ParentFrame s { s with parent := pc } :=
    fun _ => ⟨rfl, rfl, rfl, rfl, rfl, rfl, rfl, rfl, rfl, id⟩
  unfold parentStep at h
  split at h
  -- one bullet for each line of `parentStep`: `clone`, with its failure
  · cases h
    exact .clone ‹_›
  · cases h
    exact .of_drift ‹_› rfl .refuse (parentFrame_leave s _)
  -- the ends of the child
  · cases h
    exact .close ‹_›
  -- the user mapping and the network
  · cases h
    exact .of_drift ‹_› rfl .mapped (hsame _)
  · cases h
    exact .of_drift ‹_› rfl .unmapped (hsame _)
  · cases h
    exact .network _ ‹_›
  · cases h
    exact .of_drift ‹_› rfl .noNetwork (hsame _)
  -- a write of part of the token, or of its rest
  · rename_i hpc
    split at h
    · rename_i hk
      simp only at h
      split at h
      · rename_i heq
        cases h
        exact .sent hpc heq
      · rename_i hne
        cases h
        exact .send hpc (by omega)
    · cases h
  · cases h
    exact .of_drift ‹_› rfl (.unsent _ _) (hsame _)
  · cases h
    exact .of_drift rfl rfl (.stay (by rw [‹s.parent = _›]; simp)) (hsame _)
  · cases h
    refine .of_drift ‹_› rfl .listen ⟨rfl, rfl, rfl, rfl, rfl, rfl, rfl, rfl, rfl, id⟩
  -- a read of part of the status, or of its rest
  · rename_i hpc
    split at h
    · simp only at h
      split at h
      · cases h
        exact .receive hpc
      · rename_i hfull
        split at h
        · cases h
          exact .notReady hpc
        · rename_i hready
          cases h
          exact .ready hpc (Nat.le_of_not_lt hfull) hready
    · cases h
  · split at h
    · cases h
      exact .of_drift ‹_› rfl (.unheard _) (hsame _)
    · cases h
  · cases h
    exact .of_drift ‹_› rfl (.unheard _) (hsame _)
  · cases h
    exact .of_drift rfl rfl (.stay (by rw [‹s.parent = _›]; simp)) (hsame _)
  -- both ways out when the child is given up, and its `waitpid`
  · cases h
    exact .of_drift ‹_› rfl .abandon ⟨rfl, rfl, rfl, rfl, rfl, rfl, rfl, hends, rfl, id⟩
  · cases h
    exact .of_drift ‹_› rfl .kill ⟨rfl, rfl, rfl, rfl, rfl, rfl, rfl, hends, rfl, id⟩
  · split at h
    · cases h
      exact .reap ‹_› ‹_›
    · cases h
  · cases h
    exact .interrupted ‹_›
  -- the trigger, and the read of the exec pipe behind it
  · split at h
    · cases h
      exact .trigger ‹_› ‹_›
    · cases h
  · cases h
    exact .of_drift ‹_› rfl .untriggered ⟨rfl, rfl, rfl, rfl, rfl, rfl, rfl, hends, rfl, id⟩
  · cases h
    exact .of_drift ‹_› rfl .untriggered ⟨rfl, rfl, rfl, rfl, rfl, rfl, rfl, hends, rfl, id⟩
  · split at h
    · cases h
      exact .errno ‹_›
    · cases h
  · split at h
    · cases h
      exact .succeed ‹_› ‹_›
    · cases h
  · cases h
    exact .of_drift ‹_› rfl .unchecked ⟨rfl, rfl, rfl, rfl, rfl, rfl, rfl, rfl, rfl, id⟩
  · cases h
    exact .of_drift rfl rfl (.stay (by rw [‹s.parent = _›]; simp)) (hsame _)
  -- the parent dies
  · cases h
  · cases h
    exact .of_drift rfl rfl (.die _) (parentFrame_leave s _)
  · cases h

/-! ## The moves of the child -/

/-- The child still holds its write ends of the exec and the trigger pipe. -/
def ChildPc.Holding : ChildPc → Prop
  | .reading _ | .setup _ | .reporting _ | .announcing | .awaiting | .launching
  | .execFailed _ => True
  | _ => False

/-- Steps of the child before the trigger is read, and after `execvp`. -/
inductive ChildDrift : ChildPc → ChildPc → Prop
  | unread (got : Bytes) (e : UInt32) : ChildDrift (.reading got) (.reporting e)
  | setup (step : SetupStep) (todo : List SetupStep) : ChildDrift (.setup (step :: todo)) (.setup todo)
  | failed (todo : List SetupStep) (e : UInt32) : ChildDrift (.setup todo) (.reporting e)
  | complete : ChildDrift (.setup []) .announcing
  | unreported (e : UInt32) : ChildDrift (.reporting e) .exiting
  | unannounced : ChildDrift .announcing .awaiting
  | exit : ChildDrift .exiting .zombie
  | stay (pc : ChildPc) : ChildDrift pc pc

/-- Parent, log and contents of the pipes are as before. -/
structure ChildFrame (s s' : Handshake) : Prop where
  parent : s'.parent = s.parent
  log : s'.log = s.log
  status : s'.status.buf = s.status.buf
  exec : s'.exec.buf = s.exec.buf
  cont : s'.cont.buf = s.cont.buf
  trig : s'.trig.buf = s.trig.buf
  execWrite : s'.child.Holding → s'.exec.writes .child = s.exec.writes .child
  trigWrite : s'.child.Holding → s'.trig.writes .child = s.trig.writes .child
  trigRead : s'.trig.reads .child = true → s.trig.reads .child = true
  ownTrigRead : s'.trig.reads .parent = s.trig.reads .parent

inductive ChildMove (s : Handshake) : ChildAct → Handshake → Prop
  | drift {a : ChildAct} {s' : Handshake} (hf : ChildFrame s s') (hd : ChildDrift s.child s'.child) :
      ChildMove s a s'
  /-- `die` -/
  | die {s' : Handshake} (hf : ChildFrame s s') (hpc' : s'.child = .zombie)
      (hread : s'.trig.reads .child = false) : ChildMove s .die s'
  | receive {got : Bytes} {k : Nat} (hpc : s.child = .reading got) (hk : k ≤ s.cont.buf.length)
      (hlt : (got ++ (s.cont.read k).1).length < tokenSize) :
      ChildMove s (.io k)
        { s with cont := (s.cont.read k).2, child := .reading (got ++ (s.cont.read k).1) }
  | token {got : Bytes} {k : Nat} {pc' : ChildPc} (hpc : s.child = .reading got)
      (hk : k ≤ s.cont.buf.length) (hfull : tokenSize ≤ (got ++ (s.cont.read k).1).length)
      (hpc' : pc' = .setup setupSteps ∨ pc' = .reporting EPROTO) :
      ChildMove s (.io k) { s with cont := (s.cont.read k).2.closeRead .child, child := pc' }
  | report {e : UInt32} {k : Nat} (hpc : s.child = .reporting e) :
      ChildMove s (.io k)
        { s with
          status := (s.status.write ((statusBytes 0 e (-1)).take k)).closeWrite .child
          child := .exiting }
  | garbled {k : Nat} (hpc : s.child = .announcing) (hlt : k < statusSize) :
      ChildMove s (.io k)
        { s with
          status := (s.status.write ((statusBytes 1 0 1).take k)).closeWrite .child
          child := .awaiting }
  | announced {k : Nat} (hpc : s.child = .announcing) :
      ChildMove s (.io k)
        { s.reach .announced with
          status := (s.status.write ((statusBytes 1 0 1).take k)).closeWrite .child
          child := .awaiting }
  | trigger {k : Nat} {pc' : ChildPc} (hpc : s.child = .awaiting) (hbuf : s.trig.buf ≠ [])
      (hpc' : (s.trig.read 1).1 = [yes] ∧ pc' = .launching ∨
        (s.trig.read 1).1 ≠ [yes] ∧ pc' = .exiting) :
      ChildMove s (.io k) { s with trig := (s.trig.read 1).2.closeRead .child, child := pc' }
  | noTrigger {a : ChildAct} (hpc : s.child = .awaiting)
      (ha : (a = .eof ∧ s.trig.AtEof) ∨ ∃ e, a = .fail e) :
      ChildMove s a { s with trig := s.trig.closeRead .child, child := .exiting }
  | executed (hpc : s.child = .launching) :
      ChildMove s .ok
        { (s.reach .execvp).reach .executed with
          exec := s.exec.closeWrite .child, child := .command }
  | execFailed (e : UInt32) (hpc : s.child = .launching) :
      ChildMove s (.fail e) { s.reach .execvp with child := .execFailed e }
  | errno {e : UInt32} {k : Nat} (hpc : s.child = .execFailed e) (hpos : 0 < k) :
      ChildMove s (.io k)
        { s with
          exec := (s.exec.write ((intBytes e).take k)).closeWrite .child, child := .exiting }
  | noErrno {e e' : UInt32} (hpc : s.child = .execFailed e) :
      ChildMove s (.fail e') { s with exec := s.exec.closeWrite .child, child := .exiting }

/-- As `ParentMove.of_drift`. -/
theorem ChildMove.of_drift {s s' : Handshake} {a : ChildAct} {pc pc' : ChildPc}
    (hpc : s.child = pc) (hpc' : s'.child = pc') (hd : ChildDrift pc pc') (hf : ChildFrame s s') :
    ChildMove s a s' :=
  .drift hf (hpc ▸ hpc' ▸ hd)

theorem childStep_move {s s' : Handshake} {a : ChildAct} (h : childStep s a = some s') :
    ChildMove s a s' := by
  have hsame : ∀ pc, ChildFrame s { s with child := pc } :=
    fun _ => ⟨rfl, rfl, rfl, rfl, rfl, rfl, fun _ => rfl, fun _ => rfl, id, rfl⟩
  have hcont : ∀ pc, ChildFrame s { s with cont := s.cont.closeRead .child, child := pc } :=
    fun _ => ⟨rfl, rfl, rfl, rfl, rfl, rfl, fun _ => rfl, fun _ => rfl, id, rfl⟩
  have hstatus : ∀ pc, ChildFrame s { s with status := s.status.closeWrite .child, child := pc } :=
    fun _ => ⟨rfl, rfl, rfl, rfl, rfl, rfl, fun _ => rfl, fun _ => rfl, id, rfl⟩
  have hleave : ChildFrame s { s.leave .child with child := .zombie } := by
    refine ⟨rfl, rfl, rfl, rfl, rfl, rfl, fun h => ?_, fun h => ?_, fun h => ?_, ?_⟩
    · cases h
    · cases h
    · rw [Handshake.leave, Pipe.leave_reads_self] at h
      cases h
    · exact Pipe.leave_reads_ne Party.child_ne_parent.symm
  unfold childStep at h
  split at h
  -- a read of part of the token, or of its rest
  · rename_i hpc
    split at h
    · rename_i hk
      simp only at h
      split at h
      · rename_i hlt
        cases h
        exact .receive hpc hk.2.2 hlt
      · rename_i hfull
        cases h
        refine .token hpc hk.2.2 (Nat.le_of_not_lt hfull) ?_
        split
        · exact .inl rfl
        · exact .inr rfl
    · cases h
  · split at h
    · cases h
      exact .of_drift ‹_› rfl (.unread _ _) (hcont _)
    · cases h
  · cases h
    exact .of_drift ‹_› rfl (.unread _ _) (hcont _)
  · cases h
    exact .drift ⟨rfl, rfl, rfl, rfl, rfl, rfl, fun _ => rfl, fun _ => rfl, id, rfl⟩ (.stay _)
  -- the steps of the setup
  · cases h
    exact .of_drift ‹_› rfl (.setup _ _) (hsame _)
  · cases h
    exact .of_drift ‹_› rfl (.failed _ _) (hsame _)
  · cases h
    exact .of_drift ‹_› rfl .complete (hsame _)
  -- the status of a setup that failed
  · split at h
    · cases h
      exact .report ‹_›
    · cases h
  · cases h
    exact .of_drift ‹_› rfl (.unreported _) (hstatus _)
  -- the ready status, or part of it
  · rename_i hpc
    split at h
    · rename_i hk
      simp only at h
      split at h
      · cases h
        exact .announced hpc
      · cases h
        exact .garbled hpc (by omega)
    · cases h
  · cases h
    exact .of_drift ‹_› rfl .unannounced (hstatus _)
  -- the byte in the trigger pipe
  · rename_i hpc
    split at h
    · rename_i hk
      obtain ⟨rfl, hlen⟩ := hk
      cases h
      refine .trigger hpc (fun hnil => by rw [hnil] at hlen; cases hlen) ?_
      split
      · rename_i hyes
        exact .inl ⟨hyes, rfl⟩
      · rename_i hyes
        exact .inr ⟨hyes, rfl⟩
    · cases h
  · split at h
    · cases h
      exact .noTrigger ‹_› (.inl ⟨rfl, ‹_›⟩)
    · cases h
  · cases h
    exact .noTrigger ‹_› (.inr ⟨_, rfl⟩)
  · cases h
    exact .drift ⟨rfl, rfl, rfl, rfl, rfl, rfl, fun _ => rfl, fun _ => rfl, id, rfl⟩ (.stay _)
  -- `execvp`, and what the child sends when it fails
  · cases h
    exact .executed ‹_›
  · cases h
    exact .execFailed _ ‹_›
  · split at h
    · rename_i hk
      cases h
      exact .errno ‹_› hk.1
    · cases h
  · cases h
    exact .noErrno ‹_›
  -- the ends of the child, by `_exit` or by a signal
  · cases h
    exact .of_drift ‹_› rfl .exit hleave
  · split at h
    · cases h
    · cases h
      exact .die hleave rfl (Pipe.leave_reads_self _ _)
  · cases h

end ContainerSim.Namespace
