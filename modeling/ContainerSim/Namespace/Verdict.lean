import ContainerSim.Namespace.Order

/-!
# What the end of the exec pipe says

`namespace_trigger_exec` takes the end of the exec pipe for a successful
`execvp`, since that closes the child's write end. So does the child's death,
and so does its return without a word. With these excluded from the trigger on,
the verdict is right.
-/

namespace ContainerSim.Namespace

open Lib Handshake

/-- From the read of the trigger to the end of `execvp`. -/
def ChildPc.Starting : ChildPc → Prop
  | .awaiting | .launching | .execFailed _ => True
  | _ => False

instance : (pc : ChildPc) → Decidable pc.Starting
  | .awaiting | .launching | .execFailed _ => .isTrue trivial
  | .unborn | .reading _ | .setup _ | .reporting _ | .announcing | .exiting | .command | .zombie
  | .reaped => .isFalse id

/-- Once the trigger is written, the child lives until `execvp` has succeeded or
its error is written, and neither its read of the trigger nor that write fails. -/
def Undisturbed (s : Handshake) : Act → Prop
  | .child .die => .trigger ∈ s.log → ¬ s.child.Starting
  | .child (.fail _) => .trigger ∈ s.log → s.child.Starting → s.child = .launching
  | _ => True

instance (s : Handshake) (a : Act) : Decidable (Undisturbed s a) := by
  unfold Undisturbed; split <;> infer_instance

theorem ChildPc.Starting.holding {pc : ChildPc} (h : pc.Starting) : pc.Holding := by
  cases pc <;> trivial

/-! ## The ends of the pipes -/

/-- The parent has not closed the child's ends yet, or has given up. -/
def ParentPc.Early : ParentPc → Prop
  | .opening | .closing | .refused | .dead => True
  | _ => False

theorem Drift.early {pc pc' : ParentPc} (h : Drift pc pc') (hpc : pc.Early) : pc'.Early := by
  cases h <;> trivial

/-- Who holds the ends that decide. -/
structure EndsSound (s : Handshake) : Prop where
  fresh : s.parent = .opening → s.exec.writes .parent = true ∧ s.trig.writes .parent = true
  exec : s.child.Holding → s.exec.writes .child = true
  trig : s.child.Holding → s.trig.writes .child = true
  parentRead : s.trig.reads .parent = true → s.parent.Early
  childRead : s.trig.reads .child = true → 3 ≤ s.log.length → s.child = .awaiting

theorem endsSound_init : EndsSound .init :=
  ⟨fun _ => ⟨rfl, rfl⟩, fun h => (by cases h), fun h => (by cases h), fun _ => trivial,
    fun h => (by cases h)⟩

/-- The parent, past `clone`, leaves the child and its ends alone. -/
theorem EndsSound.parent {s s' : Handshake} (h : EndsSound s) (hopen : s'.parent ≠ .opening)
    (hchild : s'.child = s.child) (hexec : s'.exec.writes .child = s.exec.writes .child)
    (htrig : s'.trig.writes .child = s.trig.writes .child)
    (hread : s'.trig.reads .child = s.trig.reads .child)
    (hparent : s'.trig.reads .parent = true → s'.parent.Early)
    (hlog : 3 ≤ s'.log.length → 3 ≤ s.log.length) : EndsSound s' := by
  refine ⟨fun hpc => absurd hpc hopen, fun hh => ?_, fun hh => ?_, hparent, fun hr hn => ?_⟩
  · rw [hexec]
    exact h.exec (hchild ▸ hh)
  · rw [htrig]
    exact h.trig (hchild ▸ hh)
  · rw [hchild]
    exact h.childRead (hread ▸ hr) (hlog hn)

theorem EndsSound.parentMove {s s' : Handshake} {a : ParentAct} (h : EndsSound s) (hsound : Sound s)
    (hm : ParentMove s a s') : EndsSound s' := by
  have hat := hsound.ordered.parent
  have hends : ∀ {w : Pipe Party UInt8}, (w.closeWrite .parent).writes .child = w.writes .child :=
    Pipe.closeWrite_writes_ne Party.child_ne_parent
  -- past the start, the parent does not read the trigger pipe
  have hread : ∀ {pc : ParentPc}, s.parent = pc → ¬ pc.Early → s.trig.reads .parent ≠ true :=
    fun hpc hnot hr => hnot (hpc ▸ h.parentRead hr)
  cases hm with
  | clone hpc =>
    obtain ⟨hexec, htrig⟩ := h.fresh hpc
    rw [hpc] at hat
    have hzero : s.log.length = 0 := hat
    refine ⟨fun hp => (by cases hp), fun _ => ?_, fun _ => ?_, fun _ => trivial, fun _ hn => ?_⟩
    · show (s.exec.fork .parent .child).writes .child = true
      simp [Pipe.fork, hexec]
    · show (s.trig.fork .parent .child).writes .child = true
      simp [Pipe.fork, htrig]
    · have hlen : 3 ≤ s.log.length := hn
      omega
  | close hpc =>
    refine h.parent (by simp) rfl hends rfl ?_ (fun hr => ?_) id
    · exact Pipe.closeRead_reads_ne Party.child_ne_parent
    · rw [Pipe.closeRead_reads_self] at hr
      cases hr
  | drift hf hd =>
    exact h.parent hd.not_opening hf.child hf.execWrite hf.trigWrite hf.trigRead
      (fun hr => hd.early (h.parentRead (hf.ownTrigRead hr))) (by rw [hf.log]; exact id)
  | network cfg hpc =>
    rw [hpc] at hat
    have hzero : s.log.length = 0 := hat
    refine h.parent (by simp) rfl rfl rfl rfl (fun hr => absurd hr (hread hpc id)) fun hn => ?_
    simp [Handshake.reach, hzero] at hn
  | send hpc hlt => exact h.parent (by simp) rfl rfl rfl rfl (fun hr => absurd hr (hread hpc id)) id
  | sent hpc heq =>
    rw [hpc] at hat
    have hone : s.log.length = 1 := hat
    refine h.parent (by simp) rfl rfl rfl rfl (fun hr => absurd hr (hread hpc id)) fun hn => ?_
    simp [Handshake.reach, hone] at hn
  | receive hpc => exact h.parent (by simp) rfl rfl rfl rfl (fun hr => absurd hr (hread hpc id)) id
  | notReady hpc => exact h.parent (by simp) rfl rfl rfl rfl (fun hr => absurd hr (hread hpc id)) id
  | ready hpc hfull hready =>
    have hthree := hsound.ready hpc hfull hready
    exact h.parent (by simp) rfl rfl rfl rfl (fun hr => absurd hr (hread hpc id)) fun _ => by omega
  | reap hpc hzombie =>
    refine ⟨fun hp => (by cases hp), fun hh => (by cases hh), fun hh => (by cases hh),
      fun hr => absurd hr (hread hpc id), fun hr hn => ?_⟩
    have hawaiting := h.childRead hr hn
    rw [hzombie] at hawaiting
    cases hawaiting
  | interrupted hpc => exact h.parent (by simp) rfl rfl rfl rfl (fun hr => absurd hr (hread hpc id)) id
  | trigger hpc hreader =>
    rw [hpc] at hat
    have hfour : s.log.length = 4 := hat
    exact h.parent (by simp) rfl rfl hends rfl (fun hr => absurd hr (hread hpc id)) fun _ => by omega
  | errno hpc => exact h.parent (by simp) rfl rfl rfl rfl (fun hr => absurd hr (hread hpc id)) id
  | succeed hpc heof => exact h.parent (by simp) rfl rfl rfl rfl (fun hr => absurd hr (hread hpc id)) id

/-- The child leaves the parent and its ends alone. -/
theorem EndsSound.child {s s' : Handshake} (h : EndsSound s) (hopen : s.parent ≠ .opening)
    (hparent : s'.parent = s.parent) (hhold : s'.child.Holding → s.child.Holding)
    (hexec : s'.child.Holding → s'.exec.writes .child = s.exec.writes .child)
    (htrig : s'.child.Holding → s'.trig.writes .child = s.trig.writes .child)
    (hown : s'.trig.reads .parent = s.trig.reads .parent)
    (hread : s'.trig.reads .child = true → 3 ≤ s'.log.length → s'.child = .awaiting) :
    EndsSound s' := by
  refine ⟨fun hpc => absurd (hparent ▸ hpc) hopen, fun hh => ?_, fun hh => ?_, fun hr => ?_, hread⟩
  · rw [hexec hh]
    exact h.exec (hhold hh)
  · rw [htrig hh]
    exact h.trig (hhold hh)
  · rw [hparent]
    exact h.parentRead (hown ▸ hr)

theorem ChildDrift.holding {pc pc' : ChildPc} (h : ChildDrift pc pc') (hh : pc'.Holding) :
    pc.Holding := by
  cases h <;> first | exact hh | exact trivial

theorem EndsSound.childMove {s s' : Handshake} {a : ChildAct} (h : EndsSound s)
    (hsound : Sound s) (hopen : s.parent ≠ .opening) (hm : ChildMove s a s') : EndsSound s' := by
  have hat := hsound.ordered.child
  -- between the ready status and the read of the trigger it is nowhere else
  have hread : ∀ {pc : ChildPc}, s.child = pc → pc ≠ .awaiting → s.trig.reads .child = true →
      ¬ 3 ≤ s.log.length :=
    fun hpc hne hr hn => hne (hpc ▸ h.childRead hr hn)
  cases hm with
  | drift hf hd =>
    refine h.child hopen hf.parent hd.holding hf.execWrite hf.trigWrite hf.ownTrigRead
      fun hr hn => ?_
    have hpc := h.childRead (hf.trigRead hr) (hf.log ▸ hn)
    rw [hpc] at hd
    generalize s'.child = pc' at hd
    cases hd
    rfl
  | die hf hpc' hclosed =>
    have hnone : ¬ s'.child.Holding := by
      rw [hpc']
      exact id
    refine h.child hopen hf.parent (fun hh => absurd hh hnone) hf.execWrite hf.trigWrite
      hf.ownTrigRead fun hr _ => ?_
    rw [hclosed] at hr
    cases hr
  | receive hpc hk hlt =>
    refine h.child hopen rfl (fun _ => by rw [hpc]; trivial) (fun _ => rfl) (fun _ => rfl) rfl
      fun hr hn => ?_
    exact absurd hn (hread hpc (by simp) hr)
  | token hpc hk hfull hpc' =>
    refine h.child hopen rfl (fun _ => by rw [hpc]; trivial) (fun _ => rfl) (fun _ => rfl) rfl
      fun hr hn => ?_
    exact absurd hn (hread hpc (by simp) hr)
  | report hpc =>
    refine h.child hopen rfl (fun hh => absurd hh id) (fun _ => rfl) (fun _ => rfl) rfl
      fun hr hn => ?_
    exact absurd hn (hread hpc (by simp) hr)
  | garbled hpc hlt =>
    exact h.child hopen rfl (fun _ => by rw [hpc]; trivial) (fun _ => rfl) (fun _ => rfl) rfl
      fun _ _ => rfl
  | announced hpc =>
    exact h.child hopen rfl (fun _ => by rw [hpc]; trivial) (fun _ => rfl) (fun _ => rfl) rfl
      fun _ _ => rfl
  | trigger hpc hbuf hpc' =>
    refine h.child hopen rfl (fun _ => by rw [hpc]; trivial) (fun _ => rfl) (fun _ => rfl) ?_
      fun hr _ => ?_
    · exact Pipe.closeRead_reads_ne Party.child_ne_parent.symm
    · rw [Pipe.closeRead_reads_self] at hr
      cases hr
  | noTrigger hpc ha =>
    refine h.child hopen rfl (fun hh => absurd hh id) (fun _ => rfl) (fun _ => rfl) ?_
      fun hr _ => ?_
    · exact Pipe.closeRead_reads_ne Party.child_ne_parent.symm
    · rw [Pipe.closeRead_reads_self] at hr
      cases hr
  | executed hpc =>
    rw [hpc] at hat
    have hfive : s.log.length = 5 := hat
    refine h.child hopen rfl (fun hh => absurd hh id) (fun hh => absurd hh id) (fun _ => rfl) rfl
      fun hr _ => ?_
    exact absurd (by omega) (hread hpc (by simp) hr)
  | execFailed e hpc =>
    rw [hpc] at hat
    have hfive : s.log.length = 5 := hat
    refine h.child hopen rfl (fun _ => by rw [hpc]; trivial) (fun _ => rfl) (fun _ => rfl) rfl
      fun hr _ => ?_
    exact absurd (by omega) (hread hpc (by simp) hr)
  | errno hpc hpos =>
    refine h.child hopen rfl (fun hh => absurd hh id) (fun hh => absurd hh id) (fun _ => rfl) rfl
      fun hr hn => ?_
    exact absurd hn (hread hpc (by simp) hr)
  | noErrno hpc =>
    refine h.child hopen rfl (fun hh => absurd hh id) (fun hh => absurd hh id) (fun _ => rfl) rfl
      fun hr hn => ?_
    exact absurd hn (hread hpc (by simp) hr)

/-! ## The verdict -/

theorem EndsSound.step {s s' : Handshake} {a : Act} (h : EndsSound s) (hsound : Sound s)
    (hs : handshakeStep s a = some s') : EndsSound s' := by
  cases a with
  | parent a => exact h.parentMove hsound (parentStep_move hs)
  | child a =>
    have hstep : childStep s a = some s' := hs
    refine h.childMove hsound (fun hpc => ?_) (childStep_move hstep)
    rw [childStep_gone (by rw [hsound.born hpc]; trivial)] at hstep
    cases hstep

/-- While the parent waits for the end of the exec pipe, `execvp` has succeeded,
or is still to be called, or there is an error to read. -/
structure Answered (s : Handshake) : Prop where
  byte : ∀ b ∈ s.trig.buf, b = yes
  pending : s.parent = .checking → .executed ∈ s.log ∨ s.child.Starting ∨ s.exec.buf ≠ []
  started : s.parent = .triggered 0 → .executed ∈ s.log

theorem answered_init : Answered .init :=
  ⟨fun _ hb => (by cases hb), fun h => (by cases h), fun h => (by cases h)⟩

/-- The parent stays outside `read_exec_status`, before and after. -/
theorem Answered.outside {s s' : Handshake} (h : Answered s) (hbuf : s'.trig.buf = s.trig.buf)
    (hchecking : s'.parent ≠ .checking) (hstarted : s'.parent ≠ .triggered 0) : Answered s' :=
  ⟨hbuf ▸ h.byte, fun hpc => absurd hpc hchecking, fun hpc => absurd hpc hstarted⟩

theorem Drift.checking {pc pc' : ParentPc} (h : Drift pc pc') (hpc : pc' = .checking) :
    pc = .checking := by
  cases h <;> first | exact hpc | cases hpc

theorem Drift.triggered {pc pc' : ParentPc} (h : Drift pc pc') (hpc : pc' = .triggered 0) :
    pc = .triggered 0 := by
  cases h <;> first | exact hpc | cases hpc

theorem Answered.parentMove {s s' : Handshake} {a : ParentAct} (h : Answered s)
    (hsound : Sound s) (hends : EndsSound s) (hm : ParentMove s a s') : Answered s' := by
  cases hm with
  | drift hf hd =>
    refine ⟨hf.trig ▸ h.byte, fun hpc => ?_, fun hpc => ?_⟩
    · rw [hf.log, hf.child, hf.exec]
      exact h.pending (hd.checking hpc)
    · rw [hf.log]
      exact h.started (hd.triggered hpc)
  | trigger hpc hreader =>
    have hat := hsound.ordered.parent
    rw [hpc] at hat
    have hfour : s.log.length = 4 := hat
    refine ⟨fun b hb => ?_, fun _ => .inr (.inl ?_), fun hp => (by cases hp)⟩
    · rcases List.mem_append.mp hb with hold | hnew
      · exact h.byte b hold
      · exact List.mem_singleton.mp hnew
    · -- the write went through, so the child is at its read
      obtain ⟨i, hi⟩ := hreader
      cases i with
      | parent =>
        have hearly := hends.parentRead hi
        rw [hpc] at hearly
        cases hearly
      | child =>
        show s.child.Starting
        rw [hends.childRead hi (by omega)]
        trivial
  | succeed hpc heof =>
    refine ⟨h.byte, fun hp => (by cases hp), fun _ => ?_⟩
    rcases h.pending hpc with hexecuted | hstarting | herror
    · exact hexecuted
    · have hopen := hends.exec hstarting.holding
      rw [heof.2 .child] at hopen
      cases hopen
    · exact absurd heof.1 herror
  | _ => exact h.outside rfl (by simp) (by simp)

/-- The parent is where it was, and no error is taken out of the exec pipe. -/
theorem Answered.child {s s' : Handshake} (h : Answered s) (hparent : s'.parent = s.parent)
    (hlog : s.log ⊆ s'.log) (hbyte : s'.trig.buf ⊆ s.trig.buf)
    (hexec : s.exec.buf ≠ [] → s'.exec.buf ≠ [])
    (hstarting : s.parent = .checking → s.child.Starting →
      .executed ∈ s'.log ∨ s'.child.Starting ∨ s'.exec.buf ≠ []) : Answered s' := by
  refine ⟨fun b hb => h.byte b (hbyte hb), fun hpc => ?_, fun hpc => ?_⟩
  · have hpc : s.parent = .checking := hparent ▸ hpc
    rcases h.pending hpc with hexecuted | hs | herror
    · exact .inl (hlog hexecuted)
    · exact hstarting hpc hs
    · exact .inr (.inr (hexec herror))
  · exact hlog (h.started (hparent ▸ hpc))

/-- The trigger has been written when the parent waits for the verdict. -/
theorem Sound.checking {s : Handshake} (h : Sound s) (hpc : s.parent = .checking) :
    .trigger ∈ s.log := by
  have hat := h.ordered.parent
  rw [hpc] at hat
  have hfive : 5 ≤ s.log.length := hat
  rw [h.ordered.log]
  exact List.take_subset_take_left protocol hfive (by decide)

theorem ChildDrift.starting {pc pc' : ChildPc} (h : ChildDrift pc pc') (hpc : pc.Starting) :
    pc' = pc := by
  cases h <;> first | rfl | cases hpc

theorem Answered.childMove {s s' : Handshake} {a : ChildAct} (h : Answered s) (hsound : Sound s)
    (hends : EndsSound s) (hok : Undisturbed s (.child a)) (hm : ChildMove s a s') :
    Answered s' := by
  -- out of the three places the child only gets by `execvp` or an error
  have hout : ∀ {pc : ChildPc} {P : Prop}, s.child = pc → ¬ pc.Starting → s.child.Starting → P :=
    fun hpc hnot hs => absurd (hpc ▸ hs) hnot
  cases hm with
  | drift hf hd =>
    refine h.child hf.parent (by rw [hf.log]; exact fun _ => id) (by rw [hf.trig]; exact fun _ => id)
      (by rw [hf.exec]; exact id) fun _ hs => .inr (.inl ?_)
    rw [hd.starting hs]
    exact hs
  | die hf hpc' hclosed =>
    refine h.child hf.parent (by rw [hf.log]; exact fun _ => id) (by rw [hf.trig]; exact fun _ => id)
      (by rw [hf.exec]; exact id) fun hpc hs => ?_
    exact absurd hs (hok (hsound.checking hpc))
  | receive hpc hk hlt =>
    exact h.child rfl (fun _ => id) (fun _ => id) id fun _ => hout hpc id
  | token hpc hk hfull hpc' =>
    exact h.child rfl (fun _ => id) (fun _ => id) id fun _ => hout hpc id
  | report hpc => exact h.child rfl (fun _ => id) (fun _ => id) id fun _ => hout hpc id
  | garbled hpc hlt => exact h.child rfl (fun _ => id) (fun _ => id) id fun _ => hout hpc id
  | announced hpc =>
    exact h.child rfl (List.subset_append_left _ _) (fun _ => id) id fun _ => hout hpc id
  | trigger hpc hbuf hpc' =>
    refine h.child rfl (fun _ => id) (List.drop_subset 1 _) id fun _ _ => ?_
    rcases hpc' with ⟨-, rfl⟩ | ⟨hno, -⟩
    · exact .inr (.inl trivial)
    · -- the only byte there is
      obtain ⟨b, bs, hcons⟩ := List.exists_cons_of_ne_nil hbuf
      have hyes : b = yes := h.byte b (by rw [hcons]; exact List.mem_cons_self)
      refine absurd ?_ hno
      rw [Pipe.read, hcons, hyes]
      rfl
  | noTrigger hpc ha =>
    refine h.child rfl (fun _ => id) (fun _ => id) id fun hchecking hs => ?_
    rcases ha with ⟨-, heof⟩ | ⟨e, rfl⟩
    · have hopen := hends.trig hs.holding
      rw [heof.2 .child] at hopen
      cases hopen
    · have hlaunching := hok (hsound.checking hchecking) hs
      rw [hpc] at hlaunching
      cases hlaunching
  | executed hpc =>
    refine h.child rfl ?_ (fun _ => id) id fun _ _ => .inl ?_
    · show s.log ⊆ s.log ++ [.execvp] ++ [.executed]
      rw [List.append_assoc]
      exact List.subset_append_left _ _
    · exact List.mem_append_right _ List.mem_cons_self
  | execFailed e hpc =>
    exact h.child rfl (List.subset_append_left _ _) (fun _ => id) id fun _ _ => .inr (.inl trivial)
  | @errno e k hpc hpos =>
    have hne : s.exec.buf ++ (intBytes e).take k ≠ [] := by
      obtain ⟨k, rfl⟩ := Nat.exists_eq_succ_of_ne_zero (Nat.pos_iff_ne_zero.mp hpos)
      simp [intBytes]
    exact h.child rfl (fun _ => id) (fun _ => id) (fun _ => hne) fun _ _ => .inr (.inr hne)
  | noErrno hpc =>
    refine h.child rfl (fun _ => id) (fun _ => id) id fun hchecking hs => ?_
    have hlaunching := hok (hsound.checking hchecking) hs
    rw [hpc] at hlaunching
    cases hlaunching

theorem Answered.step {s s' : Handshake} {a : Act} (h : Answered s) (hsound : Sound s)
    (hends : EndsSound s) (hok : Undisturbed s a) (hs : handshakeStep s a = some s') :
    Answered s' := by
  cases a with
  | parent a => exact h.parentMove hsound hends (parentStep_move hs)
  | child a => exact h.childMove hsound hends hok (childStep_move hs)

/-- **A start that is reported has executed its command**, along every run in
which nothing happens to the child between the trigger and the end of `execvp`. -/
theorem trigger_verdict {as : List Act} {s : Handshake}
    (hrun : RunOk handshakeStep Undisturbed .init as s) :
    s.parent = .triggered 0 → .executed ∈ s.log := by
  have hinv : Sound s ∧ EndsSound s ∧ Answered s := by
    refine hrun.invariant (I := fun s => Sound s ∧ EndsSound s ∧ Answered s) ?_
      ⟨sound_init, endsSound_init, answered_init⟩
    intro s a s' ⟨hsound, hends, hanswered⟩ hok hs
    exact ⟨hsound.step hs, hends.step hsound hs, hanswered.step hsound hends hok hs⟩
  exact hinv.2.2.started

theorem trigger_verdict_wholeStart :
    ∃ s, RunOk handshakeStep Undisturbed .init wholeStart s ∧ s.parent = .triggered 0 ∧
      .executed ∈ s.log := by
  obtain ⟨s, hrun, hpc⟩ := exists_runOk_of_exec handshakeStep Undisturbed .init wholeStart
    (fun s => s.parent = .triggered 0) (by decide +kernel)
  exact ⟨s, hrun, hpc, trigger_verdict hrun hpc⟩

/-- Killed after the trigger: the child has not called `execvp`, and the verdict
is a success. -/
theorem killed_child_started :
    ∃ s, Runs handshakeStep .init
        (wholeStart.take 22 ++ [.child .die, .parent .eof]) s ∧
      s.parent = .triggered 0 ∧ .execvp ∉ s.log :=
  exists_runOk_of_exec handshakeStep (fun _ _ => True) .init _
    (fun s => s.parent = .triggered 0 ∧ .execvp ∉ s.log) (by decide +kernel)

end ContainerSim.Namespace
