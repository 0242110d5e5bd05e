import ContainerSim.Namespace.Moves

/-!
# The order of the handshake

The milestones are passed in one order only (`protocol`): each place of either
program belongs to a stretch of it. That the child has the whole token when it
goes on, and that a status read as ready is one the child wrote, follows from
the bytes: what has been taken out of a pipe and what is still in it is what was
written.
-/

namespace ContainerSim.Namespace

open Lib Handshake

/-- The only order in which milestones are passed. -/
def protocol : List Milestone :=
  [.network, .token, .announced, .ready, .trigger, .execvp, .executed]

/-! ## Places and milestones -/

/-- How many milestones have been passed when the parent is here. -/
def ParentPc.At : ParentPc → Nat → Prop
  | .opening, n | .closing, n | .mapping, n | .networking, n | .refused, n => n = 0
  | .sending _ _, n => n = 1
  | .sent, n | .receiving _, n => n = 2 ∨ n = 3
  | .abandoning, n | .killing, n | .waiting, n | .failed, n => n ≤ 3
  | .started, n => n = 4
  | .checking, n => 5 ≤ n
  | .triggered _, n => 4 ≤ n
  | .dead, _ => True

/-- How many when the child is here. -/
def ChildPc.At : ChildPc → Nat → Prop
  | .reading _, n | .reporting _, n => n ≤ 2
  | .setup _, n | .announcing, n => n = 2
  | .awaiting, n => 2 ≤ n ∧ n ≤ 5
  | .launching, n => n = 5
  | .execFailed _, n => n = 6
  | .command, n => n = 7
  | .unborn, _ | .exiting, _ | .zombie, _ | .reaped, _ => True

theorem Drift.at {pc pc' : ParentPc} (h : Drift pc pc') {n : Nat} (hn : pc.At n) : pc'.At n := by
  cases h <;> simp only [ParentPc.At] at hn ⊢ <;> omega

theorem ChildDrift.at {pc pc' : ChildPc} (h : ChildDrift pc pc') {n : Nat} (hn : pc.At n) :
    pc'.At n := by
  cases h <;> simp only [ChildPc.At] at hn ⊢ <;> omega

/-- The child stays where it is when the parent passes one of its milestones. -/
theorem ChildPc.At.next {pc : ChildPc} {n : Nat} (h : pc.At n)
    (hn : n = 0 ∨ n = 1 ∨ n = 3 ∨ n = 4) : pc.At (n + 1) := by
  cases pc <;> simp only [ChildPc.At] at h ⊢ <;> omega

/-- The parent stays where it is when the child passes one of its milestones. -/
theorem ParentPc.At.next {pc : ParentPc} {n : Nat} (h : pc.At n)
    (hn : n = 2 ∨ n = 5 ∨ n = 6) : pc.At (n + 1) := by
  cases pc <;> simp only [ParentPc.At] at h ⊢ <;> omega

/-- The milestones passed are the first ones. -/
structure Ordered (s : Handshake) : Prop where
  log : s.log = protocol.take s.log.length
  parent : s.parent.At s.log.length
  child : s.child.At s.log.length
  trigger : s.trig.buf ≠ [] → 5 ≤ s.log.length

/-- A milestone is passed. -/
theorem Ordered.pass {s s' : Handshake} {e : Milestone} (h : Ordered s)
    (hlog : s'.log = s.log ++ [e]) (he : protocol[s.log.length]? = some e)
    (hparent : s'.parent.At (s.log.length + 1)) (hchild : s'.child.At (s.log.length + 1))
    (htrig : s'.trig.buf ≠ [] → 4 ≤ s.log.length) : Ordered s' := by
  have hlen : s'.log.length = s.log.length + 1 := by rw [hlog, List.length_append]; rfl
  refine ⟨?_, hlen ▸ hparent, hlen ▸ hchild, fun hne => ?_⟩
  · rw [hlen, hlog, List.take_add_one, ← h.log, he]
    rfl
  · have h4 := htrig hne
    omega

/-- No milestone is passed. -/
theorem Ordered.move {s s' : Handshake} (h : Ordered s) (hlog : s'.log = s.log)
    (hparent : s'.parent.At s.log.length) (hchild : s'.child.At s.log.length)
    (htrig : s'.trig.buf ≠ [] → s.trig.buf ≠ []) : Ordered s' :=
  ⟨hlog ▸ h.log, hlog ▸ hparent, hlog ▸ hchild, fun hne => hlog ▸ h.trigger (htrig hne)⟩

/-! ## The token -/

/-- What the parent has written of the token. -/
def ParentPc.delivered : ParentPc → Option Nat
  | .opening | .closing | .mapping | .networking => some 0
  | .sending _ total => some total
  | _ => none

/-- What the child has read and what it can still read is what was written, and
not the whole token before that is written. -/
structure TokenSound (s : Handshake) : Prop where
  fresh : s.parent = .opening → s.cont.buf = []
  sum : ∀ got, s.child = .reading got → ∀ k, s.parent.delivered = some k →
    got.length + s.cont.buf.length = k
  part : ∀ got, s.child = .reading got → s.log.length < 2 →
    got.length + s.cont.buf.length < tokenSize

theorem Drift.delivered {pc pc' : ParentPc} (h : Drift pc pc') {k : Nat}
    (hk : pc'.delivered = some k) : pc.delivered = some k := by
  cases h <;> first | exact hk | cases hk

/-! ## The status -/

/-- What the parent has read of the status, as long as it listens. -/
def ParentPc.heard : ParentPc → Option Bytes
  | .opening | .closing | .mapping | .networking | .sending _ _ | .sent => some []
  | .receiving got => some got
  | _ => none

/-- The child has not written its status. -/
def ChildPc.Mute : ChildPc → Prop
  | .unborn | .reading _ | .setup _ | .reporting _ | .announcing => True
  | _ => False

/-- A status whose `ready` is not 0. -/
def SaysReady (b : Bytes) : Prop := statusSize ≤ b.length ∧ ¬ NotReady b

/-- Nothing is read or to be read before the child writes, and no ready status
before it has written one. -/
structure StatusSound (s : Handshake) : Prop where
  fresh : s.parent = .opening → s.status.buf = []
  silent : ∀ g, s.parent.heard = some g → s.child.Mute → g ++ s.status.buf = []
  quiet : ∀ g, s.parent.heard = some g → s.log.length ≤ 2 → ¬ SaysReady (g ++ s.status.buf)

theorem Drift.heard {pc pc' : ParentPc} (h : Drift pc pc') {g : Bytes}
    (hg : pc'.heard = some g) : pc.heard = some g := by
  cases h <;> first | exact hg | cases hg

theorem ChildDrift.mute {pc pc' : ChildPc} (h : ChildDrift pc pc') (hm : pc'.Mute) : pc.Mute := by
  cases h <;> first | exact hm | exact trivial

/-- An error status does not say ready, however much of it is written. -/
theorem not_saysReady_error (e pid : UInt32) (k : Nat) :
    ¬ SaysReady ((statusBytes 0 e pid).take k) := by
  rintro ⟨hlen, hready⟩
  have hk : statusSize ≤ k := by
    rw [List.length_take] at hlen
    omega
  apply hready
  rw [List.take_of_length_le (by rw [statusBytes_length]; exact hk)]
  rfl

theorem not_saysReady_short {b : Bytes} (h : b.length < statusSize) : ¬ SaysReady b :=
  fun hs => absurd hs.1 (Nat.not_le.mpr h)

/-- What says ready in its first bytes says ready. -/
theorem saysReady_append {b c : Bytes} (hfull : statusSize ≤ b.length) (hready : ¬ NotReady b) :
    SaysReady (b ++ c) := by
  refine ⟨by rw [List.length_append]; omega, ?_⟩
  unfold NotReady at hready ⊢
  rw [List.take_append_of_le_length (by unfold statusSize at hfull; omega)]
  exact hready

/-! ## Steps -/

/-- The whole invariant. -/
structure Sound (s : Handshake) : Prop where
  born : s.parent = .opening → s.child = .unborn
  ordered : Ordered s
  token : TokenSound s
  status : StatusSound s

theorem sound_init : Sound .init where
  born := fun _ => rfl
  ordered := ⟨rfl, rfl, trivial, fun h => absurd rfl h⟩
  token := ⟨fun _ => rfl, fun got h => (by cases h), fun got h => (by cases h)⟩
  status := by
    refine ⟨fun _ => rfl, fun g hg _ => ?_, fun g hg _ => ?_⟩
    · cases hg
      rfl
    · cases hg
      exact not_saysReady_short (by decide)

/-- A status that was read as ready is the child's ready status. -/
theorem Sound.ready {s : Handshake} (h : Sound s) {got : Bytes} {k : Nat}
    (hpc : s.parent = .receiving got)
    (hfull : statusSize ≤ (got ++ (s.status.read k).1).length)
    (hready : ¬ NotReady (got ++ (s.status.read k).1)) : s.log.length = 3 := by
  have hat := h.ordered.parent
  rw [hpc] at hat
  rcases hat with h2 | h3
  · exfalso
    refine h.status.quiet got (by rw [hpc]; rfl) (by omega) ?_
    rw [← Pipe.read_buf s.status k, ← List.append_assoc]
    exact saysReady_append hfull hready
  · exact h3

/-- The child has read a whole token only after the parent has written one. -/
theorem Sound.token_read {s : Handshake} (h : Sound s) {got : Bytes} {k : Nat}
    (hpc : s.child = .reading got) (hk : k ≤ s.cont.buf.length)
    (hfull : tokenSize ≤ (got ++ (s.cont.read k).1).length) : s.log.length = 2 := by
  have hat := h.ordered.child
  rw [hpc] at hat
  have hle : s.log.length ≤ 2 := hat
  by_contra hne
  have hpart := h.token.part got hpc (by omega)
  rw [List.length_append, Pipe.read_length hk] at hfull
  omega

theorem Sound.parent_ordered {s s' : Handshake} {a : ParentAct} (h : Sound s)
    (hm : ParentMove s a s') : Ordered s' := by
  have ho := h.ordered
  have hparent := ho.parent
  have hchild := ho.child
  have htrig : s.trig.buf ≠ [] → 4 ≤ s.log.length := fun hne => by
    have h5 := ho.trigger hne
    omega
  -- the parent only passes a milestone when the child is where it waits for it
  cases hm with
  | clone hpc =>
    rw [hpc] at hparent
    have hzero : s.log.length = 0 := hparent
    exact ho.move rfl hzero (show s.log.length ≤ 2 by omega) id
  | close hpc =>
    rw [hpc] at hparent
    exact ho.move rfl hparent hchild id
  | drift hf hd =>
    exact ho.move hf.log (hd.at hparent) (hf.child ▸ hchild) fun hne => hf.trig ▸ hne
  | network cfg hpc =>
    rw [hpc] at hparent
    have hzero : s.log.length = 0 := hparent
    exact ho.pass rfl (by rw [hzero]; rfl) (show s.log.length + 1 = 1 by omega)
      (hchild.next (.inl hzero)) htrig
  | send hpc hlt =>
    rw [hpc] at hparent
    exact ho.move rfl hparent hchild id
  | sent hpc heq =>
    rw [hpc] at hparent
    have hone : s.log.length = 1 := hparent
    exact ho.pass rfl (by rw [hone]; rfl) (.inl (by omega)) (hchild.next (.inr (.inl hone))) htrig
  | receive hpc =>
    rw [hpc] at hparent
    exact ho.move rfl hparent hchild id
  | notReady hpc =>
    rw [hpc] at hparent
    have hle : s.log.length ≤ 3 := by
      rcases hparent with h2 | h3 <;> omega
    exact ho.move rfl hle hchild id
  | ready hpc hfull hready =>
    have hthree := h.ready hpc hfull hready
    exact ho.pass rfl (by rw [hthree]; rfl) (show s.log.length + 1 = 4 by omega)
      (hchild.next (.inr (.inr (.inl hthree)))) htrig
  | reap hpc hzombie =>
    rw [hpc] at hparent
    exact ho.move rfl hparent trivial id
  | interrupted hpc =>
    rw [hpc] at hparent
    exact ho.move rfl hparent hchild id
  | trigger hpc hreader =>
    rw [hpc] at hparent
    have hfour : s.log.length = 4 := hparent
    exact ho.pass rfl (by rw [hfour]; rfl) (show 5 ≤ s.log.length + 1 by omega)
      (hchild.next (.inr (.inr (.inr hfour)))) fun _ => by omega
  | errno hpc =>
    rw [hpc] at hparent
    have hfive : 5 ≤ s.log.length := hparent
    exact ho.move rfl (show 4 ≤ s.log.length by omega) hchild id
  | succeed hpc heof =>
    rw [hpc] at hparent
    have hfive : 5 ≤ s.log.length := hparent
    exact ho.move rfl (show 4 ≤ s.log.length by omega) hchild id

theorem Sound.child_ordered {s s' : Handshake} {a : ChildAct} (h : Sound s)
    (hm : ChildMove s a s') : Ordered s' := by
  have ho := h.ordered
  have hparent := ho.parent
  have hchild := ho.child
  cases hm with
  | drift hf hd =>
    exact ho.move hf.log (hf.parent ▸ hparent) (hd.at hchild) fun hne => hf.trig ▸ hne
  | die hf hpc' hread =>
    refine ho.move hf.log (hf.parent ▸ hparent) ?_ fun hne => hf.trig ▸ hne
    rw [hpc']
    trivial
  | receive hpc hk hlt =>
    rw [hpc] at hchild
    exact ho.move rfl hparent hchild id
  | token hpc hk hfull hpc' =>
    have htwo := h.token_read hpc hk hfull
    refine ho.move rfl hparent ?_ id
    rcases hpc' with rfl | rfl
    · exact htwo
    · show s.log.length ≤ 2
      omega
  | report hpc => exact ho.move rfl hparent trivial id
  | garbled hpc hlt =>
    rw [hpc] at hchild
    have htwo : s.log.length = 2 := hchild
    exact ho.move rfl hparent (show 2 ≤ s.log.length ∧ s.log.length ≤ 5 by omega) id
  | announced hpc =>
    rw [hpc] at hchild
    have htwo : s.log.length = 2 := hchild
    refine ho.pass rfl (by rw [htwo]; rfl) (hparent.next (.inl htwo))
      (show 2 ≤ s.log.length + 1 ∧ s.log.length + 1 ≤ 5 by omega) fun hne => ?_
    have h5 := ho.trigger hne
    omega
  | trigger hpc hbuf hpc' =>
    rw [hpc] at hchild
    have hle : 2 ≤ s.log.length ∧ s.log.length ≤ 5 := hchild
    have h5 := ho.trigger hbuf
    refine ho.move rfl hparent ?_ fun _ => hbuf
    rcases hpc' with ⟨-, rfl⟩ | ⟨-, rfl⟩
    · show s.log.length = 5
      omega
    · trivial
  | noTrigger hpc ha => exact ho.move rfl hparent trivial id
  | executed hpc =>
    rw [hpc] at hchild
    have hfive : s.log.length = 5 := hchild
    -- both milestones at once
    have hexecvp : Ordered { s.reach .execvp with child := .execFailed 0 } :=
      ho.pass rfl (by rw [hfive]; rfl) (hparent.next (.inr (.inl hfive)))
        (show s.log.length + 1 = 6 by omega) fun _ => by omega
    have hsix : (s.reach .execvp).log.length = 6 := by simp [Handshake.reach, hfive]
    refine hexecvp.pass rfl (by show protocol[(s.reach .execvp).log.length]? = _; rw [hsix]; rfl) ?_ ?_ fun _ => ?_
    · exact hexecvp.parent.next (.inr (.inr hsix))
    · show (s.reach .execvp).log.length + 1 = 7
      omega
    · show 4 ≤ (s.reach .execvp).log.length
      omega
  | execFailed e hpc =>
    rw [hpc] at hchild
    have hfive : s.log.length = 5 := hchild
    exact ho.pass rfl (by rw [hfive]; rfl) (hparent.next (.inr (.inl hfive)))
      (show s.log.length + 1 = 6 by omega) fun _ => by omega
  | errno hpc hpos => exact ho.move rfl hparent trivial id
  | noErrno hpc => exact ho.move rfl hparent trivial id

/-- Neither the token pipe nor the child's place in the token changes. -/
theorem TokenSound.keep {s s' : Handshake} (h : TokenSound s)
    (hopen : s'.parent = .opening → s.parent = .opening)
    (hdelivered : ∀ k, s'.parent.delivered = some k → s.parent.delivered = some k)
    (hchild : ∀ got, s'.child = .reading got → s.child = .reading got)
    (hbuf : s'.cont.buf = s.cont.buf) (hlog : s.log.length ≤ s'.log.length) : TokenSound s' := by
  refine ⟨fun hpc => ?_, fun got hgot k hk => ?_, fun got hgot hlt => ?_⟩
  · rw [hbuf]
    exact h.fresh (hopen hpc)
  · rw [hbuf]
    exact h.sum got (hchild got hgot) k (hdelivered k hk)
  · rw [hbuf]
    exact h.part got (hchild got hgot) (by omega)

theorem Drift.not_opening {pc pc' : ParentPc} (h : Drift pc pc') : pc' ≠ .opening := by
  cases h <;> first | assumption | simp

theorem Sound.parent_token {s s' : Handshake} {a : ParentAct} (h : Sound s)
    (hm : ParentMove s a s') : TokenSound s' := by
  have ht := h.token
  cases hm with
  | clone hpc =>
    -- the child begins to read with nothing in the pipe
    have hempty := ht.fresh hpc
    refine ⟨fun hp => (by cases hp), fun got hgot k hk => ?_, fun got hgot _ => ?_⟩
    · cases hgot
      cases hk
      show 0 + s.cont.buf.length = 0
      rw [hempty]
      rfl
    · cases hgot
      show 0 + s.cont.buf.length < tokenSize
      rw [hempty]
      decide
  | close hpc =>
    refine ht.keep (fun hp => by cases hp) (fun k hk => ?_) (fun _ hg => hg) rfl (Nat.le_refl _)
    rw [hpc]
    exact hk
  | drift hf hd =>
    exact ht.keep (fun hp => absurd hp hd.not_opening) (fun _ hk => hd.delivered hk) (fun _ hg => hf.child ▸ hg) hf.cont
      (by rw [hf.log])
  | network cfg hpc =>
    refine ht.keep (fun hp => by cases hp) (fun k hk => ?_) (fun _ hg => hg) rfl ?_
    · rw [hpc]
      exact hk
    · simp [Handshake.reach]
  | @send net total k hpc hlt =>
    -- what is sent is in the pipe or has been read: the sum grows by what is written
    have hwritten : (((continueToken yes net).drop total).take k).length = k := by
      rw [List.length_take, List.length_drop, continueToken_length]
      omega
    have hsum : ∀ got, s.child = .reading got → got.length + s.cont.buf.length = total :=
      fun got hgot => ht.sum got hgot total (by rw [hpc]; rfl)
    refine ⟨fun hp => (by cases hp), fun got hgot j hj => ?_, fun got hgot _ => ?_⟩
    · cases hj
      have hold := hsum got hgot
      rw [Pipe.write_buf, List.length_append, hwritten]
      omega
    · have hold := hsum got hgot
      rw [Pipe.write_buf, List.length_append, hwritten]
      omega
  | sent hpc heq =>
    have hat := h.ordered.parent
    rw [hpc] at hat
    have hone : s.log.length = 1 := hat
    refine ⟨fun hp => (by cases hp), fun got hgot j hj => (by cases hj), fun got hgot hlt => ?_⟩
    -- the token is out, so the log is past the point where the sum is short
    have hlen : (s.log ++ [Milestone.token]).length < 2 := hlt
    rw [List.length_append, hone] at hlen
    exact absurd hlen (by decide)
  | receive hpc =>
    exact ht.keep (fun hp => by cases hp) (fun _ hk => by cases hk) (fun _ hg => hg) rfl
      (Nat.le_refl _)
  | notReady hpc =>
    exact ht.keep (fun hp => by cases hp) (fun _ hk => by cases hk) (fun _ hg => hg) rfl
      (Nat.le_refl _)
  | ready hpc hfull hready =>
    exact ht.keep (fun hp => by cases hp) (fun _ hk => by cases hk) (fun _ hg => hg) rfl
      (by simp [Handshake.reach])
  | reap hpc hzombie =>
    exact ht.keep (fun hp => by cases hp) (fun _ hk => by cases hk) (fun _ hg => by cases hg) rfl
      (Nat.le_refl _)
  | interrupted hpc =>
    exact ht.keep (fun hp => by cases hp) (fun _ hk => by cases hk) (fun _ hg => hg) rfl
      (Nat.le_refl _)
  | trigger hpc hreader =>
    exact ht.keep (fun hp => by cases hp) (fun _ hk => by cases hk) (fun _ hg => hg) rfl
      (by simp [Handshake.reach])
  | errno hpc =>
    exact ht.keep (fun hp => by cases hp) (fun _ hk => by cases hk) (fun _ hg => hg) rfl
      (Nat.le_refl _)
  | succeed hpc heof =>
    exact ht.keep (fun hp => by cases hp) (fun _ hk => by cases hk) (fun _ hg => hg) rfl
      (Nat.le_refl _)

/-- The child is done with the token. -/
theorem TokenSound.done {s s' : Handshake} (h : TokenSound s) (hparent : s'.parent = s.parent)
    (hbuf : s'.parent = .opening → s'.cont.buf = s.cont.buf)
    (hchild : ∀ got, s'.child ≠ .reading got) : TokenSound s' := by
  refine ⟨fun hpc => ?_, fun got hgot => absurd hgot (hchild got),
    fun got hgot => absurd hgot (hchild got)⟩
  rw [hbuf hpc]
  exact h.fresh (hparent ▸ hpc)

theorem ChildDrift.reading {pc pc' : ChildPc} (h : ChildDrift pc pc') {got : Bytes}
    (hpc : pc' = .reading got) : pc = .reading got := by
  cases h <;> first | exact hpc | cases hpc

theorem Sound.child_token {s s' : Handshake} {a : ChildAct} (h : Sound s)
    (hm : ChildMove s a s') : TokenSound s' := by
  have ht := h.token
  cases hm with
  | drift hf hd =>
    refine ht.keep (fun hp => hf.parent ▸ hp) (fun _ hk => hf.parent ▸ hk)
      (fun _ hg => hd.reading hg) hf.cont (by rw [hf.log])
  | die hf hpc' hread =>
    refine ht.done hf.parent (fun _ => hf.cont) fun got hgot => ?_
    rw [hpc'] at hgot
    cases hgot
  | @receive got k hpc hk hlt =>
    -- what the child takes out of the pipe it has: the sum stays
    have hread : ∀ n : Nat, (got ++ (s.cont.read k).1).length + (s.cont.read k).2.buf.length = n ↔
        got.length + s.cont.buf.length = n := by
      intro n
      have hlen := congrArg List.length (Pipe.read_buf s.cont k)
      rw [List.length_append] at hlen
      rw [List.length_append]
      omega
    refine ⟨fun hp => ?_, fun g hg j hj => ?_, fun g hg hlog => ?_⟩
    · have hempty := ht.fresh hp
      show s.cont.buf.drop k = []
      rw [hempty, List.drop_nil]
    · cases hg
      exact (hread j).mpr (ht.sum got hpc j hj)
    · cases hg
      have hold := ht.part got hpc hlog
      have hsame := (hread _).mpr rfl
      show _ + (s.cont.read k).2.buf.length < tokenSize
      omega
  | token hpc hk hfull hpc' =>
    refine ht.done rfl (fun hp => ?_) fun got hgot => ?_
    · show s.cont.buf.drop _ = s.cont.buf
      rw [ht.fresh hp, List.drop_nil]
    · rcases hpc' with rfl | rfl <;> cases hgot
  | report hpc => exact ht.done rfl (fun _ => rfl) fun got hgot => by cases hgot
  | garbled hpc hlt => exact ht.done rfl (fun _ => rfl) fun got hgot => by cases hgot
  | announced hpc => exact ht.done rfl (fun _ => rfl) fun got hgot => by cases hgot
  | trigger hpc hbuf hpc' =>
    refine ht.done rfl (fun _ => rfl) fun got hgot => ?_
    rcases hpc' with ⟨-, rfl⟩ | ⟨-, rfl⟩ <;> cases hgot
  | noTrigger hpc ha => exact ht.done rfl (fun _ => rfl) fun got hgot => by cases hgot
  | executed hpc => exact ht.done rfl (fun _ => rfl) fun got hgot => by cases hgot
  | execFailed e hpc => exact ht.done rfl (fun _ => rfl) fun got hgot => by cases hgot
  | errno hpc hpos => exact ht.done rfl (fun _ => rfl) fun got hgot => by cases hgot
  | noErrno hpc => exact ht.done rfl (fun _ => rfl) fun got hgot => by cases hgot

/-- Nothing is written to the status pipe, and nothing read. -/
theorem StatusSound.keep {s s' : Handshake} (h : StatusSound s)
    (hopen : s'.parent = .opening → s.parent = .opening)
    (hheard : ∀ g, s'.parent.heard = some g → s.parent.heard = some g)
    (hmute : s'.child.Mute → s.child.Mute) (hbuf : s'.status.buf = s.status.buf)
    (hlog : s.log.length ≤ s'.log.length) : StatusSound s' := by
  refine ⟨fun hpc => ?_, fun g hg hm => ?_, fun g hg hle => ?_⟩
  · rw [hbuf]
    exact h.fresh (hopen hpc)
  · rw [hbuf]
    exact h.silent g (hheard g hg) (hmute hm)
  · rw [hbuf]
    exact h.quiet g (hheard g hg) (by omega)

/-- The parent does not listen any more. -/
theorem statusSound_deaf {s : Handshake} (h : s.parent.heard = none) : StatusSound s := by
  refine ⟨fun hpc => ?_, fun g hg => ?_, fun g hg => ?_⟩
  · rw [hpc] at h
    cases h
  · rw [h] at hg
    cases hg
  · rw [h] at hg
    cases hg

theorem Sound.parent_status {s s' : Handshake} {a : ParentAct} (h : Sound s)
    (hm : ParentMove s a s') : StatusSound s' := by
  have hs := h.status
  cases hm with
  | clone hpc =>
    have hempty := hs.fresh hpc
    refine ⟨fun hp => (by cases hp), fun g hg _ => ?_, fun g hg _ => ?_⟩
    · cases hg
      exact hempty
    · cases hg
      refine not_saysReady_short ?_
      show s.status.buf.length < statusSize
      rw [hempty]
      decide
  | close hpc =>
    refine hs.keep (fun hp => by cases hp) (fun g hg => ?_) id rfl (Nat.le_refl _)
    rw [hpc]
    exact hg
  | drift hf hd =>
    exact hs.keep (fun hp => absurd hp hd.not_opening) (fun _ hg => hd.heard hg) (fun hm => hf.child ▸ hm) hf.status
      (by rw [hf.log])
  | network cfg hpc =>
    refine hs.keep (fun hp => by cases hp) (fun g hg => ?_) id rfl (by simp [Handshake.reach])
    rw [hpc]
    exact hg
  | send hpc hlt =>
    refine hs.keep (fun hp => by cases hp) (fun g hg => ?_) id rfl (Nat.le_refl _)
    rw [hpc]
    exact hg
  | sent hpc heq =>
    refine hs.keep (fun hp => by cases hp) (fun g hg => ?_) id rfl (by simp [Handshake.reach])
    rw [hpc]
    exact hg
  | @receive got k hpc =>
    -- the bytes go from the pipe to what has been heard
    have hread : (got ++ (s.status.read k).1) ++ (s.status.read k).2.buf = got ++ s.status.buf := by
      rw [List.append_assoc, Pipe.read_buf]
    refine ⟨fun hp => (by cases hp), fun g hg hm => ?_, fun g hg hle => ?_⟩
    · cases hg
      exact hread.trans (hs.silent got (by rw [hpc]; rfl) hm)
    · cases hg
      show ¬ SaysReady ((got ++ (s.status.read k).1) ++ (s.status.read k).2.buf)
      rw [hread]
      exact hs.quiet got (by rw [hpc]; rfl) hle
  | notReady hpc => exact statusSound_deaf rfl
  | ready hpc hfull hready => exact statusSound_deaf rfl
  | reap hpc hzombie => exact statusSound_deaf rfl
  | interrupted hpc => exact statusSound_deaf rfl
  | trigger hpc hreader => exact statusSound_deaf rfl
  | errno hpc => exact statusSound_deaf rfl
  | succeed hpc heof => exact statusSound_deaf rfl

/-- The child writes its one status. -/
theorem StatusSound.write {s s' : Handshake} (h : StatusSound s) {msg : Bytes}
    (hmute : s.child.Mute) (hmute' : ¬ s'.child.Mute) (hparent : s'.parent = s.parent)
    (hbuf : s'.status.buf = s.status.buf ++ msg) (hopen : s'.parent ≠ .opening)
    (hmsg : s'.log.length ≤ 2 → ¬ SaysReady msg) : StatusSound s' := by
  refine ⟨fun hp => absurd hp hopen, fun g _ hm => absurd hm hmute', fun g hg hle => ?_⟩
  have hempty := h.silent g (hparent ▸ hg) hmute
  obtain ⟨rfl, hnil⟩ := List.append_eq_nil_iff.mp hempty
  rw [hbuf, hnil]
  exact hmsg hle

theorem Sound.child_status {s s' : Handshake} {a : ChildAct} (h : Sound s)
    (hopen : s.parent ≠ .opening) (hm : ChildMove s a s') : StatusSound s' := by
  have hs := h.status
  have hchild := h.ordered.child
  cases hm with
  | drift hf hd =>
    exact hs.keep (fun hp => hf.parent ▸ hp) (fun _ hg => hf.parent ▸ hg) hd.mute hf.status
      (by rw [hf.log])
  | die hf hpc' hread =>
    refine hs.keep (fun hp => hf.parent ▸ hp) (fun _ hg => hf.parent ▸ hg) (fun hm => ?_) hf.status
      (by rw [hf.log])
    rw [hpc'] at hm
    cases hm
  | receive hpc hk hlt =>
    exact hs.keep id (fun _ hg => hg) (fun _ => by rw [hpc]; trivial) rfl (Nat.le_refl _)
  | token hpc hk hfull hpc' =>
    exact hs.keep id (fun _ hg => hg) (fun _ => by rw [hpc]; trivial) rfl (Nat.le_refl _)
  | report hpc =>
    exact hs.write (by rw [hpc]; trivial) id rfl rfl hopen fun _ => not_saysReady_error _ _ _
  | garbled hpc hlt =>
    refine hs.write (by rw [hpc]; trivial) id rfl rfl hopen fun _ => not_saysReady_short ?_
    rw [List.length_take]
    omega
  | announced hpc =>
    rw [hpc] at hchild
    -- the child announces itself behind the second milestone only
    have htwo : s.log.length = 2 := hchild
    refine hs.write (by rw [hpc]; trivial) id rfl rfl hopen fun hle => ?_
    have hlen : (s.log ++ [Milestone.announced]).length ≤ 2 := hle
    rw [List.length_append, htwo] at hlen
    exact absurd hlen (by decide)
  | trigger hpc hbuf hpc' =>
    refine hs.keep id (fun _ hg => hg) (fun hm => ?_) rfl (Nat.le_refl _)
    rcases hpc' with ⟨-, rfl⟩ | ⟨-, rfl⟩ <;> cases hm
  | noTrigger hpc ha =>
    exact hs.keep id (fun _ hg => hg) (fun hm => by cases hm) rfl (Nat.le_refl _)
  | executed hpc =>
    exact hs.keep id (fun _ hg => hg) (fun hm => by cases hm) rfl (by simp [Handshake.reach])
  | execFailed e hpc =>
    exact hs.keep id (fun _ hg => hg) (fun hm => by cases hm) rfl (by simp [Handshake.reach])
  | errno hpc hpos =>
    exact hs.keep id (fun _ hg => hg) (fun hm => by cases hm) rfl (Nat.le_refl _)
  | noErrno hpc =>
    exact hs.keep id (fun _ hg => hg) (fun hm => by cases hm) rfl (Nat.le_refl _)

/-- A child that is not there does nothing. -/
theorem childStep_gone {s : Handshake} (h : s.child.Gone) (a : ChildAct) :
    childStep s a = none := by
  cases hpc : s.child <;> rw [hpc] at h <;> first
    | exact absurd h id
    | cases a <;> simp [childStep, hpc, ChildPc.Gone]

theorem ParentMove.not_opening {s s' : Handshake} {a : ParentAct} (h : ParentMove s a s') :
    s'.parent ≠ .opening := by
  intro hpc
  cases h with
  | drift hf hd => exact hd.not_opening hpc
  | _ => cases hpc

theorem ChildMove.parent {s s' : Handshake} {a : ChildAct} (h : ChildMove s a s') :
    s'.parent = s.parent := by
  cases h with
  | drift hf hd => exact hf.parent
  | die hf => exact hf.parent
  | _ => rfl

theorem Sound.step {s s' : Handshake} {a : Act} (h : Sound s) (hs : handshakeStep s a = some s') :
    Sound s' := by
  cases a with
  | parent a =>
    have hm := parentStep_move hs
    exact ⟨fun hpc => absurd hpc hm.not_opening, h.parent_ordered hm, h.parent_token hm,
      h.parent_status hm⟩
  | child a =>
    have hstep : childStep s a = some s' := hs
    have hopen : s.parent ≠ .opening := by
      intro hpc
      rw [childStep_gone (by rw [h.born hpc]; trivial)] at hstep
      cases hstep
    have hm := childStep_move hstep
    refine ⟨fun hpc => ?_, h.child_ordered hm, h.child_token hm, h.child_status hopen hm⟩
    exact absurd (hm.parent ▸ hpc) hopen

/-! ## Runs -/

/-- Every run, whatever its steps answer. -/
theorem sound_of_run {ok : Handshake → Act → Prop} {as : List Act} {s : Handshake}
    (hrun : RunOk handshakeStep ok .init as s) : Sound s :=
  hrun.invariant (fun _ _ _ h _ hs => h.step hs) sound_init

/-- Before `execvp` all the other milestones were passed, in order. -/
theorem Sound.before_execvp {s : Handshake} (h : Sound s) (hex : .execvp ∈ s.log) :
    [.network, .token, .announced, .ready, .trigger, .execvp] <+: s.log := by
  have hlen : 6 ≤ s.log.length := by
    by_contra hlt
    rw [h.ordered.log] at hex
    have hmem := List.take_subset_take_left protocol (show s.log.length ≤ 5 by omega) hex
    exact absurd hmem (by decide)
  rw [h.ordered.log]
  show protocol.take 6 <+: _
  exact List.take_prefix_take_left hlen

/-- A start that has failed has not got as far as the trigger. -/
theorem Sound.failed {s : Handshake} (h : Sound s) (hpc : s.parent = .failed) :
    .execvp ∉ s.log := by
  intro hex
  have hat := h.ordered.parent
  rw [hpc] at hat
  have hle : s.log.length ≤ 3 := hat
  rw [h.ordered.log] at hex
  have hmem := List.take_subset_take_left protocol hle hex
  exact absurd hmem (by decide)

/-- No signal handler runs during the `waitpid` of a failed start. -/
def Uninterrupted (s : Handshake) : Act → Prop
  | .parent .intr => s.parent ≠ .waiting
  | _ => True

instance (s : Handshake) (a : Act) : Decidable (Uninterrupted s a) := by
  unfold Uninterrupted; split <;> infer_instance

/-- The child of a failed start has been reaped. -/
def Reaped (s : Handshake) : Prop := s.parent = .failed → s.child = .reaped

theorem Drift.failed {pc pc' : ParentPc} (h : Drift pc pc') (hpc : pc' = .failed) :
    pc = .failed := by
  cases h <;> first | exact hpc | cases hpc

theorem Reaped.step {s s' : Handshake} {a : Act} (h : Reaped s) (hok : Uninterrupted s a)
    (hs : handshakeStep s a = some s') : Reaped s' := by
  intro hpc'
  cases a with
  | parent a =>
    cases parentStep_move hs with
    | drift hf hd => exact hf.child.trans (h (hd.failed hpc'))
    | reap hpc hzombie => rfl
    | interrupted hpc => exact absurd hpc hok
    | _ => cases hpc'
  | child a =>
    have hstep : childStep s a = some s' := hs
    have hpc := (childStep_move hstep).parent.symm.trans hpc'
    rw [childStep_gone (by rw [h hpc]; trivial)] at hstep
    cases hstep

/-- **The startup handshake is safe** along every run in which no signal handler
interrupts `waitpid`: `execvp` is reached only after the network set-up, a whole
token, the child's ready status, read by the parent, and the trigger; and when
`namespace_start_container` has returned -1 after `clone`, the child has been
reaped and has not called it. -/
theorem handshake_safe {as : List Act} {s : Handshake}
    (hrun : RunOk handshakeStep Uninterrupted .init as s) :
    (.execvp ∈ s.log → [.network, .token, .announced, .ready, .trigger, .execvp] <+: s.log) ∧
    (s.parent = .failed → s.child = .reaped ∧ .execvp ∉ s.log) := by
  have hsound := sound_of_run hrun
  have hreaped : Reaped s :=
    hrun.invariant (fun _ _ _ h hok hs => h.step hok hs) fun hpc => by cases hpc
  exact ⟨hsound.before_execvp, fun hpc => ⟨hreaped hpc, hsound.failed hpc⟩⟩

/-- A start that goes through, with the token in two pieces. -/
def wholeStart : List Act :=
  [.parent .ok, .parent .ok, .parent .ok,
    .parent (.net ⟨.replicate 16 0, .replicate 16 0, .replicate 16 0⟩), .parent (.io 20),
    .child (.io 20), .parent .intr, .parent (.io 29), .parent .ok, .child (.io 29)] ++
  setupSteps.map (fun _ => .child .ok) ++
  [.child .ok, .child (.io 12), .parent (.io 12), .parent .ok, .child (.io 1), .child .ok,
    .parent .eof]

/-- The user namespace cannot be configured; the child is killed and reaped. -/
def failedStart : List Act :=
  [.parent .ok, .parent .ok, .parent .fail, .parent .ok, .child .die, .parent .ok]

theorem handshake_safe_starts :
    (∃ s, RunOk handshakeStep Uninterrupted .init wholeStart s ∧
      s.log = protocol ∧ [.network, .token, .announced, .ready, .trigger, .execvp] <+: s.log) ∧
    ∃ s, RunOk handshakeStep Uninterrupted .init failedStart s ∧
      s.parent = .failed ∧ s.child = .reaped ∧ .execvp ∉ s.log := by
  obtain ⟨s, hrun, hlog⟩ := exists_runOk_of_exec handshakeStep Uninterrupted .init wholeStart
    (fun s => s.log = protocol) (by decide +kernel)
  obtain ⟨s', hrun', hfailed⟩ := exists_runOk_of_exec handshakeStep Uninterrupted .init failedStart
    (fun s => s.parent = .failed) (by decide +kernel)
  refine ⟨⟨s, hrun, hlog, (handshake_safe hrun).1 (by rw [hlog]; decide)⟩, s', hrun', hfailed, ?_⟩
  exact (handshake_safe hrun').2 hfailed

/-- A signal during the `waitpid`: the start has failed, and the child is there. -/
theorem interrupted_start_not_reaped :
    ∃ s, Runs handshakeStep .init
        [.parent .ok, .parent .ok, .parent .fail, .parent .ok, .child .die, .parent .intr] s ∧
      s.parent = .failed ∧ s.child = .zombie :=
  exists_runOk_of_exec handshakeStep (fun _ _ => True) .init _
    (fun s => s.parent = .failed ∧ s.child = .zombie) (by decide +kernel)

end ContainerSim.Namespace
