import ContainerSim.Runtime.Ops

/-!
# What an operation adds to the trace

The trace only grows. `Appends P w w'` says that what was added are effects
that `P` allows; any reading of the trace that does not see such effects is the
same before and after. The helpers that several operations share are described
once in these terms.
-/

namespace ContainerSim.Runtime

open Lib Sched

/-- `w'` has the trace of `w` and then only effects that `P` allows. -/
def Appends (P : Effect → Prop) (w w' : World) : Prop :=
  ∃ es, w'.trace = w.trace ++ es ∧ ∀ e ∈ es, P e

variable {P : Effect → Prop} {w w' w'' : World}

theorem Appends.of_trace_eq (h : w'.trace = w.trace) : Appends P w w' :=
  ⟨[], by rw [h, List.append_nil], by simp⟩

theorem Appends.refl (w : World) : Appends P w w := .of_trace_eq rfl

theorem Appends.trans (h : Appends P w w') (h' : Appends P w' w'') : Appends P w w'' := by
  obtain ⟨es, htrace, hes⟩ := h
  obtain ⟨es', htrace', hes'⟩ := h'
  refine ⟨es ++ es', by rw [htrace', htrace, List.append_assoc], fun e he => ?_⟩
  rcases List.mem_append.mp he with he | he
  · exact hes e he
  · exact hes' e he

theorem Appends.emit (w : World) {e : Effect} (he : P e) : Appends P w (w.emit e) :=
  ⟨[e], rfl, by simpa using he⟩

theorem Appends.emit_if (p : Prop) [Decidable p] (w : World) {e : Effect} (he : P e) :
    Appends P w (if p then w.emit e else w) := by
  split
  · exact .emit w he
  · exact .refl w

theorem Appends.mono {Q : Effect → Prop} (h : Appends P w w') (hpq : ∀ e, P e → Q e) :
    Appends Q w w' := by
  obtain ⟨es, htrace, hes⟩ := h
  exact ⟨es, htrace, fun e he => hpq e (hes e he)⟩

/-- A selection that does not see the added effects. -/
theorem Appends.filterMap_eq {β : Type} {f : Effect → Option β} (h : Appends P w w')
    (hf : ∀ e, P e → f e = none) : w'.trace.filterMap f = w.trace.filterMap f := by
  obtain ⟨es, htrace, hes⟩ := h
  have hnone : es.filterMap f = [] := List.filterMap_eq_nil_iff.mpr fun e he => hf e (hes e he)
  rw [htrace, List.filterMap_append, hnone, List.append_nil]

/-- An account that the added effects do not change. -/
theorem Appends.foldl_eq {β : Type} {f : β → Effect → β} (h : Appends P w w')
    (hf : ∀ b e, P e → f b e = b) (b : β) : w'.trace.foldl f b = w.trace.foldl f b := by
  obtain ⟨es, htrace, hes⟩ := h
  rw [htrace, List.foldl_append]
  clear htrace
  generalize w.trace.foldl f b = b'
  induction es with
  | nil => rfl
  | cons e es ih =>
    rw [List.foldl_cons, hf b' e (hes e List.mem_cons_self)]
    exact ih fun e he => hes e (List.mem_cons_of_mem _ he)

/-! ## The helpers -/

/-- A change to the network of the host. -/
def Effect.OfNetwork : Effect → Prop
  | .setupVeth _ | .teardownVeth _ | .addPortForward _ _ | .delPortForward _ _ => True
  | _ => False

/-- A step towards the end of a process. -/
def Effect.OfEnding (pid : Int) : Effect → Prop
  | .signal p sig => p = pid ∧ (sig = .term ∨ sig = .kill)
  | .reaped p | .foundDead p => p = pid
  | _ => False

theorem delPortForwards_appends (ip : Bytes) (pms : List PortMapping) (w : World) :
    Appends Effect.OfNetwork w (delPortForwards ip pms w) := by
  unfold delPortForwards
  induction pms generalizing w with
  | nil => exact .refl w
  | cons pm pms ih => exact (Appends.emit w trivial).trans (ih _)

theorem cleanupContainerNetwork_appends (c : Container) (w : World) :
    Appends Effect.OfNetwork w (cleanupContainerNetwork c w).2 := by
  have hrules : Appends Effect.OfNetwork w
      (if c.ipAddress ≠ [] then delPortForwards c.ipAddress c.portMaps w else w) := by
    split
    · exact delPortForwards_appends _ _ w
    · exact .refl w
  unfold cleanupContainerNetwork
  simp only
  split
  · exact hrules.trans (.emit _ trivial)
  · exact hrules

theorem containerNetSetup_appends (o : NetOutcome) (c : Container) (w : World) :
    Appends Effect.OfNetwork w (containerNetSetup o c w).2.1 := by
  unfold containerNetSetup
  simp only
  split
  · exact .refl w
  split
  · exact .refl w
  · cases halloc : bridgeAllocIp w with
    | none => exact .refl w
    | some r =>
      obtain ⟨ip, w'⟩ := r
      have htrace : w'.trace = w.trace := by
        unfold bridgeAllocIp at halloc
        split at halloc
        · cases halloc
        · simp only [Option.some.injEq, Prod.mk.injEq] at halloc
          rw [← halloc.2]
      simp only
      split
      · exact .of_trace_eq htrace
      · exact (Appends.of_trace_eq htrace).trans (.emit _ trivial)

theorem addPortForwards_appends (ok : Nat → Bool) (ip : Bytes) (i : Nat) (pms : List PortMapping)
    (w : World) : Appends Effect.OfNetwork w (addPortForwards ok ip i pms w).1 := by
  induction pms generalizing i w with
  | nil => exact .refl w
  | cons pm pms ih =>
    rw [addPortForwards]
    split
    · exact (Appends.emit w trivial).trans (ih _ _)
    · exact .refl w

theorem stopSignals_appends (o : StopOutcome) (timeoutS pid : Int) (w : World) :
    Appends (Effect.OfEnding pid) w (stopSignals o timeoutS pid w).1 := by
  have hterm : Appends (Effect.OfEnding pid) w
      (if o.term then w.emit (.signal pid .term) else w) := .emit_if _ w ⟨rfl, .inl rfl⟩
  unfold stopSignals
  simp only
  generalize (if o.term then w.emit (.signal pid .term) else w) = w₁ at hterm ⊢
  cases termPhase o timeoutS with
  | some status => exact hterm.trans (.emit _ rfl)
  | none =>
    have hkill : Appends (Effect.OfEnding pid) w₁
        (if o.kill = .ok then w₁.emit (.signal pid .kill) else w₁) :=
      .emit_if _ w₁ ⟨rfl, .inr rfl⟩
    simp only [killPhase]
    generalize (if o.kill = .ok then w₁.emit (.signal pid .kill) else w₁) = w₂ at hkill ⊢
    split
    · exact hterm.trans hkill
    · cases o.finalWait with
      | reaped status => exact (hterm.trans hkill).trans (.emit _ rfl)
      | echild => exact (hterm.trans hkill).trans (.emit _ rfl)
      | nothing => exact hterm.trans hkill
      | eintr => exact hterm.trans hkill
      | error => exact hterm.trans hkill

end ContainerSim.Runtime
