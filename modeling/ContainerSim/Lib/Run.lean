import Mathlib.Data.List.Induction
import Mathlib.Tactic.Common

/-!
# Runs of a step function

A system is a partial step function on states and labels. `RunOk step ok` are
the finite runs in which every step is taken in a state where `ok` allows it;
`Runs step` puts no condition on the steps. An invariant is proved once per
step and holds along the run (`RunOk.invariant`).
-/

namespace ContainerSim.Lib

variable {σ α : Type*}

/-- Runs from a state by a list of labels, with `ok` met before every step. -/
inductive RunOk (step : σ → α → Option σ) (ok : σ → α → Prop) : σ → List α → σ → Prop
  | nil (s : σ) : RunOk step ok s [] s
  | snoc {s s' s'' : σ} {as : List α} {a : α} : RunOk step ok s as s' → ok s' a →
      step s' a = some s'' → RunOk step ok s (as ++ [a]) s''

/-- Runs without a condition on the steps. -/
abbrev Runs (step : σ → α → Option σ) : σ → List α → σ → Prop :=
  RunOk step fun _ _ => True

variable {step : σ → α → Option σ} {ok : σ → α → Prop}

/-- What holds at the start and is kept by every allowed step holds at the end. -/
theorem RunOk.invariant {I : σ → Prop}
    (hstep : ∀ s a s', I s → ok s a → step s a = some s' → I s')
    {s s' : σ} {as : List α} (hrun : RunOk step ok s as s') (h0 : I s) : I s' := by
  induction hrun with
  | nil => exact h0
  | snoc _ hok hs ih => exact hstep _ _ _ ih hok hs

/-- A run under a stronger condition is a run under a weaker one. -/
theorem RunOk.mono {ok' : σ → α → Prop} (himp : ∀ s a, ok s a → ok' s a)
    {s s' : σ} {as : List α} (hrun : RunOk step ok s as s') : RunOk step ok' s as s' := by
  induction hrun with
  | nil => exact .nil _
  | snoc _ hok hs ih => exact .snoc ih (himp _ _ hok) hs

/-- A run whose labels all have a property. -/
theorem RunOk.and_forall {p : α → Prop} {s s' : σ} {as : List α}
    (hrun : RunOk step ok s as s') (hp : ∀ a ∈ as, p a) :
    RunOk step (fun s a => ok s a ∧ p a) s as s' := by
  induction hrun with
  | nil => exact .nil _
  | snoc _ hok hs ih =>
    refine .snoc (ih fun a ha => hp a (List.mem_append_left _ ha)) ⟨hok, ?_⟩ hs
    exact hp _ (List.mem_append_right _ (List.mem_singleton_self _))

theorem RunOk.of_forall {p : α → Prop} {s s' : σ} {as : List α} (hrun : RunOk step ok s as s')
    (hp : ∀ a ∈ as, p a) : RunOk step (fun _ a => p a) s as s' :=
  (hrun.and_forall hp).mono fun _ _ h => h.2

/-- The labels decide where a run gets to, under whichever condition. -/
theorem RunOk.unique {ok' : σ → α → Prop} {s s₁ s₂ : σ} {as : List α}
    (h₁ : RunOk step ok s as s₁) (h₂ : RunOk step ok' s as s₂) : s₁ = s₂ := by
  induction h₁ generalizing s₂ with
  | nil =>
    generalize has : ([] : List α) = as at h₂
    cases h₂ with
    | nil => rfl
    | snoc _ _ _ => simp at has
  | @snoc t _ as a _ _ hs ih =>
    generalize has : as ++ [a] = as' at h₂
    cases h₂ with
    | nil => simp at has
    | snoc hrun _ hs' =>
      obtain ⟨rfl, ha⟩ := List.append_inj' has rfl
      obtain rfl : a = _ := List.singleton_inj.mp ha
      obtain rfl := ih hrun
      exact Option.some.inj (hs.symm.trans hs')

/-- One run after the other. -/
theorem RunOk.trans {s s' s'' : σ} {as bs : List α} (h : RunOk step ok s as s')
    (h' : RunOk step ok s' bs s'') : RunOk step ok s (as ++ bs) s'' := by
  induction h' with
  | nil => rwa [List.append_nil]
  | snoc _ hok hs ih =>
    rw [← List.append_assoc]
    exact .snoc ih hok hs

/-- The first part of a run. -/
theorem RunOk.of_append {s s' : σ} {as bs : List α} (h : RunOk step ok s (as ++ bs) s') :
    ∃ t, RunOk step ok s as t := by
  induction bs using List.reverseRecOn generalizing s' with
  | nil => exact ⟨s', by rwa [List.append_nil] at h⟩
  | append_singleton bs b ih =>
    rw [← List.append_assoc] at h
    generalize hcs : (as ++ bs) ++ [b] = cs at h
    cases h with
    | nil => simp at hcs
    | snoc hrun _ _ =>
      obtain ⟨rfl, -⟩ := List.append_inj' hcs rfl
      exact ih hrun

/-- Executes the labels one after the other, checking `ok` before each. -/
def exec (step : σ → α → Option σ) (ok : σ → α → Prop) [∀ s a, Decidable (ok s a)] :
    σ → List α → Option σ
  | s, [] => some s
  | s, a :: as => if ok s a then (step s a).bind fun s' => exec step ok s' as else none

theorem RunOk.cons {s s' s'' : σ} {a : α} {as : List α} (hok : ok s a)
    (hs : step s a = some s') (hrun : RunOk step ok s' as s'') :
    RunOk step ok s (a :: as) s'' := by
  induction hrun with
  | nil => exact RunOk.snoc (RunOk.nil s) hok hs
  | snoc _ hok' hs' ih => exact RunOk.snoc ih hok' hs'

/-- An execution is a run. -/
theorem runOk_of_exec [∀ s a, Decidable (ok s a)] {s s' : σ} {as : List α}
    (h : exec step ok s as = some s') : RunOk step ok s as s' := by
  induction as generalizing s with
  | nil =>
    rw [exec, Option.some.injEq] at h
    exact h ▸ .nil s
  | cons a as ih =>
    rw [exec] at h
    split at h
    · rename_i hok
      obtain ⟨t, ht, hrest⟩ := Option.bind_eq_some_iff.mp h
      exact .cons hok ht (ih hrest)
    · cases h

theorem exists_of_any {p : α → Prop} [DecidablePred p] {x : Option α}
    (h : x.any (fun a => p a) = true) : ∃ a, x = some a ∧ p a := by
  obtain ⟨a, hx, hp⟩ := (Option.any_eq_true _ _).mp h
  exact ⟨a, hx, of_decide_eq_true hp⟩

/-- A run found by execution, with what was checked of its last state. -/
theorem exists_runOk_of_exec (step : σ → α → Option σ) (ok : σ → α → Prop)
    [∀ s a, Decidable (ok s a)] (s : σ) (as : List α) (p : σ → Prop) [DecidablePred p]
    (h : (exec step ok s as).any (fun s' => p s') = true) :
    ∃ s', RunOk step ok s as s' ∧ p s' := by
  obtain ⟨s', hexec, hp⟩ := exists_of_any h
  exact ⟨s', runOk_of_exec hexec, hp⟩

end ContainerSim.Lib
