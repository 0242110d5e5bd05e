import Mathlib.Data.List.Basic
import Mathlib.Order.Defs.PartialOrder

/-!
# Computations that log what they do

A computation on a state that writes a log, and a monitor that reads the log
entry by entry and refuses an entry that must not occur. `Runs m s r` says that
`m`, started in `s`, gives `r` and that the monitor, set to the state before,
accepts all entries and ends set to the state after.
-/

namespace ContainerSim.Lib

/-- A computation on states `σ` with a result and the entries it logs. -/
def Logged (ε σ α : Type) : Type := σ → (σ × α) × List ε

namespace Logged

variable {ε σ α β κ ν : Type}

instance : Monad (Logged ε σ) where
  pure a := fun s => ((s, a), [])
  bind m k := fun s =>
    let r := m s
    let t := k r.1.2 r.1.1
    (t.1, r.2 ++ t.2)

/-- A step that logs nothing. -/
def silent (f : σ → σ × α) : Logged ε σ α := fun s => (f s, [])

/-- A step and the entry it logs. -/
def step (e : ε) (f : σ → σ × α) : Logged ε σ α := fun s => (f s, [e])

/-- The state. -/
def state : Logged ε σ σ := silent fun s => (s, s)

/-- An entry, and nothing else. -/
def note (e : ε) : Logged ε σ Unit := step e fun s => (s, ())

/-- What the monitor `next`, set by `key`, makes of a computation. -/
structure Runs (next : κ → ε → Option κ) (key : σ → κ) (m : Logged ε σ α) (s : σ)
    (r : σ × α) : Prop where
  result : (m s).1 = r
  accepted : (m s).2.foldlM next (key s) = some (key r.1)

variable {next : κ → ε → Option κ} {key : σ → κ}

theorem Runs.pure (a : α) (s : σ) : Runs next key (pure a : Logged ε σ α) s (s, a) :=
  ⟨rfl, rfl⟩

theorem Runs.bind {m : Logged ε σ α} {k : α → Logged ε σ β} {s : σ} {r : σ × α} {t : σ × β}
    (hm : Runs next key m s r) (hk : Runs next key (k r.2) r.1 t) :
    Runs next key (m >>= k) s t := by
  obtain ⟨rfl, hfirst⟩ := hm
  obtain ⟨rfl, hsecond⟩ := hk
  refine ⟨rfl, ?_⟩
  show ((m s).2 ++ (k (m s).1.2 (m s).1.1).2).foldlM next (key s) = _
  rw [List.foldlM_append, hfirst]
  exact hsecond

theorem Runs.silent {f : σ → σ × α} {s : σ} (h : key (f s).1 = key s) :
    Runs next key (silent f) s (f s) :=
  ⟨rfl, congrArg some h.symm⟩

theorem Runs.step {e : ε} {f : σ → σ × α} {s : σ}
    (h : next (key s) e = some (key (f s).1)) : Runs next key (step e f) s (f s) := by
  refine ⟨rfl, ?_⟩
  show ([e] : List ε).foldlM next (key s) = some (key (f s).1)
  rw [List.foldlM_cons, h]
  rfl

theorem Runs.note {e : ε} {s : σ} (h : next (key s) e = some (key s)) :
    Runs next key (note e) s (s, ()) :=
  Runs.step h

/-- Reading the state first changes nothing. -/
theorem Runs.of_state {k : σ → Logged ε σ β} {s : σ} {t : σ × β} (hk : Runs next key (k s) s t) :
    Runs next key (state >>= k) s t :=
  Runs.bind (Runs.silent rfl) hk

/-- What every accepted entry keeps, an accepted log keeps, and what every
accepted entry has, all entries of the log have. -/
theorem forall_of_accepted {P : ε → Prop} {I : κ → Prop}
    (hstep : ∀ k e k', I k → next k e = some k' → P e ∧ I k') {l : List ε} {k k' : κ}
    (hk : I k) (hl : l.foldlM next k = some k') : (∀ e ∈ l, P e) ∧ I k' := by
  induction l generalizing k with
  | nil =>
    obtain rfl := Option.some.inj hl
    exact ⟨nofun, hk⟩
  | cons e l ih =>
    -- the monitor takes `e` first and stands at `k₁` for the rest
    rw [List.foldlM_cons] at hl
    obtain ⟨k₁, he, hrest⟩ := Option.bind_eq_some_iff.mp hl
    obtain ⟨hP, hI⟩ := hstep k e k₁ hk he
    obtain ⟨hall, hlast⟩ := ih hI hrest
    exact ⟨List.forall_mem_cons.mpr ⟨hP, hall⟩, hlast⟩

/-- Where the monitor never goes down, a value that is where the monitor stands
after its entry never goes down in the log. -/
theorem pairwise_of_accepted [Preorder ν] {level : κ → ν} {value : ε → Option ν}
    (hstep : ∀ k e k', next k e = some k' →
      level k ≤ level k' ∧ ∀ v, value e = some v → v = level k')
    {l : List ε} {k k' : κ} (hl : l.foldlM next k = some k') :
    (l.filterMap value).Pairwise (· ≤ ·) ∧ ∀ v ∈ l.filterMap value, level k ≤ v := by
  induction l generalizing k with
  | nil => exact ⟨.nil, nofun⟩
  | cons e l ih =>
    rw [List.foldlM_cons] at hl
    obtain ⟨k₁, he, hrest⟩ := Option.bind_eq_some_iff.mp hl
    obtain ⟨hle, hvalue⟩ := hstep k e k₁ he
    obtain ⟨hsorted, hbelow⟩ := ih hrest
    have hlater : ∀ v ∈ l.filterMap value, level k ≤ v :=
      fun v hv => le_trans hle (hbelow v hv)
    cases hv : value e with
    | none =>
      rw [List.filterMap_cons_none hv]
      exact ⟨hsorted, hlater⟩
    | some v =>
      rw [List.filterMap_cons_some hv]
      obtain rfl := hvalue v hv
      exact ⟨List.pairwise_cons.mpr ⟨hbelow, hsorted⟩, List.forall_mem_cons.mpr ⟨hle, hlater⟩⟩

end Logged

end ContainerSim.Lib
