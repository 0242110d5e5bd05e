import ContainerSim.Lib.Run
import Mathlib.Data.Finset.Basic

/-!
# Privileges of a process

The capability sets of a process, its `no_new_privs` bit and the filters
installed on it, with the system calls that change them. A capability a process
does not hold comes back exactly when `execve` can grant it: when the bit is not
set and the capability is still inheritable or in the bounding set
(`regains_iff`). A user namespace that a process makes gives it full sets, but over
that namespace only, and changes nothing about this (`scoped_regains_iff`). Filters
are never taken off (`filters_run`).
-/

namespace ContainerSim.Lib

variable {κ φ : Type} [DecidableEq κ]

structure Creds (κ φ : Type) where
  permitted : Finset κ
  effective : Finset κ
  inheritable : Finset κ
  bounding : Finset κ
  ambient : Finset κ
  noNewPrivs : Bool
  filters : List φ

/-- What a file gives to the process that executes it. A set-uid file and one
with capabilities of its own are `privileged`; for uid 0 the sets are full. -/
structure FileCaps (κ : Type) where
  permitted : Finset κ
  inheritable : Finset κ
  effective : Bool
  privileged : Bool

/-- The calls, and `execve`, which keeps everything else. -/
inductive PrivAct (κ φ : Type) where
  | exec (f : FileCaps κ)
  | capset (permitted effective inheritable : Finset κ)
  | capbsetDrop (c : κ)
  | noNewPrivs
  | ambientRaise (c : κ)
  | filter (f : φ)

namespace Creds

/-- `execve`. -/
def exec (s : Creds κ φ) (f : FileCaps κ) : Creds κ φ :=
  let ambient := if f.privileged then ∅ else s.ambient
  let granted := s.inheritable ∩ f.inheritable ∪ f.permitted ∩ s.bounding
  let permitted := (if s.noNewPrivs then granted ∩ s.permitted else granted) ∪ ambient
  { s with permitted, effective := if f.effective then permitted else ambient, ambient }

/-- The sets a `capset` that is allowed leaves. -/
def capset (s : Creds κ φ) (permitted effective inheritable : Finset κ) : Creds κ φ :=
  { s with permitted, effective, inheritable
           ambient := s.ambient ∩ (permitted ∩ inheritable) }

def drop (s : Creds κ φ) (c : κ) : Creds κ φ := { s with bounding := s.bounding.erase c }

def addFilter (s : Creds κ φ) (f : φ) : Creds κ φ := { s with filters := s.filters ++ [f] }

end Creds

/-- One call; `none` is a call the kernel refuses. Two capabilities count here:
one to change the sets of a process, one to install filters. -/
def privStep (setpcap sysAdmin : κ) (s : Creds κ φ) : PrivAct κ φ → Option (Creds κ φ)
  | .exec f => some (s.exec f)
  | .capset permitted effective inheritable =>
    if permitted ⊆ s.permitted ∧ effective ⊆ permitted ∧
        inheritable ⊆ s.inheritable ∪ s.bounding ∧
        (setpcap ∈ s.effective ∨ inheritable ⊆ s.inheritable ∪ s.permitted) then
      some (s.capset permitted effective inheritable)
    else none
  | .capbsetDrop c => if setpcap ∈ s.effective then some (s.drop c) else none
  | .noNewPrivs => some { s with noNewPrivs := true }
  | .ambientRaise c =>
    if c ∈ s.permitted ∧ c ∈ s.inheritable then some { s with ambient := insert c s.ambient }
    else none
  | .filter f =>
    if s.noNewPrivs ∨ sysAdmin ∈ s.effective then some (s.addFilter f) else none

/-- The process does not have the capability, and no file can give it back. -/
structure Sealed (c : κ) (s : Creds κ φ) : Prop where
  permitted : c ∉ s.permitted
  effective : c ∉ s.effective
  ambient : c ∉ s.ambient
  shut : s.noNewPrivs = true ∨ (c ∉ s.inheritable ∧ c ∉ s.bounding)

variable {setpcap sysAdmin c : κ} {s s' : Creds κ φ} {as : List (PrivAct κ φ)}

theorem Sealed.exec (h : Sealed c s) (f : FileCaps κ) : Sealed c (s.exec f) := by
  have hambient : c ∉ (if f.privileged then ∅ else s.ambient) := by
    split
    · exact Finset.notMem_empty c
    · exact h.ambient
  have hpermitted : c ∉ (s.exec f).permitted := by
    show c ∉ (if s.noNewPrivs then _ else _) ∪ _
    rw [Finset.mem_union, not_or]
    refine ⟨?_, hambient⟩
    split
    · rw [Finset.mem_inter, not_and_or]
      exact .inr h.permitted
    · rename_i hbit
      obtain ⟨hinh, hbound⟩ := h.shut.resolve_left hbit
      simp [hinh, hbound]
  refine ⟨hpermitted, ?_, hambient, h.shut⟩
  show c ∉ (if f.effective then (s.exec f).permitted else _)
  split
  · exact hpermitted
  · exact hambient

theorem Sealed.step {a : PrivAct κ φ} (h : Sealed c s)
    (hs : privStep setpcap sysAdmin s a = some s') : Sealed c s' := by
  cases a with
  | exec f =>
    cases hs
    exact h.exec f
  | capset permitted effective inheritable =>
    obtain ⟨⟨hperm, heff, hinh, -⟩, hs⟩ := Option.ite_none_right_eq_some.mp hs
    cases hs
    -- capset adds nothing to the permitted set
    have hpermitted : c ∉ permitted := fun hc => h.permitted (hperm hc)
    refine ⟨hpermitted, fun hc => hpermitted (heff hc), ?_, h.shut.imp_right ?_⟩
    · intro hc
      exact h.ambient (Finset.mem_inter.mp hc).1
    · rintro ⟨hinhc, hboundc⟩
      refine ⟨fun hc => ?_, hboundc⟩
      -- a new inheritable capability comes from the bounding set, which lacks c
      rcases Finset.mem_union.mp (hinh hc) with hc | hc
      · exact hinhc hc
      · exact hboundc hc
  | capbsetDrop d =>
    obtain ⟨-, hs⟩ := Option.ite_none_right_eq_some.mp hs
    cases hs
    exact ⟨h.permitted, h.effective, h.ambient,
      h.shut.imp_right fun hc => ⟨hc.1, fun hd => hc.2 (Finset.mem_of_mem_erase hd)⟩⟩
  | noNewPrivs =>
    cases hs
    exact ⟨h.permitted, h.effective, h.ambient, .inl rfl⟩
  | ambientRaise d =>
    obtain ⟨⟨hperm, -⟩, hs⟩ := Option.ite_none_right_eq_some.mp hs
    cases hs
    refine ⟨h.permitted, h.effective, ?_, h.shut⟩
    show c ∉ insert d s.ambient
    -- only a permitted capability can be raised
    rw [Finset.mem_insert, not_or]
    exact ⟨fun hcd => h.permitted (hcd ▸ hperm), h.ambient⟩
  | filter f =>
    obtain ⟨-, hs⟩ := Option.ite_none_right_eq_some.mp hs
    cases hs
    exact ⟨h.permitted, h.effective, h.ambient, h.shut⟩

theorem Sealed.run (h : Sealed c s) (hrun : Runs (privStep setpcap sysAdmin) s as s') :
    Sealed c s' :=
  hrun.invariant (fun _ _ _ hi _ hs => hi.step hs) h

/-- No call takes a filter off. -/
theorem filters_step {a : PrivAct κ φ} (hs : privStep setpcap sysAdmin s a = some s') :
    ∀ f ∈ s.filters, f ∈ s'.filters := by
  intro f hf
  cases a with
  | exec g => cases hs; exact hf
  | capset permitted effective inheritable =>
    obtain ⟨-, hs⟩ := Option.ite_none_right_eq_some.mp hs
    cases hs
    exact hf
  | capbsetDrop d =>
    obtain ⟨-, hs⟩ := Option.ite_none_right_eq_some.mp hs
    cases hs
    exact hf
  | noNewPrivs => cases hs; exact hf
  | ambientRaise d =>
    obtain ⟨-, hs⟩ := Option.ite_none_right_eq_some.mp hs
    cases hs
    exact hf
  | filter g =>
    obtain ⟨-, hs⟩ := Option.ite_none_right_eq_some.mp hs
    cases hs
    exact List.mem_append_left _ hf

/-- One call makes a capability effective that the process has, or that a file
can give it. -/
theorem exists_effective (h : c ∈ s.permitted ∨
      s.noNewPrivs = false ∧ (c ∈ s.inheritable ∨ c ∈ s.bounding)) :
    ∃ a s', privStep setpcap sysAdmin s a = some s' ∧ c ∈ s'.permitted ∧ c ∈ s'.effective ∧
      s'.filters = s.filters := by
  rcases h with hperm | ⟨hbit, hgrant⟩
  · refine ⟨.capset s.permitted s.permitted ∅, s.capset s.permitted s.permitted ∅, ?_, hperm,
      hperm, rfl⟩
    rw [privStep, if_pos]
    exact ⟨Finset.Subset.refl _, Finset.Subset.refl _, Finset.empty_subset _,
      .inr (Finset.empty_subset _)⟩
  · let f : FileCaps κ :=
      { permitted := {c}, inheritable := {c}, effective := true, privileged := true }
    have hc : c ∈ (s.exec f).permitted := by
      show c ∈ (if s.noNewPrivs then _ else s.inheritable ∩ {c} ∪ {c} ∩ s.bounding) ∪ _
      rw [hbit]
      rcases hgrant with hinh | hbound
      · simp [hinh]
      · simp [hbound]
    exact ⟨.exec f, s.exec f, rfl, hc, hc, rfl⟩

/-- A process without a capability can get it exactly when `execve` can give it. -/
theorem regains_iff (hpermitted : c ∉ s.permitted) (heffective : c ∉ s.effective)
    (hambient : c ∉ s.ambient) :
    (∃ as s', Runs (privStep setpcap sysAdmin) s as s' ∧ c ∈ s'.permitted) ↔
      s.noNewPrivs = false ∧ (c ∈ s.inheritable ∨ c ∈ s.bounding) := by
  constructor
  · rintro ⟨as, s', hrun, hc⟩
    by_contra hshut
    refine (Sealed.run ⟨hpermitted, heffective, hambient, ?_⟩ hrun).permitted hc
    rw [not_and_or, Bool.not_eq_false, not_or] at hshut
    exact hshut
  · intro hgrant
    obtain ⟨a, s', hs, hc, -⟩ := exists_effective (.inr hgrant)
    exact ⟨[a], s', .cons trivial hs (.nil _), hc⟩

/-! ## User namespaces -/

/-- A process: whether it is in a user namespace made since, below the one it was
started in, and what it has there. -/
structure Scoped (κ φ : Type) where
  below : Bool
  creds : Creds κ φ

inductive ScopedAct (κ φ : Type) where
  | call (a : PrivAct κ φ)
  /-- `clone`, `clone3` or `unshare` with `CLONE_NEWUSER` -/
  | userNamespace

/-- The sets of the first process of a user namespace, which count in it only. -/
def Creds.unshare (full : Finset κ) (s : Creds κ φ) : Creds κ φ :=
  { s with
    permitted := full, effective := full, inheritable := ∅, bounding := full, ambient := ∅ }

/-- One call. No call leads back to a user namespace further up. -/
def scopedStep (setpcap sysAdmin : κ) (full : Finset κ) (s : Scoped κ φ) :
    ScopedAct κ φ → Option (Scoped κ φ)
  | .call a => (privStep setpcap sysAdmin s.creds a).map fun creds => { s with creds }
  | .userNamespace => some { below := true, creds := s.creds.unshare full }

/-- The capability is one over the user namespace the process was started in. -/
def Scoped.Holds (c : κ) (s : Scoped κ φ) : Prop := s.below = false ∧ c ∈ s.creds.permitted

variable {full : Finset κ} {t t' : Scoped κ φ} {bs : List (ScopedAct κ φ)}

/-- Whatever a process does, its filters stay. -/
theorem filters_run (hrun : Runs (scopedStep setpcap sysAdmin full) t bs t') :
    ∀ f ∈ t.creds.filters, f ∈ t'.creds.filters := by
  refine hrun.invariant (I := fun u => ∀ f ∈ t.creds.filters, f ∈ u.creds.filters) ?_
    fun f hf => hf
  intro u a u' hu _ hs f hf
  cases a with
  | call a =>
    obtain ⟨creds, hcreds, rfl⟩ := Option.map_eq_some_iff.mp hs
    exact filters_step hcreds f (hu f hf)
  | userNamespace =>
    cases hs
    exact hu f hf

/-- A process that is where it was started has made no user namespace. -/
theorem calls_of_scoped (hrun : Runs (scopedStep setpcap sysAdmin full) t bs t')
    (habove : t'.below = false) :
    ∃ as, Runs (privStep setpcap sysAdmin) t.creds as t'.creds := by
  refine hrun.invariant (I := fun u => u.below = false →
    ∃ as, Runs (privStep setpcap sysAdmin) t.creds as u.creds) ?_ (fun _ => ⟨[], .nil _⟩) habove
  intro u a u' hu _ hs hbelow
  cases a with
  | call a =>
    obtain ⟨creds, hcreds, rfl⟩ := Option.map_eq_some_iff.mp hs
    obtain ⟨as, has⟩ := hu hbelow
    exact ⟨as ++ [a], .snoc has trivial hcreds⟩
  | userNamespace =>
    cases hs
    cases hbelow

/-- Every run of calls is one of the process where it was started. -/
theorem scoped_of_calls (full : Finset κ) (hrun : Runs (privStep setpcap sysAdmin) s as s') :
    Runs (scopedStep setpcap sysAdmin full) ⟨false, s⟩ (as.map .call) ⟨false, s'⟩ := by
  induction hrun with
  | nil => exact .nil _
  | snoc _ _ hs ih =>
    rw [List.map_append]
    refine .snoc ih trivial ?_
    rw [scopedStep, hs]
    rfl

/-- User namespaces bring no capability back where the process was started. -/
theorem scoped_regains_iff (full : Finset κ) (hpermitted : c ∉ s.permitted)
    (heffective : c ∉ s.effective) (hambient : c ∉ s.ambient) :
    (∃ bs t, Runs (scopedStep setpcap sysAdmin full) ⟨false, s⟩ bs t ∧ t.Holds c) ↔
      s.noNewPrivs = false ∧ (c ∈ s.inheritable ∨ c ∈ s.bounding) := by
  have hcalls : (∃ as s', Runs (privStep setpcap sysAdmin) s as s' ∧ c ∈ s'.permitted) ↔
      s.noNewPrivs = false ∧ (c ∈ s.inheritable ∨ c ∈ s.bounding) :=
    regains_iff hpermitted heffective hambient
  rw [← hcalls]
  constructor
  · rintro ⟨bs, t, hrun, habove, hc⟩
    obtain ⟨as, has⟩ := calls_of_scoped hrun habove
    exact ⟨as, t.creds, has, hc⟩
  · rintro ⟨as, s', hrun, hc⟩
    exact ⟨as.map .call, ⟨false, s'⟩, scoped_of_calls full hrun, rfl, hc⟩

end ContainerSim.Lib
