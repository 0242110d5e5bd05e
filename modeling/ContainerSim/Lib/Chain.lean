import Mathlib.Data.Fintype.EquivFin
import Mathlib.Data.Set.Finite.Lattice
import Mathlib.Logic.Relation
import Mathlib.Order.Preorder.Finite
import Mathlib.Order.WellFounded

/-!
# Chains and cycles

A chain goes from `a` to any `b` with `R a b`, again and again. It comes to an
end on every way (`Acc`, read against `R`) or it can run for ever. With finitely
many places to go to, it runs for ever exactly where it can come back to a place
it has passed (`acc_iff_not_circles`).
-/

namespace ContainerSim.Lib

variable {α : Type*} {R : α → α → Prop}

/-- A chain from `a` gets to a place it can come back to. -/
def Circles (R : α → α → Prop) (a : α) : Prop :=
  ∃ b, Relation.ReflTransGen R a b ∧ Relation.TransGen R b b

/-- A chain that can go round goes on, and can still go round. -/
theorem Circles.step {a : α} (h : Circles R a) : ∃ b, R a b ∧ Circles R b := by
  obtain ⟨c, hreach, hround⟩ := h
  rcases hreach.cases_head with rfl | ⟨b, hab, hbc⟩
  · -- already on the cycle: one step along it
    obtain ⟨b, hab, hba⟩ := Relation.TransGen.head'_iff.mp hround
    exact ⟨b, hab, a, hba, hround⟩
  · exact ⟨b, hab, c, hbc, hround⟩

theorem Circles.of_loop {a : α} (h : R a a) : Circles R a :=
  ⟨a, .refl, .single h⟩

theorem reflTransGen_of_chain {s : ℕ → α} (h : ∀ n, R (s n) (s (n + 1))) (i k : ℕ) :
    Relation.ReflTransGen R (s i) (s (i + k)) := by
  induction k with
  | zero => exact .refl
  | succ k ih => exact ih.tail (h (i + k))

/-- A chain without an end passes some place of a finite set twice. -/
theorem circles_of_chain {S : Set α} (hS : S.Finite) (hR : ∀ a b, R a b → b ∈ S)
    {s : ℕ → α} (h : ∀ n, R (s n) (s (n + 1))) : Circles R (s 0) := by
  obtain ⟨i, j, hij, heq⟩ := hS.exists_lt_map_eq_of_forall_mem
    (fun n => hR (s n) (s (n + 1)) (h n))
  have hreach : Relation.ReflTransGen R (s 0) (s (i + 1)) := by
    have hchain := reflTransGen_of_chain h 0 (i + 1)
    rwa [Nat.zero_add] at hchain
  -- the place passed at `i + 1` and again at `j + 1`
  have hround : Relation.TransGen R (s (i + 1)) (s (j + 1)) := by
    obtain ⟨k, rfl⟩ := Nat.exists_eq_add_of_lt hij
    have hchain := reflTransGen_of_chain h (i + 1) k
    have hlast := h (i + 1 + k)
    rw [show i + 1 + k + 1 = i + k + 1 + 1 by omega] at hlast
    exact Relation.TransGen.tail' hchain hlast
  rw [← heq] at hround
  exact ⟨s (i + 1), hreach, hround⟩

/-- With finitely many places to go to, every chain ends exactly where none can
go round. -/
theorem acc_iff_not_circles {S : Set α} (hS : S.Finite) (hR : ∀ a b, R a b → b ∈ S) {a : α} :
    Acc (fun b a => R a b) a ↔ ¬ Circles R a := by
  constructor
  · -- going round goes on for ever, which no accessible place does
    intro hacc
    induction hacc with
    | intro a _ ih =>
      intro hcircles
      obtain ⟨b, hab, hb⟩ := hcircles.step
      exact ih b hab hb
  · intro hnone
    by_contra hacc
    obtain ⟨s, rfl, hchain⟩ := not_acc_iff_exists_descending_chain.mp hacc
    exact hnone (circles_of_chain hS hR hchain)

end ContainerSim.Lib
