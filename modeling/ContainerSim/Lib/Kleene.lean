import Mathlib.Algebra.Order.Kleene

/-!
# Inclusions in a Kleene algebra

The laws that let a word of a regular expression be taken up from the left: one
more turn of a loop is a turn of the loop, and a loop or a choice may be passed
over.
-/

namespace ContainerSim.Lib

open scoped Computability

variable {α : Type*} [KleeneAlgebra α]

theorem le_add_of_le_left {a b : α} (c : α) (h : a ≤ b) : a ≤ b + c := by
  rw [add_eq_sup]
  exact le_trans h le_sup_left

theorem le_add_of_le_right {a c : α} (b : α) (h : a ≤ c) : a ≤ b + c := by
  rw [add_eq_sup]
  exact le_trans h le_sup_right

/-- One more turn. -/
theorem mul_kstar_mul_le (a b : α) : a * (a∗ * b) ≤ a∗ * b := by
  rw [← mul_assoc]
  exact mul_le_mul_left mul_kstar_le_kstar b

/-- No turn at all. -/
theorem le_kstar_mul {a b : α} (c : α) (h : a ≤ b) : a ≤ c∗ * b := by
  calc a ≤ 1 * b := by rwa [one_mul]
    _ ≤ c∗ * b := mul_le_mul_left one_le_kstar b

end ContainerSim.Lib
