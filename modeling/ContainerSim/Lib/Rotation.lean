import Mathlib.Data.List.Basic
import Mathlib.Data.List.Nodup
import Mathlib.Data.List.Range
import Mathlib.Data.Nat.ModEq
import Mathlib.Logic.Function.Basic
import Mathlib.Tactic.Common

/-!
# Handing one token around a circle

`n` places in a circle, each on or off. A turn switches the place it is at off
and the next one on. After `n - 1` turns from any setting only the place
reached is on (`turns_on_iff`), and in `n` turns every place is switched on
once (`count_entered`).
-/

namespace ContainerSim.Lib

variable {α : Type*}

/-- `item i` is the `i`-th place of a circle of `n`, for any `i`. -/
structure Circle (n : Nat) (α : Type*) where
  item : Nat → α
  item_eq_iff : ∀ i j, item i = item j ↔ i % n = j % n

namespace Circle

variable {n : Nat} (c : Circle n α)

theorem item_ne {i j : Nat} (hij : i < j) (hn : j < i + n) : c.item i ≠ c.item j := by
  rw [Ne, c.item_eq_iff]
  intro heq
  have hdvd : n ∣ j - i := (Nat.modEq_iff_dvd' (Nat.le_of_lt hij)).mp heq
  have hle := Nat.le_of_dvd (by omega) hdvd
  omega

/-- Every place is one of the last `n`. -/
theorem exists_offset (hn : 0 < n) (i k : Nat) (hk : n ≤ k + 1) (j : Nat) :
    ∃ l, l ≤ k ∧ k < l + n ∧ c.item j = c.item (i + l) := by
  -- the largest `l ≤ k` with `i + l ≡ j`
  let d := (i + k + n * j - j) % n
  have hd : d < n := Nat.mod_lt _ hn
  have hle : j ≤ i + k + n * j := by
    have : 1 * j ≤ n * j := Nat.mul_le_mul_right j hn
    omega
  refine ⟨k - d, by omega, by omega, ?_⟩
  rw [c.item_eq_iff]
  have hmod : i + k + n * j - j ≡ d [MOD n] := (Nat.mod_modEq _ n).symm
  have hsum : i + (k - d) + d = i + k := by omega
  have hleft : j + (i + k + n * j - j) ≡ i + (k - d) + d [MOD n] := by
    have hback : j + (i + k + n * j - j) = i + k + n * j := by omega
    rw [hback, hsum]
    exact (Nat.ModEq.refl (i + k)).add (Nat.modEq_zero_iff_dvd.mpr ⟨j, rfl⟩) |>.trans
      (by rw [Nat.add_zero])
  exact Nat.ModEq.add_right_cancel hmod.symm hleft.symm |>.symm

section
variable [DecidableEq α]

/-- The turn at place `i`. -/
def turn (i : Nat) (on : α → Bool) : α → Bool :=
  Function.update (Function.update on (c.item i) false) (c.item (i + 1)) true

/-- `k` turns, the first one at place `i`. -/
def turns (c : Circle n α) (i : Nat) : Nat → (α → Bool) → α → Bool
  | 0, on => on
  | k + 1, on => c.turn (i + k) (c.turns i k on)

/-- Places are named up to multiples of `n`. -/
theorem turn_mod (i : Nat) (on : α → Bool) : c.turn (i % n) on = c.turn i on := by
  have hhere : c.item (i % n) = c.item i := (c.item_eq_iff _ _).mpr (Nat.mod_mod i n)
  have hnext : c.item (i % n + 1) = c.item (i + 1) :=
    (c.item_eq_iff _ _).mpr (Nat.mod_add_mod i n 1)
  rw [turn, turn, hhere, hnext]

theorem turn_eq_true {i : Nat} {on : α → Bool} {x : α} :
    c.turn i on x = true ↔ x = c.item (i + 1) ∨ x ≠ c.item i ∧ on x = true := by
  rw [turn, Function.update_apply, Function.update_apply]
  by_cases hnext : x = c.item (i + 1)
  · simp [hnext]
  · by_cases hhere : x = c.item i
    · simp [hhere]
    · simp [hnext, hhere]

theorem turn_next (i : Nat) (on : α → Bool) : c.turn i on (c.item (i + 1)) = true :=
  c.turn_eq_true.mpr (.inl rfl)

theorem turn_here (hn : 2 ≤ n) (i : Nat) (on : α → Bool) : c.turn i on (c.item i) = false := by
  have hne : c.item i ≠ c.item (i + 1) := c.item_ne (by omega) (by omega)
  rw [turn, Function.update_of_ne hne, Function.update_self]

theorem turn_other (i : Nat) (on : α → Bool) {x : α} (h : x ≠ c.item i) (h' : x ≠ c.item (i + 1)) :
    c.turn i on x = on x := by
  rw [turn, Function.update_of_ne h', Function.update_of_ne h]

/-- Where the token has been and is gone from. -/
theorem turns_behind (hn : 2 ≤ n) (i k : Nat) (on : α → Bool) {j : Nat} (hj : j < k)
    (hnear : k < j + n) : c.turns i k on (c.item (i + j)) = false := by
  induction k with
  | zero => omega
  | succ k ih =>
    rw [turns]
    by_cases hjk : j = k
    · rw [hjk]
      exact c.turn_here hn _ _
    · have hbefore : c.item (i + j) ≠ c.item (i + k) := c.item_ne (by omega) (by omega)
      have hafter : c.item (i + j) ≠ c.item (i + k + 1) := c.item_ne (by omega) (by omega)
      rw [c.turn_other _ _ hbefore hafter]
      exact ih (by omega) (by omega)

theorem turns_ahead (i k : Nat) (on : α → Bool) (hk : 0 < k) :
    c.turns i k on (c.item (i + k)) = true := by
  obtain ⟨l, rfl⟩ : ∃ l, k = l + 1 := ⟨k - 1, by omega⟩
  rw [turns]
  exact c.turn_next _ _

/-- After all but one turn only the place reached is on. -/
theorem turns_on_iff (hn : 2 ≤ n) (i k : Nat) (on : α → Bool) (hk : n ≤ k + 1) (j : Nat) :
    c.turns i k on (c.item j) = true ↔ c.item j = c.item (i + k) := by
  obtain ⟨l, hl, hnear, heq⟩ := c.exists_offset (by omega) i k hk j
  rw [heq]
  by_cases hlk : l = k
  · rw [hlk, c.turns_ahead i k on (by omega)]
    simp
  · rw [c.turns_behind hn i k on (by omega) hnear]
    have hne : c.item (i + l) ≠ c.item (i + k) := c.item_ne (by omega) (by omega)
    simp [hne]

end

/-- The places switched on by `k` turns. -/
def entered (i k : Nat) : List α := (List.range k).map fun l => c.item (i + l + 1)

theorem nodup_entered (i : Nat) : (c.entered i n).Nodup := by
  refine List.Nodup.map_on ?_ List.nodup_range
  intro a ha b hb heq
  rw [List.mem_range] at ha hb
  by_contra hab
  rcases Nat.lt_or_gt_of_ne hab with hlt | hlt
  · exact c.item_ne (i := i + a + 1) (j := i + b + 1) (by omega) (by omega) heq
  · exact c.item_ne (i := i + b + 1) (j := i + a + 1) (by omega) (by omega) heq.symm

theorem mem_entered (hn : 0 < n) (i j : Nat) : c.item j ∈ c.entered i n := by
  obtain ⟨l, hl, hnear, heq⟩ := c.exists_offset hn i n (by omega) j
  rw [heq]
  refine List.mem_map.mpr ⟨l - 1, List.mem_range.mpr (by omega), ?_⟩
  congr 1
  omega

/-- In a full circle every place is switched on once. -/
theorem count_entered [DecidableEq α] (hn : 0 < n) (i j : Nat) : (c.entered i n).count (c.item j) = 1 :=
  List.count_eq_one_of_mem (c.nodup_entered i) (c.mem_entered hn i j)

end Circle

/-- The places of a list without repetitions. -/
def circleOf (l : List α) (hnodup : l.Nodup) (hpos : 0 < l.length) :
    Circle l.length α where
  item i := l.get ⟨i % l.length, Nat.mod_lt i hpos⟩
  item_eq_iff i j := by
    rw [hnodup.get_inj_iff, Fin.mk.injEq]

end ContainerSim.Lib
