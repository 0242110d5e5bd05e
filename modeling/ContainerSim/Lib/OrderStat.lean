import Mathlib.Algebra.Order.Ring.Nat
import Mathlib.Data.List.Basic

/-!
# Order statistics by counting

The `k`-th smallest element of a list is the one that fewer than `k` elements
are below and at least `k` are not above (`kthSmallest_eq`). For numbers that
turns a histogram into an order statistic: adding up the counts of the numbers
from 0 on, the sum gets to `k` at the `k`-th smallest one (`reach_eq_kthSmallest`).
-/

namespace ContainerSim.Lib

theorem countP_mono {α : Type*} {p q : α → Prop} [DecidablePred p] [DecidablePred q]
    (h : ∀ x, p x → q x) (l : List α) : l.countP (fun x => p x) ≤ l.countP fun x => q x :=
  List.countP_mono_left fun x _ hp => decide_eq_true (h x (of_decide_eq_true hp))

section
variable {α : Type*} [LinearOrder α]

/-- The `k`-th smallest element, counted from 1. -/
def kthSmallest (l : List α) (k : Nat) : Option α :=
  (l.mergeSort fun a b => decide (a ≤ b))[k - 1]?

theorem pairwise_sorted (l : List α) :
    (l.mergeSort fun a b => decide (a ≤ b)).Pairwise (· ≤ ·) := by
  have hpair := @List.pairwise_mergeSort _ (fun a b : α => decide (a ≤ b))
    (fun a b c hab hbc => by simpa using (of_decide_eq_true hab).trans (of_decide_eq_true hbc))
    (fun a b => by simpa using le_total a b) l
  exact hpair.imp fun h => of_decide_eq_true h

/-- In a sorted list an element has no more elements below it than in front of
it, and is among those that are not above it. -/
theorem countP_of_sorted {s : List α} (hs : s.Pairwise (· ≤ ·)) {i : Nat} {u : α}
    (hu : s[i]? = some u) :
    s.countP (fun x => x < u) ≤ i ∧ i < s.countP fun x => x ≤ u := by
  induction s generalizing i with
  | nil => simp at hu
  | cons a s ih =>
    rw [List.pairwise_cons] at hs
    cases i with
    | zero =>
      have hau : a = u := by simpa using hu
      subst hau
      have hnone : s.countP (fun x => decide (x < a)) = 0 := by
        rw [List.countP_eq_zero]
        intro x hx
        simpa using hs.1 x hx
      constructor
      · rw [List.countP_cons, hnone]
        simp
      · rw [List.countP_cons]
        simp
    | succ i =>
      have hget : s[i]? = some u := by simpa using hu
      obtain ⟨hbelow, hupto⟩ := ih hs.2 hget
      have hau : a ≤ u := hs.1 u (List.mem_of_getElem? hget)
      constructor
      · rw [List.countP_cons]
        split
        · omega
        · omega
      · rw [List.countP_cons, if_pos (by simpa using hau)]
        omega

theorem kthSmallest_eq {l : List α} {k : Nat} {v : α} (hbelow : l.countP (fun x => x < v) < k)
    (hupto : k ≤ l.countP fun x => x ≤ v) : kthSmallest l k = some v := by
  have hperm : (l.mergeSort fun a b => decide (a ≤ b)).Perm l := List.mergeSort_perm _ _
  have hlen : k ≤ l.length := hupto.trans List.countP_le_length
  have hlt : k - 1 < (l.mergeSort fun a b => decide (a ≤ b)).length := by
    rw [hperm.length_eq]
    omega
  obtain ⟨u, hu⟩ : ∃ u, kthSmallest l k = some u :=
    ⟨_, List.getElem?_eq_getElem hlt⟩
  obtain ⟨hbelow', hupto'⟩ := countP_of_sorted (pairwise_sorted l) hu
  rw [hperm.countP_eq] at hbelow' hupto'
  rcases lt_trichotomy u v with huv | rfl | hvu
  · -- all that are not above `u` are below `v`
    have hle := countP_mono (p := fun x => x ≤ u) (q := fun x => x < v)
      (fun x hx => lt_of_le_of_lt hx huv) l
    omega
  · exact hu
  · have hle := countP_mono (p := fun x => x ≤ v) (q := fun x => x < u)
      (fun x hx => lt_of_le_of_lt hx hvu) l
    omega

end

/-! ## Histograms -/

/-- The sum of the counts in front of `n`. -/
def cumulative (c : Nat → Nat) : Nat → Nat
  | 0 => 0
  | n + 1 => cumulative c n + c n

theorem cumulative_mono (c : Nat → Nat) {m n : Nat} (h : m ≤ n) :
    cumulative c m ≤ cumulative c n := by
  induction n with
  | zero => exact Nat.le_of_eq (congrArg (cumulative c) (Nat.le_zero.mp h))
  | succ n ih =>
    rcases Nat.le_succ_iff.mp h with hle | rfl
    · exact (ih hle).trans (Nat.le_add_right _ _)
    · exact Nat.le_refl _

theorem le_cumulative (c : Nat → Nat) {i n : Nat} (h : i < n) : c i ≤ cumulative c n :=
  (Nat.le_add_left (c i) (cumulative c i)).trans (cumulative_mono c h)

theorem cumulative_eq_zero {c : Nat → Nat} (h : ∀ i, c i = 0) (n : Nat) : cumulative c n = 0 := by
  induction n with
  | zero => rfl
  | succ n ih => rw [cumulative, ih, h]

/-- One more in a place. -/
theorem cumulative_update (c : Nat → Nat) (i n : Nat) :
    cumulative (fun j => if j = i then c j + 1 else c j) n =
      cumulative c n + if i < n then 1 else 0 := by
  induction n with
  | zero => simp [cumulative]
  | succ n ih =>
    rw [cumulative, cumulative, ih]
    by_cases heq : n = i
    · subst heq
      simp
      omega
    · by_cases hlt : i < n
      · rw [if_neg heq, if_pos hlt, if_pos (Nat.lt_succ_of_lt hlt)]
        omega
      · have hnlt : ¬ i < n + 1 := by omega
        rw [if_neg heq, if_neg hlt, if_neg hnlt]
        rfl

theorem countP_lt_succ (l : List Nat) (n : Nat) :
    l.countP (fun x => x < n + 1) = l.countP (fun x => x < n) + l.count n := by
  induction l with
  | nil => rfl
  | cons a l ih =>
    rw [List.countP_cons, List.countP_cons, List.count_cons, ih]
    by_cases hlt : a < n
    · have hne : a ≠ n := Nat.ne_of_lt hlt
      simp [hlt, Nat.lt_succ_of_lt hlt, hne]
      omega
    · by_cases heq : a = n
      · simp [heq]
        omega
      · have hnlt : ¬ a < n + 1 := by omega
        simp [hlt, hnlt, heq]

/-- The counts of the elements of a list add up to how many there are. -/
theorem cumulative_count (l : List Nat) (n : Nat) :
    cumulative (fun i => l.count i) n = l.countP fun x => x < n := by
  induction n with
  | zero => simp [cumulative]
  | succ n ih => rw [cumulative, ih, countP_lt_succ]

/-- The first place from `i` on, among `fuel`, at which the sum gets to the
target. -/
def reach (c : Nat → Nat) (target : Nat) : Nat → Nat → Nat → Option Nat
  | 0, _, _ => none
  | fuel + 1, i, sum =>
    if target ≤ sum + c i then some i else reach c target fuel (i + 1) (sum + c i)

theorem reach_some {c : Nat → Nat} {target fuel i j : Nat} (hbefore : cumulative c i < target)
    (h : reach c target fuel i (cumulative c i) = some j) :
    j < i + fuel ∧ cumulative c j < target ∧ target ≤ cumulative c (j + 1) := by
  induction fuel generalizing i with
  | zero => cases h
  | succ fuel ih =>
    rw [reach] at h
    split at h
    · rename_i hle
      cases h
      exact ⟨by omega, hbefore, hle⟩
    · rename_i hlt
      obtain ⟨hj, hrest⟩ := ih (i := i + 1) (Nat.lt_of_not_le hlt) h
      exact ⟨by omega, hrest⟩

theorem reach_none {c : Nat → Nat} {target fuel i : Nat} (hbefore : cumulative c i < target) :
    reach c target fuel i (cumulative c i) = none ↔ cumulative c (i + fuel) < target := by
  induction fuel generalizing i with
  | zero => exact ⟨fun _ => hbefore, fun _ => rfl⟩
  | succ fuel ih =>
    have hend : i + (fuel + 1) = i + 1 + fuel := by omega
    rw [reach, hend]
    split
    · rename_i hle
      have hmono := cumulative_mono c (Nat.le_add_right (i + 1) fuel)
      have hreached : target ≤ cumulative c (i + 1) := hle
      constructor
      · intro h
        cases h
      · intro h
        omega
    · rename_i hlt
      exact ih (Nat.lt_of_not_le hlt)

section
variable {c : Nat → Nat} {target n : Nat}

/-- Where the sum gets to the target, the last place if it does not, against a
lower bound. -/
theorem le_reach_iff (hpos : 0 < target) {lo : Nat} (hlo : lo < n) :
    lo ≤ (reach c target n 0 0).getD (n - 1) ↔ cumulative c lo < target := by
  have hstart : cumulative c 0 < target := hpos
  cases hreach : reach c target n 0 0 with
  | none =>
    have hsum : cumulative c (0 + n) < target := (reach_none hstart).mp hreach
    rw [Nat.zero_add] at hsum
    have hmono := cumulative_mono c (Nat.le_of_lt hlo)
    constructor
    · intro _
      omega
    · intro _
      exact Nat.le_sub_one_of_lt hlo
  | some j =>
    obtain ⟨-, hbelow, hupto⟩ := reach_some hstart hreach
    show lo ≤ j ↔ _
    constructor
    · intro hle
      have hmono := cumulative_mono c hle
      omega
    · intro hlt
      by_contra hgt
      have hmono : cumulative c (j + 1) ≤ cumulative c lo :=
        cumulative_mono c (Nat.lt_of_not_le hgt)
      omega

/-- The same against an upper bound. -/
theorem reach_le_iff (hpos : 0 < target) {hi : Nat} (hhi : hi < n) :
    (reach c target n 0 0).getD (n - 1) ≤ hi ↔
      target ≤ cumulative c (hi + 1) ∨ hi = n - 1 := by
  have hstart : cumulative c 0 < target := hpos
  have hlast : cumulative c (hi + 1) ≤ cumulative c n := cumulative_mono c hhi
  cases hreach : reach c target n 0 0 with
  | none =>
    have hsum : cumulative c (0 + n) < target := (reach_none hstart).mp hreach
    rw [Nat.zero_add] at hsum
    show n - 1 ≤ hi ↔ _
    omega
  | some j =>
    obtain ⟨hj, hbelow, hupto⟩ := reach_some hstart hreach
    show j ≤ hi ↔ _
    constructor
    · intro hle
      have hmono : cumulative c (j + 1) ≤ cumulative c (hi + 1) :=
        cumulative_mono c (Nat.succ_le_succ hle)
      omega
    · rintro (htarget | rfl)
      · by_contra hgt
        have hmono : cumulative c (hi + 1) ≤ cumulative c j :=
          cumulative_mono c (Nat.lt_of_not_le hgt)
        omega
      · omega

end

/-- The sum over the histogram of a list gets to `k` at its `k`-th smallest
element. -/
theorem reach_eq_kthSmallest {l : List Nat} {n k : Nat} (hbound : ∀ x ∈ l, x < n) (hpos : 0 < k)
    (hlen : k ≤ l.length) : reach (fun i => l.count i) k n 0 0 = kthSmallest l k := by
  have hstart : cumulative (fun i => l.count i) 0 < k := hpos
  cases hreach : reach (fun i => l.count i) k n 0 0 with
  | none =>
    have hsum : cumulative (fun i => l.count i) (0 + n) < k := (reach_none hstart).mp hreach
    have hall : l.countP (fun x => decide (x < n)) = l.length := by
      rw [List.countP_eq_length]
      intro x hx
      simpa using hbound x hx
    rw [Nat.zero_add, cumulative_count, hall] at hsum
    omega
  | some j =>
    obtain ⟨-, hbelow, hupto⟩ := reach_some hstart hreach
    rw [cumulative_count] at hbelow hupto
    have hle : l.countP (fun x => decide (x < j + 1)) ≤ l.countP fun x => x ≤ j :=
      countP_mono (p := fun x => x < j + 1) (q := fun x => x ≤ j)
        (fun x hx => Nat.lt_succ_iff.mp hx) l
    exact (kthSmallest_eq hbelow (hupto.trans hle)).symm

end ContainerSim.Lib
