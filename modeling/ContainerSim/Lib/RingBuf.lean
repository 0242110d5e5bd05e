import Mathlib.Logic.Function.Basic
import Mathlib.Data.Nat.ModEq
import Mathlib.Tactic.Common

/-!
# Ring buffers indexed by sequence numbers

An array of `n` slots that entry number `i` shares with all entries congruent
to `i` modulo `n`. The last `n` entries written are the ones that can be read
back (`get_fill`), and once `n` entries have been written nothing is left of
what the array held before (`fill_full`).
-/

namespace ContainerSim.Lib

variable {α : Type*} {n : Nat} [NeZero n]

/-- An array of `n` slots. -/
@[ext] structure RingBuf (n : Nat) (α : Type*) where
  slot : Fin n → α

namespace RingBuf

/-- The slot of entry number `i`. -/
def get (r : RingBuf n α) (i : Nat) : α := r.slot (Fin.ofNat n i)

/-- Stores entry number `i`. -/
def put (r : RingBuf n α) (i : Nat) (x : α) : RingBuf n α :=
  ⟨Function.update r.slot (Fin.ofNat n i) x⟩

/-- Stores the entries of a list under consecutive numbers. -/
def fill (r : RingBuf n α) : Nat → List α → RingBuf n α
  | _, [] => r
  | i, x :: l => (r.put i x).fill (i + 1) l

/-! ## One entry -/

theorem ofNat_eq_iff {i j : Nat} : Fin.ofNat n i = Fin.ofNat n j ↔ i % n = j % n := by
  simp [Fin.ext_iff, Fin.ofNat]

@[simp] theorem get_put_self (r : RingBuf n α) (i : Nat) (x : α) : (r.put i x).get i = x := by
  simp [get, put]

theorem get_put_of_ne (r : RingBuf n α) {i j : Nat} (x : α) (h : i % n ≠ j % n) :
    (r.put j x).get i = r.get i := by
  have hne : Fin.ofNat n i ≠ Fin.ofNat n j := fun heq => h (ofNat_eq_iff.mp heq)
  show Function.update r.slot (Fin.ofNat n j) x (Fin.ofNat n i) = _
  rw [Function.update_of_ne hne, get]

theorem get_congr (r : RingBuf n α) {i j : Nat} (h : i % n = j % n) : r.get i = r.get j := by
  rw [get, get, ofNat_eq_iff.mpr h]

theorem put_congr (r : RingBuf n α) {i j : Nat} (x : α) (h : i % n = j % n) :
    r.put i x = r.put j x := by
  rw [put, put, ofNat_eq_iff.mpr h]

omit [NeZero n] in
/-- Two numbers less than a round apart do not share a slot. -/
theorem mod_ne_of_near {i j : Nat} (hij : i < j) (hn : j < i + n) : i % n ≠ j % n := by
  intro heq
  have hdvd : n ∣ j - i := (Nat.modEq_iff_dvd' (Nat.le_of_lt hij)).mp heq
  have hle := Nat.le_of_dvd (by omega) hdvd
  omega

/-- Every slot has a number in each round of `n`. -/
theorem exists_offset (s : Nat) (j : Fin n) : ∃ k, k < n ∧ Fin.ofNat n (s + k) = j := by
  have hpos : 0 < n := Nat.pos_of_ne_zero (NeZero.ne n)
  have hlt : s % n < n := Nat.mod_lt s hpos
  refine ⟨(j + (n - s % n)) % n, Nat.mod_lt _ hpos, ?_⟩
  have hsum : s + (j + (n - s % n)) = j + n * (s / n + 1) := by
    have hdiv := Nat.mod_add_div s n
    rw [Nat.mul_add, Nat.mul_one]
    omega
  apply Fin.ext
  show (s + (j + (n - s % n)) % n) % n = j
  rw [Nat.add_mod_mod, hsum, Nat.add_mul_mod_self_left]
  exact Nat.mod_eq_of_lt j.isLt

/-! ## A list of entries -/

theorem fill_append (r : RingBuf n α) (i : Nat) (l l' : List α) :
    r.fill i (l ++ l') = (r.fill i l).fill (i + l.length) l' := by
  induction l generalizing r i with
  | nil => rfl
  | cons x l ih =>
    show (r.put i x).fill (i + 1) (l ++ l') = _
    rw [ih, List.length_cons, Nat.add_assoc, Nat.add_comm 1]
    rfl

/-- A slot that none of the entries goes to is left alone. -/
theorem slot_fill_of_ne (r : RingBuf n α) (i : Nat) (l : List α) {j : Fin n}
    (h : ∀ k, k < l.length → Fin.ofNat n (i + k) ≠ j) : (r.fill i l).slot j = r.slot j := by
  induction l generalizing r i with
  | nil => rfl
  | cons x l ih =>
    have hfirst : Fin.ofNat n i ≠ j := h 0 (by simp)
    have hrest := ih (r.put i x) (i + 1) fun k hk => by
      rw [Nat.add_assoc, Nat.add_comm 1]
      exact h (k + 1) (by simpa using hk)
    show ((r.put i x).fill (i + 1) l).slot j = r.slot j
    rw [hrest]
    exact Function.update_of_ne hfirst.symm _ _

/-- The last `n` entries can be read back. -/
theorem get_fill (r : RingBuf n α) (i : Nat) (l : List α) {k : Nat} (hk : k < l.length)
    (hlast : l.length ≤ k + n) : (r.fill i l).get (i + k) = l[k] := by
  induction l generalizing r i k with
  | nil => simp at hk
  | cons x l ih =>
    simp only [List.length_cons] at hk hlast
    cases k with
    | zero =>
      show ((r.put i x).fill (i + 1) l).slot (Fin.ofNat n i) = x
      rw [slot_fill_of_ne]
      · exact get_put_self r i x
      · intro k hk heq
        exact mod_ne_of_near (n := n) (by omega) (by omega) (ofNat_eq_iff.mp heq).symm
    | succ k =>
      have hnext := ih (r.put i x) (i + 1) (k := k) (by omega) (by omega)
      rw [Nat.add_assoc, Nat.add_comm 1] at hnext
      exact hnext

/-- What a slot holds does not depend on what it held, once it is written. -/
theorem slot_fill_congr (r r' : RingBuf n α) (i : Nat) (l : List α) {j : Fin n}
    (h : ∃ k, k < l.length ∧ Fin.ofNat n (i + k) = j) :
    (r.fill i l).slot j = (r'.fill i l).slot j := by
  induction l generalizing r r' i with
  | nil =>
    obtain ⟨k, hk, -⟩ := h
    simp at hk
  | cons x l ih =>
    show ((r.put i x).fill (i + 1) l).slot j = ((r'.put i x).fill (i + 1) l).slot j
    by_cases hrest : ∃ k, k < l.length ∧ Fin.ofNat n (i + 1 + k) = j
    · exact ih _ _ _ hrest
    · have hnone : ∀ k, k < l.length → Fin.ofNat n (i + 1 + k) ≠ j :=
        fun k hk heq => hrest ⟨k, hk, heq⟩
      rw [slot_fill_of_ne _ _ _ hnone, slot_fill_of_ne _ _ _ hnone]
      obtain ⟨k, hk, hkj⟩ := h
      cases k with
      | zero =>
        have hkj : Fin.ofNat n i = j := hkj
        show Function.update r.slot (Fin.ofNat n i) x j = Function.update r'.slot (Fin.ofNat n i) x j
        rw [hkj, Function.update_self, Function.update_self]
      | succ k =>
        refine absurd ⟨k, by simpa using hk, ?_⟩ hrest
        rw [Nat.add_assoc, Nat.add_comm 1]
        exact hkj

/-- A full round leaves nothing of what was there. -/
theorem fill_full (r r' : RingBuf n α) (i : Nat) {l : List α} (h : n ≤ l.length) :
    r.fill i l = r'.fill i l := by
  apply RingBuf.ext
  funext j
  obtain ⟨k, hk, hkj⟩ := exists_offset i j
  exact slot_fill_congr r r' i l ⟨k, by omega, hkj⟩

/-- After any number of entries the last round of them is all there is. -/
theorem fill_drop (r : RingBuf n α) (i : Nat) (l : List α) :
    r.fill (i + (l.length - n)) (l.drop (l.length - n)) = r.fill i l := by
  by_cases hfull : n ≤ l.length
  · have hsplit := fill_append r i (l.take (l.length - n)) (l.drop (l.length - n))
    rw [List.take_append_drop, List.length_take, Nat.min_eq_left (Nat.sub_le _ _)] at hsplit
    rw [hsplit]
    exact fill_full _ _ _ (by rw [List.length_drop]; omega)
  · have hzero : l.length - n = 0 := by omega
    rw [hzero]
    rfl

/-- Numbers that agree modulo `n` fill the same slots. -/
theorem fill_congr (r : RingBuf n α) {i j : Nat} (l : List α) (h : i % n = j % n) :
    r.fill i l = r.fill j l := by
  induction l generalizing r i j with
  | nil => rfl
  | cons x l ih =>
    show (r.put i x).fill (i + 1) l = (r.put j x).fill (j + 1) l
    rw [put_congr r x h]
    exact ih _ (Nat.ModEq.add_right 1 h)

end RingBuf

/-! ## A window on the last entries -/

/-- A ring with the slot that is written next and the number of slots in use. -/
@[ext] structure Window (n : Nat) (α : Type*) where
  ring : RingBuf n α
  head : Nat
  count : Nat

namespace Window

def push (w : Window n α) (x : α) : Window n α :=
  { ring := w.ring.put w.head x
    head := (w.head + 1) % n
    count := if w.count < n then w.count + 1 else w.count }

/-- The slot of the oldest entry. -/
def start (w : Window n α) : Nat := if w.count < n then 0 else w.head

/-- The window behind the first `k` entries. -/
def after (r : RingBuf n α) (k : Nat) : Window n α := { ring := r, head := k % n, count := min k n }

theorem push_after (r : RingBuf n α) (k : Nat) (x : α) :
    (after r k).push x = after (r.put k x) (k + 1) := by
  have hcount : (after r k).count = min k n := rfl
  apply Window.ext
  · exact RingBuf.put_congr r x (Nat.mod_mod k n)
  · show (k % n + 1) % n = (k + 1) % n
    rw [Nat.mod_add_mod]
  · show (if (after r k).count < n then (after r k).count + 1 else (after r k).count) =
      min (k + 1) n
    split
    · omega
    · omega

theorem foldl_push_after (r : RingBuf n α) (k : Nat) (l : List α) :
    l.foldl push (after r k) = after (r.fill k l) (k + l.length) := by
  induction l generalizing r k with
  | nil => rfl
  | cons x l ih =>
    rw [List.foldl_cons, push_after, ih, List.length_cons, Nat.add_assoc, Nat.add_comm 1]
    rfl

/-- A window that starts empty is behind all entries. -/
theorem foldl_push (r : RingBuf n α) (l : List α) :
    l.foldl push { ring := r, head := 0, count := 0 } = after (r.fill 0 l) l.length := by
  have hzero : ({ ring := r, head := 0, count := 0 } : Window n α) = after r 0 := by
    simp [after]
  rw [hzero, foldl_push_after, Nat.zero_add]

omit [NeZero n] in
theorem start_after (r : RingBuf n α) (k : Nat) :
    (after r k).start = if k < n then 0 else k % n := by
  have hiff : min k n < n ↔ k < n := by omega
  simp only [start, after, hiff]

/-- From the oldest entry on, the slots hold the last entries. -/
theorem get_start (r : RingBuf n α) (l : List α) {i : Nat} (hi : i < min l.length n) :
    (l.drop (l.length - n))[i]? =
      some ((r.fill 0 l).get ((after (r.fill 0 l) l.length).start + i)) := by
  have hlt : l.length - n + i < l.length := by omega
  have hget := RingBuf.get_fill r 0 l hlt (by omega)
  rw [List.getElem?_drop, List.getElem?_eq_getElem hlt, ← hget]
  refine congrArg some (RingBuf.get_congr _ ?_)
  rw [start_after, Nat.zero_add]
  split
  · have hall : l.length - n + i = i := by omega
    rw [hall, Nat.zero_add]
  · have hround : l.length + i = l.length - n + i + n := by omega
    rw [Nat.mod_add_mod, hround, Nat.add_mod_right]

end Window

end ContainerSim.Lib
