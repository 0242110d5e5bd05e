import Mathlib.Data.List.Basic
import Mathlib.Tactic.Common

/-!
# Arrays filled up to a count

An array whose first `count` slots are in use, worked on in place: an entry is
put behind the others, searched, and the entries without a property are thrown
out by a loop that writes the ones it keeps further to the front. What each
does is stated for the list of the entries.
-/

namespace ContainerSim.Lib

variable {α : Type*}

/-- The first slot in use whose entry has the property. -/
def findSlot (p : α → Bool) (slots : List α) (count : Nat) : Option Nat :=
  (List.range count).find? fun i => slots[i]?.any p

/-- One turn of the loop that throws entries out, with the slot that is written
next. -/
def keepStep (keep : α → Bool) (st : List α × Nat) (i : Nat) : List α × Nat :=
  match st.1[i]? with
  | some x => if keep x then (st.1.set st.2 x, st.2 + 1) else st
  | none => st

/-- The loop, and how many entries it keeps. -/
def compact (keep : α → Bool) (slots : List α) (count : Nat) : List α × Nat :=
  (List.range count).foldl (keepStep keep) (slots, 0)

theorem take_set_self {slots : List α} {count : Nat} (x : α) (h : count < slots.length) :
    (slots.set count x).take (count + 1) = slots.take count ++ [x] := by
  rw [List.take_add_one, List.take_set_of_le (Nat.le_refl count),
    List.getElem?_set_self h]
  rfl

theorem findSlot_eq {p : α → Bool} {slots : List α} {count : Nat} (h : count ≤ slots.length) :
    findSlot p slots count = (slots.take count).findIdx? p := by
  have hlen : (slots.take count).length = count := List.length_take_of_le h
  have hget : ∀ i, i < count → slots[i]? = (slots.take count)[i]? := by
    intro i hi
    rw [List.getElem?_take, if_pos hi]
  unfold findSlot
  cases hidx : (slots.take count).findIdx? p with
  | none =>
    rw [List.find?_range_eq_none]
    intro i hi
    have hi' : i < (slots.take count).length := by omega
    have hno := List.findIdx?_eq_none_iff.mp hidx _ (List.getElem_mem hi')
    rw [hget i hi, List.getElem?_eq_getElem hi', Option.any_some, hno]
    rfl
  | some i =>
    obtain ⟨hi, hp, hbefore⟩ := List.findIdx?_eq_some_iff_getElem.mp hidx
    rw [List.find?_range_eq_some]
    refine ⟨?_, List.mem_range.mpr (by omega), fun j hj => ?_⟩
    · rw [hget i (by omega), List.getElem?_eq_getElem hi]
      exact hp
    · rw [hget j (by omega), List.getElem?_eq_getElem (by omega), Option.any_some]
      simpa using hbefore j hj

/-! ## Throwing entries out -/

/-- The loop after `i` turns: what it has kept stands in front, and what it has
not seen is where it was. -/
structure Compacted (keep : α → Bool) (slots : List α) (i : Nat) (st : List α × Nat) : Prop where
  behind : st.2 ≤ i
  length : st.1.length = slots.length
  kept : st.1.take st.2 = (slots.take i).filter keep
  unseen : st.1.drop i = slots.drop i

theorem Compacted.step {keep : α → Bool} {slots : List α} {i : Nat} {st : List α × Nat}
    (h : Compacted keep slots i st) (hi : i < slots.length) :
    Compacted keep slots (i + 1) (keepStep keep st i) := by
  have hread : st.1[i]? = some slots[i] := by
    have hhead := congrArg List.head? h.unseen
    rw [List.head?_drop, List.head?_drop, List.getElem?_eq_getElem hi] at hhead
    exact hhead
  have htail : st.1.drop (i + 1) = slots.drop (i + 1) := by
    have hdrop := congrArg (List.drop 1) h.unseen
    rwa [List.drop_drop, List.drop_drop] at hdrop
  have htake : (slots.take (i + 1)).filter keep =
      (slots.take i).filter keep ++ [slots[i]].filter keep := by
    rw [List.take_add_one, List.getElem?_eq_getElem hi, List.filter_append]
    rfl
  have hbehind := h.behind
  have hlength := h.length
  unfold keepStep
  rw [hread]
  simp only
  split
  · rename_i hkeep
    refine ⟨by simpa using hbehind, by simpa using hlength, ?_, ?_⟩
    · rw [take_set_self _ (by omega), h.kept, htake, List.filter_singleton, hkeep]
      rfl
    · rw [List.drop_set_of_lt (by omega)]
      exact htail
  · rename_i hkeep
    refine ⟨by omega, hlength, ?_, htail⟩
    rw [h.kept, htake, List.filter_singleton, (Bool.not_eq_true _).mp hkeep]
    exact (List.append_nil _).symm

theorem compacted {keep : α → Bool} {slots : List α} {count : Nat} (h : count ≤ slots.length) :
    Compacted keep slots count (compact keep slots count) := by
  unfold compact
  induction count with
  | zero => exact ⟨Nat.le_refl 0, rfl, rfl, rfl⟩
  | succ i ih =>
    rw [List.range_succ, List.foldl_append]
    exact (ih (by omega)).step (by omega)

end ContainerSim.Lib
