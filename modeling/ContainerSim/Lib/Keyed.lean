import Mathlib.Data.List.Basic
import Mathlib.Data.List.Induction
import Mathlib.Tactic.Common

/-!
# Lists of records as finite maps

A list of records with a key each stands for the map `lookup` from keys to
values: the value of the first record with the key. Overwriting the first
record of a key, appending a record of a new key and dropping all records of a
key are the operations of that map. A history of changes stands for a map as
well (`Change.replay`): the last change of a key decides.
-/

namespace ContainerSim.Lib

variable {ρ κ ν : Type*} [DecidableEq κ]

section Lookup

variable (key : ρ → κ) (val : ρ → ν)

/-- The value of the first record with the key. -/
def lookup (l : List ρ) (k : κ) : Option ν := (l.find? fun r => key r = k).map val

theorem lookup_eq_none_iff {l : List ρ} {k : κ} : lookup key val l k = none ↔ k ∉ l.map key := by
  simp [lookup]

theorem lookup_append (l : List ρ) (r : ρ) {k : κ} (hnew : key r ∉ l.map key) :
    lookup key val (l ++ [r]) k =
      if k = key r then some (val r) else lookup key val l k := by
  by_cases hk : k = key r
  · subst hk
    have hnone : l.find? (fun r' => key r' = key r) = none := by
      rw [List.find?_eq_none]
      intro r' hr' heq
      exact hnew (List.mem_map.mpr ⟨r', hr', of_decide_eq_true heq⟩)
    simp [lookup, List.find?_append, hnone]
  · have hne : ¬ key r = k := fun h => hk h.symm
    simp [lookup, List.find?_append, hk, hne]

/-- Overwriting the first record of a key. -/
theorem lookup_modify {l : List ρ} {k : κ} {i : Nat} {f : ρ → ρ} {v : ν}
    (hi : l.findIdx? (fun r => key r = k) = some i) (hkey : ∀ r, key (f r) = key r)
    (hval : ∀ r, val (f r) = v) (k' : κ) :
    lookup key val (l.modify i f) k' = if k' = k then some v else lookup key val l k' := by
  induction l generalizing i with
  | nil => simp at hi
  | cons r l ih =>
    rw [List.findIdx?_cons] at hi
    by_cases hr : key r = k
    · rw [if_pos (decide_eq_true hr)] at hi
      obtain rfl := Option.some.inj hi
      by_cases hk : k' = k
      · simp [lookup, hkey, hr, hk, hval]
      · have hne : ¬ k = k' := fun h => hk h.symm
        simp [lookup, hkey, hr, hk, hne]
    · rw [if_neg (by simpa using hr)] at hi
      obtain ⟨j, hj, rfl⟩ := Option.map_eq_some_iff.mp hi
      have hrest := ih hj
      rw [List.modify_succ_cons]
      by_cases hk : key r = k'
      · have hne : ¬ k' = k := fun h => hr (hk.trans h)
        simp [lookup, hk, hne]
      · simpa [lookup, hk] using hrest

omit [DecidableEq κ] in
theorem map_key_modify (l : List ρ) (i : Nat) {f : ρ → ρ} (hkey : ∀ r, key (f r) = key r) :
    (l.modify i f).map key = l.map key := by
  induction l generalizing i with
  | nil => cases i <;> rfl
  | cons r l ih =>
    cases i with
    | zero => simp [hkey]
    | succ i => simp [ih]

theorem forall_mem_modify {l : List ρ} {f : ρ → ρ} {p : ρ → Prop} (hp : ∀ r ∈ l, p r)
    (hf : ∀ r ∈ l, p (f r)) (i : Nat) : ∀ r ∈ l.modify i f, p r := by
  intro r hr
  obtain ⟨j, hj, rfl⟩ := List.mem_iff_getElem.mp hr
  rw [List.length_modify] at hj
  rw [List.getElem_modify]
  have hmem := List.getElem_mem hj
  split
  · exact hf _ hmem
  · exact hp _ hmem

/-- Dropping all records of a key. -/
theorem lookup_filter (l : List ρ) (k k' : κ) :
    lookup key val (l.filter fun r => key r ≠ k) k' =
      if k' = k then none else lookup key val l k' := by
  induction l with
  | nil => simp [lookup]
  | cons r l ih =>
    by_cases hr : key r = k
    · by_cases hk : k' = k
      · rw [if_pos hk] at ih ⊢
        simpa [hr] using ih
      · rw [if_neg hk] at ih ⊢
        have hne : ¬ k = k' := fun h => hk h.symm
        simpa [lookup, hr, hne] using ih
    · by_cases hk : key r = k'
      · have hne : ¬ k' = k := fun h => hr (hk.trans h)
        simp [lookup, hk, hne]
      · by_cases hkk : k' = k
        · rw [if_pos hkk] at ih ⊢
          simpa [lookup, hr, hk] using ih
        · rw [if_neg hkk] at ih ⊢
          simpa [lookup, hr, hk] using ih

end Lookup

/-! ## Histories -/

/-- One change of a map. -/
inductive Change (κ ν : Type*) where
  | put (k : κ) (v : ν)
  | del (k : κ)
  deriving DecidableEq

def Change.key : Change κ ν → κ
  | .put k _ => k
  | .del k => k

def Change.apply (m : κ → Option ν) : Change κ ν → κ → Option ν
  | .put k v => fun k' => if k' = k then some v else m k'
  | .del k => fun k' => if k' = k then none else m k'

/-- The map a history of changes leads to. -/
def Change.replay (h : List (Change κ ν)) : κ → Option ν := h.foldl Change.apply fun _ => none

theorem Change.replay_snoc (h : List (Change κ ν)) (c : Change κ ν) :
    Change.replay (h ++ [c]) = c.apply (Change.replay h) := by
  rw [Change.replay, List.foldl_append]
  rfl

/-- A key is bound to what the last change of it has put there. -/
theorem Change.replay_eq_some_iff {h : List (Change κ ν)} {k : κ} {v : ν} :
    Change.replay h k = some v ↔
      ∃ before after, h = before ++ .put k v :: after ∧ ∀ c ∈ after, c.key ≠ k := by
  induction h using List.reverseRecOn with
  | nil => simp [Change.replay]
  | append_singleton h c ih =>
    -- by whether the last change is about the key
    rw [Change.replay_snoc]
    constructor
    · intro hv
      by_cases hk : k = c.key
      · cases c with
        | put k' v' =>
          have hk : k = k' := hk
          subst hk
          have hv : v' = v := by simpa [Change.apply] using hv
          subst hv
          exact ⟨h, [], rfl, by simp⟩
        | del k' =>
          have hk : k = k' := hk
          subst hk
          simp [Change.apply] at hv
      · have hold : Change.replay h k = some v := by
          cases c with
          | put k' v' =>
            have hk : ¬ k = k' := hk
            simpa [Change.apply, hk] using hv
          | del k' =>
            have hk : ¬ k = k' := hk
            simpa [Change.apply, hk] using hv
        obtain ⟨before, after, rfl, hafter⟩ := ih.mp hold
        refine ⟨before, after ++ [c], by simp, fun c' hc' => ?_⟩
        rcases List.mem_append.mp hc' with hc' | hc'
        · exact hafter c' hc'
        · rw [List.mem_singleton.mp hc']
          exact fun heq => hk heq.symm
    · rintro ⟨before, after, heq, hafter⟩
      -- the last put of the key is the last change, or another follows it
      rcases List.eq_nil_or_concat after with rfl | ⟨after, c', rfl⟩
      · obtain ⟨rfl, hc⟩ := List.append_inj' heq rfl
        cases hc
        simp [Change.apply]
      · rw [List.concat_eq_append] at heq hafter
        have hsplit : before ++ Change.put k v :: (after ++ [c']) =
            (before ++ Change.put k v :: after) ++ [c'] := by simp
        rw [hsplit] at heq
        obtain ⟨hold, hc⟩ := List.append_inj' heq rfl
        cases hc
        have hv := ih.mpr ⟨before, after, hold, fun c hc => hafter c (List.mem_append_left _ hc)⟩
        have hne : ¬ k = c.key := fun h => hafter c (by simp) h.symm
        cases c with
        | put k' v' =>
          have hne : ¬ k = k' := hne
          simpa [Change.apply, hne] using hv
        | del k' =>
          have hne : ¬ k = k' := hne
          simpa [Change.apply, hne] using hv

end ContainerSim.Lib
