import ContainerSim.Lib.Keyed
import Mathlib.Data.List.Nodup
import Mathlib.Data.List.Perm.Subperm

/-!
# Slot tables as finite maps

A table is an array of slots, of which some are live. It stands for a map if no
key has two live slots (`Represents`). Overwriting the live slot of a key,
taking a free slot for a new key and freeing the slots of a key are the changes
of that map, and as long as the map has fewer keys than the table has slots
there is a free one.
-/

namespace ContainerSim.Lib

variable {ρ κ ν : Type*} [DecidableEq κ] (live : ρ → Bool) (key : ρ → κ) (val : ρ → ν)

/-- The keys of the live slots. -/
def liveKeys (l : List ρ) : List κ := (l.filter live).map key

structure Represents (l : List ρ) (m : κ → Option ν) : Prop where
  nodup : (liveKeys live key l).Nodup
  mem : ∀ k v, (∃ r ∈ l, live r = true ∧ key r = k ∧ val r = v) ↔ m k = some v

variable {live key val}

omit [DecidableEq κ] in
theorem mem_liveKeys {l : List ρ} {k : κ} :
    k ∈ liveKeys live key l ↔ ∃ r ∈ l, live r = true ∧ key r = k := by
  unfold liveKeys
  simp only [List.mem_map, List.mem_filter, and_assoc]

theorem modify_middle {α : Type*} (pre post : List α) (a : α) (f : α → α) :
    (pre ++ a :: post).modify pre.length f = pre ++ f a :: post := by
  rw [List.modify_eq_take_cons_drop (by simp)]
  simp

omit [DecidableEq κ] in
theorem liveKeys_middle (pre post : List ρ) (r : ρ) :
    liveKeys live key (pre ++ r :: post) =
      liveKeys live key pre ++ ((if live r then [key r] else []) ++ liveKeys live key post) := by
  unfold liveKeys
  rw [List.filter_append, List.map_append, List.filter_cons]
  split
  · rfl
  · rfl

namespace Represents

variable {l pre post : List ρ} {m : κ → Option ν} {r r' : ρ}

omit [DecidableEq κ] in
theorem mem_keys (h : Represents live key val l m) {k : κ} :
    k ∈ liveKeys live key l ↔ m k ≠ none := by
  rw [mem_liveKeys]
  constructor
  · rintro ⟨r, hr, hlive, hkey⟩
    rw [(h.mem k (val r)).mp ⟨r, hr, hlive, hkey, rfl⟩]
    exact fun hnone => by cases hnone
  · intro hne
    obtain ⟨v, hv⟩ := Option.ne_none_iff_exists'.mp hne
    obtain ⟨r, hr, hlive, hkey, -⟩ := (h.mem k v).mpr hv
    exact ⟨r, hr, hlive, hkey⟩

/-- No key has two live slots. -/
theorem countP_le_one (h : Represents live key val l m) (k : κ) :
    l.countP (fun r => live r && decide (key r = k)) ≤ 1 := by
  have hcount := List.nodup_iff_count_le_one.mp h.nodup k
  have heq : (liveKeys live key l).count k = l.countP fun r => live r && decide (key r = k) := by
    unfold liveKeys
    rw [List.count, List.countP_map, List.countP_filter]
    refine List.countP_congr fun r _ => ?_
    simp [and_comm, Function.comp]
  exact heq ▸ hcount

omit [DecidableEq κ] in
theorem empty (h : ∀ r ∈ l, live r = false) : Represents live key val l fun _ => none := by
  have hnone : l.filter live = [] := by
    rw [List.filter_eq_nil_iff]
    exact fun r hr => by rw [h r hr]; decide
  refine ⟨?_, fun k v => ⟨?_, fun hv => (by cases hv)⟩⟩
  · rw [liveKeys, hnone]
    exact List.nodup_nil
  · rintro ⟨r, hr, hlive, -⟩
    rw [h r hr] at hlive
    cases hlive

/-- A slot is written; no other live slot has its key, and it had no other. -/
theorem put (h : Represents live key val (pre ++ r :: post) m) (hr' : live r' = true)
    (hr : live r = true → key r = key r')
    (hother : key r' ∉ liveKeys live key pre ++ liveKeys live key post) :
    Represents live key val (pre ++ r' :: post) ((Change.put (key r') (val r')).apply m) := by
  have hrest : (liveKeys live key pre ++ liveKeys live key post).Nodup := by
    have hkeys := h.nodup
    rw [liveKeys_middle] at hkeys
    refine List.Sublist.nodup ?_ hkeys
    exact (List.Sublist.refl _).append (List.sublist_append_right _ _)
  refine ⟨?_, fun k v => ?_⟩
  · rw [liveKeys_middle, if_pos hr', List.singleton_append, List.nodup_middle]
    exact List.nodup_cons.mpr ⟨hother, hrest⟩
  · have hmem := h.mem k v
    simp only [List.mem_append, List.mem_cons] at hmem
    simp only [List.mem_append, List.mem_cons, Change.apply]
    by_cases hk : k = key r'
    · -- the only slot of the key is the one that is written
      rw [if_pos hk]
      constructor
      · rintro ⟨q, hq | rfl | hq, hlive, hkq, rfl⟩
        · refine absurd ?_ hother
          exact List.mem_append_left _ (mem_liveKeys.mpr ⟨q, hq, hlive, hkq.trans hk⟩)
        · rfl
        · refine absurd ?_ hother
          exact List.mem_append_right _ (mem_liveKeys.mpr ⟨q, hq, hlive, hkq.trans hk⟩)
      · intro hv
        exact ⟨r', .inr (.inl rfl), hr', hk.symm, Option.some.inj hv⟩
    · rw [if_neg hk, ← hmem]
      constructor
      · rintro ⟨q, hq | rfl | hq, hlive, hkq, hv⟩
        · exact ⟨q, .inl hq, hlive, hkq, hv⟩
        · exact absurd hkq.symm hk
        · exact ⟨q, .inr (.inr hq), hlive, hkq, hv⟩
      · rintro ⟨q, hq | rfl | hq, hlive, hkq, hv⟩
        · exact ⟨q, .inl hq, hlive, hkq, hv⟩
        · exact absurd (hkq.symm.trans (hr hlive)) hk
        · exact ⟨q, .inr (.inr hq), hlive, hkq, hv⟩

/-- The live slot of a key is overwritten. -/
theorem update (h : Represents live key val (pre ++ r :: post) m) (hr : live r = true)
    (hr' : live r' = true) (hkey : key r' = key r) :
    Represents live key val (pre ++ r' :: post) ((Change.put (key r') (val r')).apply m) := by
  have hkeys := h.nodup
  rw [liveKeys_middle, if_pos hr, List.singleton_append, List.nodup_middle] at hkeys
  exact h.put hr' (fun _ => hkey.symm) (hkey ▸ (List.nodup_cons.mp hkeys).1)

/-- A free slot is taken for a new key. -/
theorem fill (h : Represents live key val (pre ++ r :: post) m) (hr : live r = false)
    (hr' : live r' = true) (hnew : m (key r') = none) :
    Represents live key val (pre ++ r' :: post) ((Change.put (key r') (val r')).apply m) := by
  have hfresh : key r' ∉ liveKeys live key (pre ++ r :: post) := by
    rw [h.mem_keys]
    exact not_not.mpr hnew
  rw [liveKeys_middle, if_neg (by rw [hr]; decide), List.nil_append] at hfresh
  exact h.put hr' (fun hlive => by rw [hr] at hlive; cases hlive) hfresh

/-- The slots of a key are freed. -/
theorem free (h : Represents live key val l m) {k : κ} {f : ρ → ρ}
    (hdead : ∀ r, live r = true → key r = k → live (f r) = false)
    (hkeep : ∀ r, ¬ (live r = true ∧ key r = k) → f r = r) :
    Represents live key val (l.map f) ((Change.del k).apply m) := by
  -- what is live behind the change was live before and is untouched
  have hlive : ∀ r, live (f r) = true → live r = true ∧ key r ≠ k ∧ f r = r := by
    intro r hf
    by_cases hr : live r = true ∧ key r = k
    · rw [hdead r hr.1 hr.2] at hf
      cases hf
    · have heq := hkeep r hr
      rw [heq] at hf
      exact ⟨hf, fun hk => hr ⟨hf, hk⟩, heq⟩
  refine ⟨?_, fun k' v => ?_⟩
  · have hsub : (liveKeys live key (l.map f)).Sublist (liveKeys live key l) := by
      unfold liveKeys
      rw [List.filter_map, List.map_map]
      have hsame : (l.filter (live ∘ f)).map (key ∘ f) = (l.filter (live ∘ f)).map key := by
        refine List.map_congr_left fun r hr => ?_
        exact congrArg key (hlive r (List.mem_filter.mp hr).2).2.2
      rw [hsame]
      exact (List.monotone_filter_right l fun r hr => (hlive r hr).1).map key
    exact hsub.nodup h.nodup
  · simp only [Change.apply]
    constructor
    · rintro ⟨q, hq, hlq, hkq, rfl⟩
      obtain ⟨r, hr, rfl⟩ := List.mem_map.mp hq
      obtain ⟨hlr, hne, heq⟩ := hlive r hlq
      rw [heq] at hkq ⊢
      rw [if_neg fun hk => hne (hkq.trans hk)]
      exact (h.mem k' _).mp ⟨r, hr, hlr, hkq, rfl⟩
    · intro hv
      split at hv
      · cases hv
      · rename_i hk
        obtain ⟨r, hr, hlr, hkr, hvr⟩ := (h.mem k' v).mpr hv
        have heq := hkeep r fun hrk => hk (hkr.symm.trans hrk.2)
        exact ⟨r, List.mem_map.mpr ⟨r, hr, heq⟩, hlr, hkr, hvr⟩

omit [DecidableEq κ] in
/-- With fewer keys than slots some slot is free. -/
theorem exists_free (h : Represents live key val l m) {ks : List κ} (hfew : ks.length < l.length)
    (hks : ∀ k, m k ≠ none → k ∈ ks) : ∃ r ∈ l, live r = false := by
  by_contra hfull
  push Not at hfull
  have hall : l.filter live = l := by
    rw [List.filter_eq_self]
    exact fun r hr => by simpa using hfull r hr
  have hsub : liveKeys live key l ⊆ ks := fun k hk => hks k (h.mem_keys.mp hk)
  have hlen := (List.subperm_of_subset h.nodup hsub).length_le
  rw [liveKeys, hall, List.length_map] at hlen
  omega

end Represents

end ContainerSim.Lib
