import Mathlib.Logic.Relation
import Mathlib.Data.Set.Finite.Basic
import Mathlib.Data.Set.Finite.Lattice
import Mathlib.Data.Finite.Defs
import Mathlib.Order.WellFounded
import Mathlib.Order.RelClasses
import Mathlib.Data.Fintype.EquivFin
import Mathlib.Data.List.Basic

/-!
# Finite dependency graphs

An edge `E i j` reads "`i` depends on `j`". The two facts a topological sort
rests on:

* a finite non-empty set of nodes of an acyclic graph has a member with no
  edge back into the set (`Acyclic.exists_sink`);
* a list in which every edge of a listed node leads to an earlier entry
  excludes cycles through it (`Sorted.acyclic`).
-/

namespace ContainerSim.Lib

variable {α : Type*} {E : α → α → Prop}

/-- No node reaches itself by one or more edges. -/
def Acyclic (E : α → α → Prop) : Prop :=
  ∀ i, ¬ Relation.TransGen E i i

/-- In a finite set of nodes of an acyclic graph some node has all its edges
leaving the set. -/
theorem Acyclic.exists_sink (hE : Acyclic E) {S : Set α} (hfin : S.Finite)
    (hne : S.Nonempty) : ∃ i ∈ S, ∀ j, E i j → j ∉ S := by
  classical
  have : Finite S := hfin
  -- the reachability order restricted to the finite set is well founded
  let R : S → S → Prop := fun a b => Relation.TransGen E b.1 a.1
  have htrans : IsTrans S R := ⟨fun _ _ _ hab hbc => hbc.trans hab⟩
  have hirr : Std.Irrefl R := ⟨fun a => hE a.1⟩
  have hwf : WellFounded R := Finite.wellFounded_of_trans_of_irrefl R
  obtain ⟨⟨m, hm⟩, -, hmin⟩ := hwf.has_min Set.univ
    ⟨⟨hne.some, hne.some_mem⟩, trivial⟩
  exact ⟨m, hm, fun j hj hjS => hmin ⟨j, hjS⟩ trivial (Relation.TransGen.single hj)⟩

/-- Every edge of the `k`-th entry leads to one of the first `k` entries. -/
def Sorted (E : α → α → Prop) (l : List α) : Prop :=
  ∀ (k : Nat) (i : α), l[k]? = some i → ∀ j, E i j → j ∈ l.take k

theorem Sorted.nil : Sorted E [] := by
  intro k i h
  simp at h

/-- Appending a node whose edges all lead into the list keeps it sorted. -/
theorem Sorted.snoc {l : List α} {x : α} (hl : Sorted E l) (hx : ∀ j, E x j → j ∈ l) :
    Sorted E (l ++ [x]) := by
  intro k i hk j hj
  rcases Nat.lt_or_ge k l.length with hlt | hge
  · rw [List.getElem?_append_left hlt] at hk
    rw [List.take_append_of_le_length (Nat.le_of_lt hlt)]
    exact hl k i hk j hj
  · rw [List.getElem?_append_right hge] at hk
    obtain ⟨hlen, hi⟩ := List.getElem?_eq_some_iff.mp hk
    simp only [List.length_singleton] at hlen
    have hk0 : k = l.length := by omega
    subst hk0
    simp only [Nat.sub_self, List.getElem_cons_zero] at hi
    subst hi
    simpa using hx j hj

/-- Along a path starting at the `k`-th entry every node is an earlier entry. -/
theorem Sorted.transGen {l : List α} (hl : Sorted E l) {i j : α}
    (h : Relation.TransGen E i j) : ∀ k : Nat, l[k]? = some i → ∃ m < k, l[m]? = some j := by
  have hstep : ∀ (k : Nat) a b, l[k]? = some a → E a b → ∃ m < k, l[m]? = some b := by
    intro k a b hk hab
    obtain ⟨m, hm, hmb⟩ := List.mem_iff_getElem.mp (hl k a hk b hab)
    rw [List.length_take] at hm
    refine ⟨m, by omega, ?_⟩
    rw [List.getElem_take] at hmb
    rw [List.getElem?_eq_getElem (by omega), hmb]
  induction h with
  | single h => exact fun k hk => hstep k _ _ hk h
  | tail _ h ih =>
    intro k hk
    obtain ⟨m, hm, hmb⟩ := ih k hk
    obtain ⟨m', hm', hb⟩ := hstep m _ _ hmb h
    exact ⟨m', by omega, hb⟩

/-- A duplicate-free sorted list that holds every node with an edge leaves no
room for a cycle. -/
theorem Sorted.acyclic {l : List α} (hl : Sorted E l) (hnd : l.Nodup)
    (hall : ∀ i j, E i j → i ∈ l) : Acyclic E := by
  intro i hcyc
  have hi : i ∈ l := by
    rcases Relation.TransGen.head'_iff.mp hcyc with ⟨c, hc, -⟩
    exact hall i c hc
  obtain ⟨k, hk, hki⟩ := List.mem_iff_getElem.mp hi
  obtain ⟨m, hm, hmi⟩ := hl.transGen hcyc k (by rw [List.getElem?_eq_getElem hk, hki])
  have hmk := (List.getElem?_inj (by omega) hnd).mp
    (hmi.trans (by rw [List.getElem?_eq_getElem hk, hki] : l[k]? = some i).symm)
  omega

/-- In a sorted list the target of an edge has the smaller position. -/
theorem Sorted.idxOf_lt [DecidableEq α] {l : List α} (hl : Sorted E l)
    {i j : α} (hi : i ∈ l) (hij : E i j) : l.idxOf j < l.idxOf i := by
  have hj : j ∈ l.take (l.idxOf i) := hl (l.idxOf i) i (List.getElem?_idxOf hi) j hij
  exact (List.mem_take_iff_idxOf_lt (List.mem_of_mem_take hj)).mp hj

theorem Sorted.of_prefix {l p : List α} (hl : Sorted E l) (h : p <+: l) : Sorted E p := by
  obtain ⟨t, rfl⟩ := h
  intro k i hk j hij
  obtain ⟨hlt, -⟩ := List.getElem?_eq_some_iff.mp hk
  have hj := hl k i (by rw [List.getElem?_append_left hlt, hk]) j hij
  rwa [List.take_append_of_le_length (Nat.le_of_lt hlt)] at hj

/-- No entry has an edge to a later one. -/
theorem Sorted.pairwise {l : List α} (hl : Sorted E l) (hnd : l.Nodup) :
    l.Pairwise fun a b => ¬ E a b := by
  rw [List.pairwise_iff_getElem]
  intro m n hm hn hmn hab
  obtain ⟨k, hk, hkb⟩ := List.mem_iff_getElem.mp
    (hl m _ (List.getElem?_eq_getElem hm) _ hab)
  rw [List.length_take] at hk
  rw [List.getElem_take] at hkb
  have := (List.Nodup.getElem_inj_iff hnd).mp hkb
  omega

/-- When no entry is the target of a later one, sources come first. -/
theorem idxOf_lt_of_pairwise [DecidableEq α] {l : List α} (hl : l.Pairwise fun a b => ¬ E b a)
    {i j : α} (hi : i ∈ l) (hj : j ∈ l) (hne : i ≠ j) (hij : E i j) :
    l.idxOf i < l.idxOf j := by
  have hi' := List.idxOf_lt_length_of_mem hi
  have hj' := List.idxOf_lt_length_of_mem hj
  rcases Nat.lt_trichotomy (l.idxOf i) (l.idxOf j) with h | h | h
  · exact h
  · exact absurd ((List.idxOf_inj hi).mp h) hne
  · have := List.pairwise_iff_getElem.mp hl _ _ hj' hi' h
    rw [List.getElem_idxOf, List.getElem_idxOf] at this
    exact absurd hij this

end ContainerSim.Lib
