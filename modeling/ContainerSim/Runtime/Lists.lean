import ContainerSim.Runtime.Ops
import Mathlib.Data.List.Nodup

/-!
# Lookup and update in the container list

`find_container`, writing through a pointer and removal, as facts about lists
of records whose addresses are distinct.
-/

namespace ContainerSim.Runtime

open Lib

theorem mem_of_findContainer {list : List Container} {id : Bytes} {c : Container}
    (h : findContainer list id = some c) : c ∈ list ∧ (c.id = id ∨ c.name = id) := by
  rw [findContainer, Option.or_eq_some_iff] at h
  rcases h with h | ⟨-, h⟩
  · exact ⟨List.mem_of_find?_eq_some h, .inl (by simpa using List.find?_some h)⟩
  · rw [Option.or_eq_some_iff] at h
    rcases h with h | ⟨-, h⟩
    · have := List.find?_some h
      simp only [decide_eq_true_eq] at this
      exact ⟨List.mem_of_find?_eq_some h, .inr this.1⟩
    · exact ⟨List.mem_of_find?_eq_some h, .inr (by simpa using List.find?_some h)⟩

/-- An id that a record has is found as an id, whatever the names are. -/
theorem findContainer_of_id {list : List Container} {id : Bytes} (hex : ∃ d ∈ list, d.id = id) :
    ∃ c, findContainer list id = some c ∧ c.id = id := by
  obtain ⟨d, hd, hid⟩ := hex
  have hsome : (list.find? fun d => d.id = id).isSome := by
    rw [List.find?_isSome]
    exact ⟨d, hd, by simp [hid]⟩
  obtain ⟨e, he⟩ := Option.isSome_iff_exists.mp hsome
  refine ⟨e, ?_, by simpa using List.find?_some he⟩
  rw [findContainer, he, Option.some_or]

theorem findContainer_id {list : List Container} {id : Bytes} {c : Container}
    (hex : ∃ d ∈ list, d.id = id) (h : findContainer list id = some c) : c.id = id := by
  obtain ⟨e, he, hid⟩ := findContainer_of_id hex
  rw [h] at he
  exact Option.some.inj he ▸ hid

/-- Distinct addresses. -/
def PtrNodup (list : List Container) : Prop := (list.map Container.ptr).Nodup

theorem PtrNodup.eq {list : List Container} (h : PtrNodup list) {c d : Container}
    (hc : c ∈ list) (hd : d ∈ list) (hp : d.ptr = c.ptr) : d = c :=
  List.inj_on_of_nodup_map h hd hc hp

theorem mem_setContainer {list : List Container} {c d : Container} :
    d ∈ setContainer list c ↔
      (∃ e ∈ list, e.ptr = c.ptr ∧ d = c) ∨ (d ∈ list ∧ d.ptr ≠ c.ptr) := by
  simp only [setContainer, List.mem_map]
  constructor
  · rintro ⟨e, he, hd⟩
    by_cases h : e.ptr = c.ptr
    · exact .inl ⟨e, he, h, by simpa [h] using hd.symm⟩
    · rw [if_neg h] at hd
      subst hd
      exact .inr ⟨he, h⟩
  · rintro (⟨e, he, h, rfl⟩ | ⟨hd, h⟩)
    · exact ⟨e, he, by simp [h]⟩
    · exact ⟨d, hd, by simp [h]⟩

@[simp] theorem setContainer_map_ptr (list : List Container) (c : Container) :
    (setContainer list c).map Container.ptr = list.map Container.ptr := by
  induction list with
  | nil => rfl
  | cons d ds ih =>
    have hhead : (if d.ptr = c.ptr then c else d).ptr = d.ptr := by
      split
      · rename_i h; exact h.symm
      · rfl
    have ih' : (ds.map fun d => if d.ptr = c.ptr then c else d).map Container.ptr =
        ds.map Container.ptr := ih
    simp only [setContainer, List.map_cons, hhead, ih']

/-- A field that the new record shares with the old one keeps its column. -/
theorem setContainer_map {β : Type*} (f : Container → β) {list : List Container} {c c' : Container}
    (h : PtrNodup list) (hc : c ∈ list) (hp : c'.ptr = c.ptr) (hf : f c' = f c) :
    (setContainer list c').map f = list.map f := by
  rw [setContainer, List.map_map]
  refine List.map_congr_left fun d hd => ?_
  by_cases hdp : d.ptr = c'.ptr
  · have : d = c := h.eq hc hd (hdp.trans hp)
    show f (if d.ptr = c'.ptr then c' else d) = f d
    rw [if_pos hdp, hf, this]
  · simp [hdp]

theorem mem_removeContainer {list : List Container} {ptr : Nat} (h : PtrNodup list)
    {d : Container} : d ∈ removeContainer list ptr ↔ d ∈ list ∧ d.ptr ≠ ptr := by
  induction list with
  | nil => simp [removeContainer]
  | cons e es ih =>
    rw [PtrNodup, List.map_cons, List.nodup_cons] at h
    have ih' := ih h.2
    by_cases he : e.ptr = ptr
    · have hrm : removeContainer (e :: es) ptr = es := by simp [removeContainer, he]
      rw [hrm]
      constructor
      · intro hd
        refine ⟨List.mem_cons_of_mem _ hd, fun hdp => h.1 ?_⟩
        rw [he, ← hdp]
        exact List.mem_map_of_mem hd
      · rintro ⟨hd, hne⟩
        rcases List.mem_cons.mp hd with rfl | hd
        · exact absurd he hne
        · exact hd
    · have hrm : removeContainer (e :: es) ptr = e :: removeContainer es ptr := by
        simp [removeContainer, he]
      rw [hrm, List.mem_cons, ih', List.mem_cons]
      constructor
      · rintro (rfl | ⟨hd, hne⟩)
        · exact ⟨.inl rfl, he⟩
        · exact ⟨.inr hd, hne⟩
      · rintro ⟨rfl | hd, hne⟩
        · exact .inl rfl
        · exact .inr ⟨hd, hne⟩

theorem removeContainer_split {pre post : List Container} {c : Container}
    (hptrs : PtrNodup (pre ++ c :: post)) :
    removeContainer (pre ++ c :: post) c.ptr = pre ++ post := by
  have hpre : ∀ d ∈ pre, ¬ decide (d.ptr = c.ptr) = true := by
    intro d hd hdp
    rw [PtrNodup, List.map_append, List.map_cons, List.nodup_append] at hptrs
    exact hptrs.2.2 d.ptr (List.mem_map_of_mem hd) c.ptr List.mem_cons_self (of_decide_eq_true hdp)
  rw [removeContainer, List.eraseP_append_right _ hpre, List.eraseP_cons_of_pos]
  exact decide_eq_true rfl

theorem removeContainer_sublist (list : List Container) (ptr : Nat) :
    (removeContainer list ptr).Sublist list :=
  List.eraseP_sublist

theorem removeContainer_perm {list : List Container} (h : PtrNodup list) {c : Container}
    (hc : c ∈ list) : (c :: removeContainer list c.ptr).Perm list := by
  induction list with
  | nil => exact absurd hc List.not_mem_nil
  | cons d ds ih =>
    rw [PtrNodup, List.map_cons, List.nodup_cons] at h
    by_cases hd : d.ptr = c.ptr
    · have hdc : c = d := by
        rcases List.mem_cons.mp hc with hc | hc
        · exact hc
        · exact absurd (hd ▸ List.mem_map_of_mem hc) h.1
      subst hdc
      simp [removeContainer]
    · have hc' : c ∈ ds := by
        rcases List.mem_cons.mp hc with rfl | hc
        · exact absurd rfl hd
        · exact hc
      have hrm : removeContainer (d :: ds) c.ptr = d :: removeContainer ds c.ptr := by
        simp [removeContainer, hd]
      rw [hrm]
      exact (List.Perm.swap d c _).trans ((ih h.2 hc').cons d)

end ContainerSim.Runtime
