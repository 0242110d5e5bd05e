import Mathlib.Data.List.Basic
import Mathlib.Data.List.Nodup
import Mathlib.Logic.Function.Basic
import Mathlib.Tactic.Common

/-!
# Singly linked lists

Cells with a `next` pointer and pointers to the first and the last of them. A
cell is appended behind the last one, and removed by a search that keeps the
cell before. `Holds` says which cells the pointers lead through; on it the two
operations are the ones on lists (`append_holds`, `remove_holds`), and a loop
that removes and frees the cell it stands on goes through all of them
(`sweep_holds`).
-/

namespace ContainerSim.Lib

variable {α : Type*}

/-- `head`, `tail` and the `next` pointer of each cell; `none` is `NULL`. -/
structure Links (α : Type*) where
  head : Option α
  tail : Option α
  next : α → Option α

/-- The `next` pointers lead from `a` through the cells of a list to `b`. -/
inductive Seg (next : α → Option α) : Option α → List α → Option α → Prop
  | nil (a : Option α) : Seg next a [] a
  | cons {p : α} {ps : List α} {b : Option α} :
      Seg next (next p) ps b → Seg next (some p) (p :: ps) b

theorem Seg.append_iff {next : α → Option α} {a b : Option α} {ps qs : List α} :
    Seg next a (ps ++ qs) b ↔ ∃ c, Seg next a ps c ∧ Seg next c qs b := by
  induction ps generalizing a with
  | nil =>
    constructor
    · intro h
      exact ⟨a, .nil a, h⟩
    · rintro ⟨c, hc, h⟩
      cases hc
      exact h
  | cons p ps ih =>
    constructor
    · intro h
      cases h with
      | cons hrest =>
        obtain ⟨c, hc, h⟩ := ih.mp hrest
        exact ⟨c, .cons hc, h⟩
    · rintro ⟨c, hc, h⟩
      cases hc with
      | cons hrest => exact .cons (ih.mpr ⟨c, hrest, h⟩)

/-- Only the cells on the way matter. -/
theorem Seg.congr {next next' : α → Option α} {a b : Option α} {ps : List α}
    (h : Seg next a ps b) (heq : ∀ p ∈ ps, next' p = next p) : Seg next' a ps b := by
  induction h with
  | nil a => exact .nil a
  | cons _ ih =>
    refine .cons ?_
    rw [heq _ List.mem_cons_self]
    exact ih fun q hq => heq q (List.mem_cons_of_mem _ hq)

/-- The first pointer is that to the first cell. -/
theorem Seg.head {next : α → Option α} {a : Option α} {ps : List α} (h : Seg next a ps none) :
    a = ps.head? := by
  cases h with
  | nil => rfl
  | cons _ => rfl

/-- The pointers lead through one list of cells. -/
theorem Seg.unique {next : α → Option α} {a : Option α} {ps qs : List α} (h : Seg next a ps none)
    (h' : Seg next a qs none) : ps = qs := by
  induction ps generalizing a qs with
  | nil =>
    cases h
    cases h'
    rfl
  | cons p ps ih =>
    cases h with
    | cons hrest =>
      cases h' with
      | cons hrest' => rw [ih hrest hrest']

namespace Links

variable [DecidableEq α] {l : Links α} {p : α} {ps : List α}

/-- Puts a cell behind the last one. -/
def append (l : Links α) (p : α) : Links α :=
  match l.tail with
  | none => { head := some p, tail := some p, next := Function.update l.next p none }
  | some t =>
    { l with
      tail := some p
      next := Function.update (Function.update l.next p none) t (some p) }

/-- Takes a cell out, with the one before it in hand. -/
def unlink (l : Links α) (p : α) (prev : Option α) : Links α :=
  let (head, next) :=
    match prev with
    | none => (l.next p, l.next)
    | some q => (l.head, Function.update l.next q (l.next p))
  { head, tail := if l.tail = some p then prev else l.tail, next := Function.update next p none }

/-- The search: `prev` is the cell before `cursor`. -/
def removeLoop (l : Links α) (p : α) : Nat → Option α → Option α → Links α
  | 0, _, _ => l
  | _ + 1, _, none => l
  | fuel + 1, prev, some cursor =>
    if cursor = p then l.unlink p prev else removeLoop l p fuel (some cursor) (l.next cursor)

/-- Takes a cell out, if it is among the first `fuel`. -/
def remove (l : Links α) (p : α) (fuel : Nat) : Links α := l.removeLoop p fuel none l.head

/-- The pointers lead through these cells. -/
structure Holds (l : Links α) (ps : List α) : Prop where
  chain : Seg l.next l.head ps none
  last : l.tail = ps.getLast?
  nodup : ps.Nodup

theorem append_holds (h : l.Holds ps) (hp : p ∉ ps) : (l.append p).Holds (ps ++ [p]) := by
  obtain ⟨hchain, hlast, hnodup⟩ := h
  have hnodup' : (ps ++ [p]).Nodup :=
    hnodup.append (List.nodup_singleton p) (by simpa using hp)
  rcases List.eq_nil_or_concat ps with rfl | ⟨qs, t, rfl⟩
  · -- the list was empty: the head is set
    rw [List.getLast?_nil] at hlast
    rw [append, hlast]
    refine ⟨?_, rfl, hnodup'⟩
    refine .cons ?_
    show Seg _ (Function.update l.next p none p) [] none
    rw [Function.update_self]
    exact .nil none
  · rw [List.concat_eq_append] at *
    rw [List.getLast?_concat] at hlast
    have htp : t ≠ p := fun heq => hp (heq ▸ List.mem_append_right _ (List.mem_singleton_self t))
    have htqs : t ∉ qs := fun hmem =>
      (List.nodup_append.mp hnodup).2.2 t hmem t (List.mem_singleton_self t) rfl
    -- the link of the last node t is set, which no node in front of t is reached by
    obtain ⟨c, hqs, ht⟩ := Seg.append_iff.mp hchain
    have hc : c = some t := by
      cases ht
      rfl
    subst hc
    rw [append, hlast]
    refine ⟨?_, by rw [List.getLast?_concat], hnodup'⟩
    rw [List.append_assoc]
    refine Seg.append_iff.mpr ⟨some t, hqs.congr fun q hq => ?_, ?_⟩
    · have hqt : q ≠ t := fun heq => htqs (heq ▸ hq)
      have hqp : q ≠ p := fun heq => hp (heq ▸ List.mem_append_left _ hq)
      show Function.update (Function.update l.next p none) t (some p) q = l.next q
      rw [Function.update_of_ne hqt, Function.update_of_ne hqp]
    · refine .cons ?_
      show Seg _ (Function.update (Function.update l.next p none) t (some p) t) [p] none
      rw [Function.update_self]
      refine .cons ?_
      show Seg _ (Function.update (Function.update l.next p none) t (some p) p) [] none
      rw [Function.update_of_ne htp.symm, Function.update_self]
      exact .nil none

/-- The search stops at the cell with the one before it in hand. -/
theorem removeLoop_eq {a : Option α} {qs rs : List α} (h : Seg l.next a (qs ++ p :: rs) none)
    (hp : p ∉ qs) {fuel : Nat} (hfuel : qs.length < fuel) (prev : Option α) :
    l.removeLoop p fuel prev a = l.unlink p (qs.getLast?.or prev) := by
  induction qs generalizing a fuel prev with
  | nil =>
    obtain ⟨k, rfl⟩ : ∃ k, fuel = k + 1 := ⟨fuel - 1, by rw [List.length_nil] at hfuel; omega⟩
    cases h with
    | cons hrest =>
      rw [removeLoop, if_pos rfl]
      rfl
  | cons q qs ih =>
    obtain ⟨k, rfl⟩ : ∃ k, fuel = k + 1 := ⟨fuel - 1, by rw [List.length_cons] at hfuel; omega⟩
    have hqp : q ≠ p := fun heq => hp (heq ▸ List.mem_cons_self)
    cases h with
    | cons hrest =>
      rw [removeLoop, if_neg hqp, ih hrest (fun hmem => hp (List.mem_cons_of_mem _ hmem))
        (by rw [List.length_cons] at hfuel; omega) (some q)]
      congr 1
      cases qs with
      | nil => rfl
      | cons r qs => rw [List.getLast?_cons_cons, List.getLast?_cons, Option.some_or, Option.some_or]

theorem unlink_holds {qs rs : List α} (h : l.Holds (qs ++ p :: rs)) :
    (l.unlink p qs.getLast?).Holds (qs ++ rs) := by
  obtain ⟨hchain, hlast, hnodup⟩ := h
  obtain ⟨hqs, hrs, hdisjoint⟩ := List.nodup_append.mp hnodup
  obtain ⟨hprs, hrs⟩ := List.nodup_cons.mp hrs
  have hpqs : p ∉ qs := fun hmem => hdisjoint p hmem p List.mem_cons_self rfl
  have hqsrs : ∀ q ∈ qs, q ∉ rs := fun q hq hmem => hdisjoint q hq q (List.mem_cons_of_mem _ hmem) rfl
  have hnodup' : (qs ++ rs).Nodup := hqs.append hrs fun q hq hmem => hqsrs q hq hmem
  -- the tail moves back when the last cell goes
  have htail : (if l.tail = some p then qs.getLast? else l.tail) = (qs ++ rs).getLast? := by
    rw [hlast]
    rcases List.eq_nil_or_concat rs with rfl | ⟨rs', r, rfl⟩
    · rw [List.getLast?_concat, if_pos rfl, List.append_nil]
    · rw [List.concat_eq_append] at *
      have hrp : r ≠ p := fun heq => hprs (heq ▸ List.mem_append_right _ (List.mem_singleton_self r))
      have hend : (qs ++ p :: (rs' ++ [r])).getLast? = some r := by
        rw [← List.cons_append, ← List.append_assoc, List.getLast?_concat]
      rw [hend, if_neg (by simpa using hrp), ← List.append_assoc, List.getLast?_concat]
  obtain ⟨c, hfirst, hsecond⟩ := Seg.append_iff.mp hchain
  cases hsecond with
  | cons hrest =>
    rcases List.eq_nil_or_concat qs with rfl | ⟨qs', q, rfl⟩
    · -- the first cell is taken out
      refine ⟨?_, htail, hnodup'⟩
      refine hrest.congr fun r hr => ?_
      have hrp : r ≠ p := fun heq => hprs (heq ▸ hr)
      show Function.update l.next p none r = l.next r
      rw [Function.update_of_ne hrp]
    · -- the cell before it is linked to the one behind
      rw [List.concat_eq_append] at *
      have hqp : q ≠ p := fun heq => hpqs (heq ▸ List.mem_append_right _ (List.mem_singleton_self q))
      have hqqs : q ∉ qs' := fun hmem =>
        (List.nodup_append.mp hqs).2.2 q hmem q (List.mem_singleton_self q) rfl
      have hqrs : q ∉ rs := hqsrs q (List.mem_append_right _ (List.mem_singleton_self q))
      have hnext : ∀ r, r ≠ q → r ≠ p →
          Function.update (Function.update l.next q (l.next p)) p none r = l.next r := by
        intro r hrq hrp
        rw [Function.update_of_ne hrp, Function.update_of_ne hrq]
      rw [List.getLast?_concat] at htail ⊢
      refine ⟨?_, htail, hnodup'⟩
      obtain ⟨d, hqs', hq⟩ := Seg.append_iff.mp hfirst
      have hd : d = some q := by
        cases hq
        rfl
      subst hd
      rw [List.append_assoc]
      refine Seg.append_iff.mpr ⟨some q, hqs'.congr fun r hr => ?_, ?_⟩
      · exact hnext r (fun heq => hqqs (heq ▸ hr))
          (fun heq => hpqs (heq ▸ List.mem_append_left _ hr))
      · refine .cons ?_
        show Seg _ (Function.update (Function.update l.next q (l.next p)) p none q) rs none
        rw [Function.update_of_ne hqp, Function.update_self]
        exact hrest.congr fun r hr =>
          hnext r (fun heq => hqrs (heq ▸ hr)) (fun heq => hprs (heq ▸ hr))

theorem remove_holds {qs rs : List α} (h : l.Holds (qs ++ p :: rs)) {fuel : Nat}
    (hfuel : qs.length < fuel) : (l.remove p fuel).Holds (qs ++ rs) := by
  have hpqs : p ∉ qs := fun hmem =>
    (List.nodup_append.mp h.nodup).2.2 p hmem p List.mem_cons_self rfl
  rw [remove, removeLoop_eq h.chain hpqs hfuel, Option.or_none]
  exact unlink_holds h

/-- A cell that has just been appended is taken out again. -/
theorem remove_append_holds (h : l.Holds ps) (hp : p ∉ ps) {fuel : Nat} (hfuel : ps.length < fuel) :
    ((l.append p).remove p fuel).Holds ps := by
  have hremoved := remove_holds (append_holds h hp) hfuel
  rwa [List.append_nil] at hremoved

/-! ## Removing on the way -/

omit [DecidableEq α] in
/-- There are no cells exactly if there is no last one. -/
theorem Holds.head_iff_tail (h : l.Holds ps) : l.head = none ↔ l.tail = none := by
  rw [h.chain.head, h.last, List.head?_eq_none_iff, List.getLast?_eq_none_iff]

omit [DecidableEq α] in
/-- The last cell leads nowhere. -/
theorem Holds.next_tail (h : l.Holds ps) : ∀ t ∈ l.tail, l.next t = none := by
  intro t ht
  rw [h.last] at ht
  obtain ⟨front, rfl⟩ := List.getLast?_eq_some_iff.mp ht
  obtain ⟨c, -, hlast⟩ := Seg.append_iff.mp h.chain
  cases hlast with
  | cons hnil =>
    have hnone := hnil.head
    exact hnone

omit [DecidableEq α] in
theorem Holds.unique (h : l.Holds ps) {qs : List α} (h' : l.Holds qs) : ps = qs :=
  h.chain.unique h'.chain

/-- A cell that was freed holds anything. -/
def scribble (l : Links α) (p : α) (junk : Option α) : Links α :=
  { l with next := Function.update l.next p junk }

theorem scribble_holds (h : l.Holds ps) (hp : p ∉ ps) (junk : Option α) :
    (l.scribble p junk).Holds ps := by
  refine ⟨h.chain.congr fun q hq => ?_, h.last, h.nodup⟩
  have hqp : q ≠ p := fun heq => hp (heq ▸ hq)
  exact Function.update_of_ne hqp _ _

/-- Goes through the cells from `cursor` on, and removes and frees those that are
`gone`, each with the pointer to the next in hand. Also gives the cells visited. -/
def sweep (gone : α → Bool) (junk : α → Option α) (size : Nat) :
    Nat → Option α → Links α → Links α × List α
  | 0, _, l => (l, [])
  | _ + 1, none, l => (l, [])
  | fuel + 1, some cursor, l =>
    let next := l.next cursor
    let l := if gone cursor then (l.remove cursor size).scribble cursor (junk cursor) else l
    let r := sweep gone junk size fuel next l
    (r.1, cursor :: r.2)

/-- From a cell on, with the cells in front of it done. -/
theorem sweep_from {gone : α → Bool} {junk : α → Option α} {size fuel : Nat} {cursor : Option α}
    {front rest : List α} (h : l.Holds (front ++ rest)) (hcursor : cursor = rest.head?)
    (hsize : (front ++ rest).length ≤ size) (hfuel : rest.length < fuel) :
    (l.sweep gone junk size fuel cursor).2 = rest ∧
      (l.sweep gone junk size fuel cursor).1.Holds (front ++ rest.filter fun p => !gone p) := by
  induction rest generalizing l fuel cursor front with
  | nil =>
    obtain ⟨k, rfl⟩ : ∃ k, fuel = k + 1 := ⟨fuel - 1, by rw [List.length_nil] at hfuel; omega⟩
    subst hcursor
    exact ⟨rfl, h⟩
  | cons p rest ih =>
    obtain ⟨k, rfl⟩ : ∃ k, fuel = k + 1 := ⟨fuel - 1, by rw [List.length_cons] at hfuel; omega⟩
    have hlen : (front ++ p :: rest).length = front.length + rest.length + 1 := by
      rw [List.length_append, List.length_cons]
      omega
    have hrestfuel : rest.length < k := by
      rw [List.length_cons] at hfuel
      omega
    -- the pointer in hand leads to the cell behind this one
    have hnext : l.next p = rest.head? := by
      obtain ⟨c, -, hseg⟩ := Seg.append_iff.mp h.chain
      cases hseg with
      | cons hrest => exact hrest.head
    subst hcursor
    rw [List.head?_cons, sweep]
    simp only
    cases hgone : gone p with
    | true =>
      have hremoved : (l.remove p size).Holds (front ++ rest) := remove_holds h (by omega)
      have hp : p ∉ front ++ rest := by
        intro hmem
        have hnodup := h.nodup
        rw [List.nodup_middle] at hnodup
        exact (List.nodup_cons.mp hnodup).1 hmem
      have hfreed := scribble_holds hremoved hp (junk p)
      obtain ⟨hvisited, hholds⟩ :=
        ih hfreed hnext (by rw [List.length_append]; omega) hrestfuel
      rw [if_pos rfl, List.filter_cons_of_neg (by simp [hgone])]
      exact ⟨congrArg (p :: ·) hvisited, hholds⟩
    | false =>
      have hkept : l.Holds ((front ++ [p]) ++ rest) := by rwa [List.append_assoc]
      obtain ⟨hvisited, hholds⟩ := ih hkept hnext
        (by rw [List.length_append, List.length_append, List.length_singleton]; omega) hrestfuel
      rw [if_neg (by simp), List.filter_cons_of_pos (by simp [hgone])]
      rw [List.append_assoc] at hholds
      exact ⟨congrArg (p :: ·) hvisited, hholds⟩

/-- Every cell is visited, in order, and those that are not gone stay. -/
theorem sweep_holds {gone : α → Bool} {junk : α → Option α} {size fuel : Nat} (h : l.Holds ps)
    (hsize : ps.length ≤ size) (hfuel : ps.length < fuel) :
    (l.sweep gone junk size fuel l.head).2 = ps ∧
      (l.sweep gone junk size fuel l.head).1.Holds (ps.filter fun p => !gone p) :=
  @sweep_from α _ l gone junk size fuel l.head [] ps h h.chain.head hsize hfuel

end Links

end ContainerSim.Lib
