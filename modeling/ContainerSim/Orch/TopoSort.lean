import ContainerSim.Orch.Spec
import ContainerSim.Lib.Digraph
import Mathlib.Data.List.Count
import Mathlib.Data.List.Range
import Mathlib.Data.List.Perm.Basic
import Mathlib.Data.List.Perm.Subperm
import Mathlib.Tactic.Linarith
import Mathlib.Tactic.Ring

/-!
# `topo_sort` is topological sorting

The dependency graph of a spec has an edge `i → j` for every dependency entry
of service `i` that `find_svc` resolves to `j`. The loop invariant
(`KahnInv`) is Kahn's: `indegree[i]` counts, with multiplicity, the resolved
entries of `i` that are not yet in `order`, and the queue lists exactly the
indices whose count has reached zero, each once. The inner loops are brought
into closed form first (`relaxSvc_eq`, `relaxAll_eq`), so the invariant is
checked against one equation per round.
-/

namespace ContainerSim.Orch

open Lib

/-- The resolved dependency entries of service `i`, with multiplicity. -/
def resolved (spec : OrchestratorSpec) (i : Nat) : List Nat :=
  (spec.depsOf i).filterMap (findSvc spec)

/-- Service `i` has a dependency entry that resolves to index `j`. -/
def DependsOn (spec : OrchestratorSpec) (i j : Nat) : Prop :=
  ∃ dep ∈ spec.depsOf i, findSvc spec dep = some j

theorem mem_resolved {spec : OrchestratorSpec} {i j : Nat} :
    j ∈ resolved spec i ↔ DependsOn spec i j := by
  simp [resolved, DependsOn]

theorem findSvc_lt {spec : OrchestratorSpec} {name : Bytes} {j : Nat}
    (h : findSvc spec name = some j) : j < spec.count := by
  obtain ⟨hlt, -⟩ := List.findIdx?_eq_some_iff_getElem.mp h
  exact hlt

theorem DependsOn.target_lt {spec : OrchestratorSpec} {i j : Nat}
    (h : DependsOn spec i j) : j < spec.count := by
  obtain ⟨dep, -, hdep⟩ := h
  exact findSvc_lt hdep

theorem DependsOn.source_lt {spec : OrchestratorSpec} {i j : Nat}
    (h : DependsOn spec i j) : i < spec.count := by
  obtain ⟨dep, hmem, -⟩ := h
  by_contra hge
  have hnone : spec.services[i]? = none :=
    List.getElem?_eq_none_iff.mpr (Nat.le_of_not_lt hge)
  rw [OrchestratorSpec.depsOf, hnone] at hmem
  simp at hmem

/-! ## The loops in closed form -/

@[simp] theorem upd_self (a : Nat → Int) (i : Nat) (v : Int) : upd a i v i = v := by
  simp [upd]

theorem upd_ne (a : Nat → Int) {i k : Nat} (v : Int) (h : k ≠ i) : upd a i v k = a k := by
  simp [upd, h]

/-- The inner counting loop adds the number of entries that resolve. -/
theorem countDep_foldl (spec : OrchestratorSpec) (i : Nat) (deps : List Bytes)
    (a : Nat → Int) (k : Nat) :
    deps.foldl (countDep spec i) a k =
      if k = i then a i + (deps.filterMap (findSvc spec)).length else a k := by
  induction deps generalizing a with
  | nil => by_cases h : k = i <;> simp [h]
  | cons dep rest ih =>
    rw [List.foldl_cons, ih]
    cases hdep : findSvc spec dep with
    | none => simp [countDep, hdep]
    | some j =>
      by_cases h : k = i
      · simp [countDep, hdep, h]; ring
      · simp [countDep, hdep, h, upd_ne]

/-- After the counting loop `indegree[i]` is the number of resolved entries. -/
theorem initIndegree_eq (spec : OrchestratorSpec) {i : Nat} (hi : i < spec.count) :
    initIndegree spec i = (resolved spec i).length := by
  have hloop : ∀ n k, (List.range n).foldl
      (fun a i => (spec.depsOf i).foldl (countDep spec i) a) (fun _ => 0) k =
        if k < n then ((resolved spec k).length : Int) else 0 := by
    intro n
    induction n with
    | zero => intro k; simp
    | succ n ih =>
      intro k
      rw [List.range_succ, List.foldl_append, List.foldl_cons, List.foldl_nil,
        countDep_foldl, ih, ih]
      rcases Nat.lt_trichotomy k n with h | h | h
      · simp [h, Nat.lt_succ_of_lt h, Nat.ne_of_lt h]
      · subst h; simp [resolved]
      · have h1 : ¬ k < n := by omega
        have h2 : ¬ k < n + 1 := by omega
        have h3 : k ≠ n := by omega
        simp [h1, h2, h3]
  rw [initIndegree, hloop, if_pos hi]

/-- A conditional-append loop is a filter. -/
theorem foldl_append_filter (p : Nat → Prop) [DecidablePred p] (l queue : List Nat) :
    l.foldl (fun q i => if p i then q ++ [i] else q) queue =
      queue ++ l.filter (fun i => decide (p i)) := by
  induction l generalizing queue with
  | nil => simp
  | cons i rest ih =>
    rw [List.foldl_cons, ih]
    by_cases h : p i <;> simp [h]

theorem topoInit_queue (spec : OrchestratorSpec) :
    (topoInit spec).queue =
      (List.range spec.count).filter fun i => decide (initIndegree spec i = 0) := by
  simp only [topoInit]
  rw [foldl_append_filter (fun i => initIndegree spec i = 0)]
  simp

/-- The entries of one service: its count drops by the number `m` of entries
that resolve to `cur`, and it is queued once exactly when that takes a positive
count to zero. -/
theorem relaxDeps_eq (spec : OrchestratorSpec) (cur i : Nat) (deps : List Bytes) (t : Topo)
    (hle : ((deps.filterMap (findSvc spec)).count cur : Int) ≤ t.indegree i) :
    deps.foldl (relaxDep spec cur i) t =
      { t with
        indegree := upd t.indegree i
          (t.indegree i - (deps.filterMap (findSvc spec)).count cur)
        queue :=
          if t.indegree i = (deps.filterMap (findSvc spec)).count cur ∧ t.indegree i ≠ 0
          then t.queue ++ [i] else t.queue } := by
  induction deps generalizing t with
  | nil =>
    have hupd : upd t.indegree i (t.indegree i) = t.indegree := by
      funext k; by_cases h : k = i <;> simp [upd, h]
    have hq : ¬ (t.indegree i = 0 ∧ t.indegree i ≠ 0) := fun h => h.2 h.1
    simp [hupd, hq]
  | cons dep rest ih =>
    rw [List.foldl_cons]
    by_cases hcur : findSvc spec dep = some cur
    · have hcount : ((dep :: rest).filterMap (findSvc spec)).count cur =
          (rest.filterMap (findSvc spec)).count cur + 1 := by
        simp [hcur]
      rw [hcount] at hle ⊢
      push_cast at hle ⊢
      -- an entry that resolves to `cur` takes one off the count
      have hstep : relaxDep spec cur i t dep =
          { t with
            indegree := upd t.indegree i (t.indegree i - 1)
            queue := if t.indegree i - 1 = 0 then t.queue ++ [i] else t.queue } := by
        simp [relaxDep, hcur]
      rw [hstep, ih _ (by simp only [upd_self]; omega)]
      simp only [upd_self, Topo.mk.injEq, and_true]
      refine ⟨?_, ?_⟩
      · funext k
        by_cases h : k = i
        · subst h; simp only [upd_self]; ring
        · simp [upd, h]
      · -- the single queueing happens here or further down the entries
        generalize ((rest.filterMap (findSvc spec)).count cur) = m at hle ⊢
        by_cases h1 : t.indegree i - 1 = 0
        · have hpos : t.indegree i = m + 1 ∧ t.indegree i ≠ 0 := by omega
          rw [if_neg (fun h => h.2 h1), if_pos h1, if_pos hpos]
        · rw [if_neg h1]
          have hiff : (t.indegree i - 1 = m ∧ t.indegree i - 1 ≠ 0) ↔
              (t.indegree i = m + 1 ∧ t.indegree i ≠ 0) := by omega
          simp only [hiff]
    · have hcount : ((dep :: rest).filterMap (findSvc spec)).count cur =
          (rest.filterMap (findSvc spec)).count cur := by
        cases hdep : findSvc spec dep with
        | none => simp [hdep]
        | some j =>
          have : j ≠ cur := fun h => hcur (by rw [hdep, h])
          simp [hdep, this]
      -- any other entry changes nothing
      have hstep : relaxDep spec cur i t dep = t := by simp [relaxDep, hcur]
      rw [hcount] at hle ⊢
      rw [hstep, ih t hle]

/-- Releasing service `cur` for service `i`. -/
theorem relaxSvc_eq (spec : OrchestratorSpec) (cur i : Nat) (t : Topo)
    (hle : ((resolved spec i).count cur : Int) ≤ t.indegree i) :
    relaxSvc spec cur t i =
      { t with
        indegree := upd t.indegree i (t.indegree i - (resolved spec i).count cur)
        queue := if t.indegree i = (resolved spec i).count cur ∧ t.indegree i ≠ 0
          then t.queue ++ [i] else t.queue } :=
  relaxDeps_eq spec cur i (spec.depsOf i) t hle

/-- Releasing service `cur` for the first `n` services. -/
theorem relaxAll_eq (spec : OrchestratorSpec) (cur : Nat) (t : Topo) (n : Nat)
    (hle : ∀ i < n, ((resolved spec i).count cur : Int) ≤ t.indegree i) :
    (List.range n).foldl (relaxSvc spec cur) t =
      { t with
        indegree := fun i =>
          if i < n then t.indegree i - (resolved spec i).count cur else t.indegree i
        queue := t.queue ++ (List.range n).filter fun i =>
          decide (t.indegree i = (resolved spec i).count cur ∧ t.indegree i ≠ 0) } := by
  induction n with
  | zero => simp
  | succ n ih =>
    rw [List.range_succ, List.foldl_append, ih (fun i hi => hle i (by omega)),
      List.foldl_cons, List.foldl_nil, relaxSvc_eq]
    · simp only [Nat.lt_irrefl, if_false, Topo.mk.injEq, and_true]
      refine ⟨?_, ?_⟩
      · funext k
        rcases Nat.lt_trichotomy k n with h | h | h
        · rw [upd_ne _ _ (by omega)]
          simp [h, Nat.lt_succ_of_lt h]
        · subst h; simp
        · rw [upd_ne _ _ (by omega), if_neg (by omega), if_neg (by omega)]
      · rw [List.filter_append, ← List.append_assoc]
        by_cases h : t.indegree n = (resolved spec n).count cur ∧ t.indegree n ≠ 0
        · rw [if_pos h, List.filter_cons, if_pos (decide_eq_true h), List.filter_nil]
        · rw [if_neg h, List.filter_cons, if_neg (by rwa [decide_eq_true_eq]), List.filter_nil,
            List.append_nil]
    · simp only [Nat.lt_irrefl, if_false]
      exact hle n (by omega)

/-! ## The invariant of the loop -/

/-- Kahn's invariant between two rounds. -/
structure KahnInv (spec : OrchestratorSpec) (t : Topo) : Prop where
  /-- what has been output is the consumed part of the queue -/
  order_eq : t.order = t.queue.take t.qh
  qh_le : t.qh ≤ t.queue.length
  nodup : t.queue.Nodup
  queue_lt : ∀ i ∈ t.queue, i < spec.count
  /-- `indegree[i]` counts the entries of `i` that still wait -/
  indegree_eq : ∀ i < spec.count,
    t.indegree i = ((resolved spec i).filter fun j => decide (j ∉ t.order)).length
  /-- the queue has exactly the indices that wait for nothing -/
  queued_iff : ∀ i < spec.count, i ∈ t.queue ↔ t.indegree i = 0
  sorted : Sorted (DependsOn spec) t.order

theorem kahnInv_init (spec : OrchestratorSpec) : KahnInv spec (topoInit spec) where
  order_eq := by simp [topoInit]
  qh_le := by simp [topoInit]
  nodup := by
    rw [topoInit_queue]
    exact List.nodup_range.filter _
  queue_lt := by
    intro i hi
    rw [topoInit_queue] at hi
    exact List.mem_range.mp (List.mem_filter.mp hi).1
  indegree_eq := by
    intro i hi
    have hall : (resolved spec i).filter (fun j => decide (j ∉ (topoInit spec).order)) =
        resolved spec i := by simp [topoInit]
    rw [hall]
    exact initIndegree_eq spec hi
  queued_iff := by
    intro i hi
    rw [topoInit_queue]
    simp [topoInit, hi]
  sorted := by
    have : (topoInit spec).order = [] := rfl
    rw [this]
    exact Sorted.nil

/-- Taking `cur` out of what may remain removes its occurrences. -/
theorem filter_notMem_snoc_length (l order : List Nat) (cur : Nat) (hcur : cur ∉ order) :
    (l.filter fun j => decide (j ∉ order ++ [cur])).length + l.count cur =
      (l.filter fun j => decide (j ∉ order)).length := by
  induction l with
  | nil => simp
  | cons j rest ih =>
    by_cases h : j = cur
    · subst h
      rw [List.filter_cons_of_neg (by simp), List.filter_cons_of_pos (by simpa using hcur),
        List.count_cons_self, List.length_cons]
      omega
    · rw [List.count_cons_of_ne h]
      by_cases hj : j ∈ order
      · rw [List.filter_cons_of_neg (by simp [hj]), List.filter_cons_of_neg (by simp [hj])]
        exact ih
      · rw [List.filter_cons_of_pos (by simp [hj, h]), List.filter_cons_of_pos (by simp [hj]),
          List.length_cons, List.length_cons]
        omega

/-- One round keeps the invariant. -/
theorem kahnInv_round {spec : OrchestratorSpec} {t : Topo} (hinv : KahnInv spec t)
    {cur : Nat} (hcur : t.queue[t.qh]? = some cur) :
    KahnInv spec (topoRound spec cur t) := by
  obtain ⟨hqh, hget⟩ := List.getElem?_eq_some_iff.mp hcur
  have hmem : cur ∈ t.queue := hget ▸ List.getElem_mem hqh
  have hlt : cur < spec.count := hinv.queue_lt cur hmem
  -- `cur` is not output yet, because the queue has no duplicates
  have hnew : cur ∉ t.order := by
    rw [hinv.order_eq]
    intro h
    obtain ⟨m, hm, hmc⟩ := List.mem_take_iff_getElem.mp h
    have hinj := List.nodup_iff_injective_getElem.mp hinv.nodup
    have := @hinj ⟨m, by omega⟩ ⟨t.qh, hqh⟩ (by simp [hmc, hget])
    simp only [Fin.mk.injEq] at this
    omega
  have hsplit : ∀ i < spec.count,
      (((resolved spec i).filter fun j => decide (j ∉ t.order ++ [cur])).length : Int) +
        (resolved spec i).count cur = t.indegree i := by
    intro i hi
    rw [hinv.indegree_eq i hi]
    exact_mod_cast filter_notMem_snoc_length (resolved spec i) t.order cur hnew
  have hround := relaxAll_eq spec cur
    { t with qh := t.qh + 1, order := t.order ++ [cur] } spec.count
    (fun i hi => by have := hsplit i hi; simp only; omega)
  -- what `cur` waited for has been output
  have hdeps : ∀ j, DependsOn spec cur j → j ∈ t.order := by
    intro j hj
    have h0 := (hinv.queued_iff cur hlt).mp hmem
    rw [hinv.indegree_eq cur hlt] at h0
    by_contra hout
    have : j ∈ (resolved spec cur).filter fun j => decide (j ∉ t.order) :=
      List.mem_filter.mpr ⟨mem_resolved.mpr hj, by simpa using hout⟩
    have hnil := List.length_eq_zero_iff.mp (by exact_mod_cast h0)
    rw [hnil] at this
    exact List.not_mem_nil this
  have horder : t.order ++ [cur] = t.queue.take (t.qh + 1) := by
    rw [List.take_add_one, hcur, hinv.order_eq]
    rfl
  rw [topoRound, hround]
  refine ⟨?_, ?_, ?_, ?_, ?_, ?_, ?_⟩
  · simp only
    rw [horder, List.take_append_of_le_length (by omega)]
  · simp only [List.length_append]
    omega
  · -- the newly queued indices had a positive count, the queued ones had zero
    simp only
    refine List.nodup_append.mpr ⟨hinv.nodup, List.nodup_range.filter _, ?_⟩
    intro a ha b hb hab
    subst hab
    have hb' := List.mem_filter.mp hb
    have hb2 := of_decide_eq_true hb'.2
    exact hb2.2 ((hinv.queued_iff a (List.mem_range.mp hb'.1)).mp ha)
  · simp only
    intro i hi
    rcases List.mem_append.mp hi with h | h
    · exact hinv.queue_lt i h
    · exact List.mem_range.mp (List.mem_filter.mp h).1
  · simp only
    intro i hi
    rw [if_pos hi]
    have := hsplit i hi
    omega
  · simp only
    intro i hi
    rw [if_pos hi, List.mem_append, hinv.queued_iff i hi, List.mem_filter, List.mem_range]
    have hs := hsplit i hi
    simp only [decide_eq_true_eq]
    omega
  · exact hinv.sorted.snoc hdeps

/-- Every number of rounds keeps the invariant. -/
theorem kahnInv_loop {spec : OrchestratorSpec} (fuel : Nat) {t : Topo}
    (hinv : KahnInv spec t) : KahnInv spec (topoLoop spec fuel t) := by
  induction fuel generalizing t with
  | zero => exact hinv
  | succ fuel ih =>
    rw [topoLoop]
    split
    · rename_i cur hcur
      exact ih (kahnInv_round hinv hcur)
    · exact hinv

/-! ## Leaving the loop -/

/-- No more indices are queued than there are services. -/
theorem KahnInv.queue_length_le {spec : OrchestratorSpec} {t : Topo} (hinv : KahnInv spec t) :
    t.queue.length ≤ spec.count := by
  have hsub : t.queue ⊆ List.range spec.count :=
    fun i hi => List.mem_range.mpr (hinv.queue_lt i hi)
  simpa using (List.subperm_of_subset hinv.nodup hsub).length_le

theorem KahnInv.order_length {spec : OrchestratorSpec} {t : Topo} (hinv : KahnInv spec t) :
    t.order.length = t.qh := by
  rw [hinv.order_eq, List.length_take]
  exact Nat.min_eq_left hinv.qh_le

theorem topoRound_qh {spec : OrchestratorSpec} {t : Topo} (hinv : KahnInv spec t) {cur : Nat}
    (hcur : t.queue[t.qh]? = some cur) : (topoRound spec cur t).qh = t.qh + 1 := by
  have hlen := (kahnInv_round hinv hcur).order_length
  have horder : (topoRound spec cur t).order = t.order ++ [cur] := by
    have hfold : ∀ (l : List Nat) (u : Topo), (l.foldl (relaxSvc spec cur) u).order = u.order := by
      intro l
      induction l with
      | nil => intro u; rfl
      | cons i rest ih =>
        intro u
        rw [List.foldl_cons, ih]
        have hdeps : ∀ (deps : List Bytes) (v : Topo),
            (deps.foldl (relaxDep spec cur i) v).order = v.order := by
          intro deps
          induction deps with
          | nil => intro v; rfl
          | cons dep rest ih =>
            intro v
            rw [List.foldl_cons, ih, relaxDep]
            split <;> rfl
        exact hdeps _ u
    exact hfold _ _
  rw [horder, List.length_append, hinv.order_length] at hlen
  exact hlen.symm

/-- The loop has ended once it was given as many rounds as there are services
left to output. -/
theorem topoLoop_exits {spec : OrchestratorSpec} (fuel : Nat) {t : Topo}
    (hinv : KahnInv spec t) (hfuel : spec.count ≤ t.qh + fuel) :
    (topoLoop spec fuel t).qh = (topoLoop spec fuel t).queue.length := by
  induction fuel generalizing t with
  | zero =>
    have h1 := hinv.queue_length_le
    have h2 := hinv.qh_le
    rw [topoLoop]
    omega
  | succ fuel ih =>
    rw [topoLoop]
    split
    · rename_i cur hcur
      refine ih (kahnInv_round hinv hcur) ?_
      rw [topoRound_qh hinv hcur]
      omega
    · rename_i hnone
      have h1 := List.getElem?_eq_none_iff.mp hnone
      have h2 := hinv.qh_le
      omega

theorem kahnInv_final (spec : OrchestratorSpec) : KahnInv spec (topoFinal spec) :=
  kahnInv_loop spec.count (kahnInv_init spec)

/-- The fuel of `topoFinal` is enough: the loop condition is false at its end. -/
theorem topoFinal_exits (spec : OrchestratorSpec) :
    (topoFinal spec).qh = (topoFinal spec).queue.length :=
  topoLoop_exits spec.count (kahnInv_init spec) (by omega)

theorem topoFinal_order (spec : OrchestratorSpec) :
    (topoFinal spec).order = (topoFinal spec).queue := by
  rw [(kahnInv_final spec).order_eq, topoFinal_exits, List.take_length]

/-- Without a cycle every service is output: the services left over would each
wait for another one left over. -/
theorem mem_order_of_acyclic {spec : OrchestratorSpec} (hac : Acyclic (DependsOn spec)) :
    ∀ i < spec.count, i ∈ (topoFinal spec).order := by
  have hinv := kahnInv_final spec
  by_contra hcon
  push Not at hcon
  obtain ⟨i₀, hi₀, hout₀⟩ := hcon
  let S : Set Nat := {i | i < spec.count ∧ i ∉ (topoFinal spec).order}
  have hfin : S.Finite := (Set.finite_lt_nat spec.count).subset fun i hi => hi.1
  obtain ⟨i, ⟨hi, hout⟩, hsink⟩ := hac.exists_sink hfin ⟨i₀, hi₀, hout₀⟩
  have hpos : (topoFinal spec).indegree i ≠ 0 := by
    intro h0
    rw [topoFinal_order] at hout
    exact hout ((hinv.queued_iff i hi).mpr h0)
  rw [hinv.indegree_eq i hi] at hpos
  obtain ⟨j, hj⟩ := List.exists_mem_of_length_pos (Nat.pos_of_ne_zero (by exact_mod_cast hpos))
  obtain ⟨hdep, hjout⟩ := List.mem_filter.mp hj
  have hij := mem_resolved.mp hdep
  exact hsink j hij ⟨hij.target_lt, of_decide_eq_true hjout⟩

theorem order_length_eq_iff (spec : OrchestratorSpec) :
    (topoFinal spec).order.length = spec.count ↔ Acyclic (DependsOn spec) := by
  have hinv := kahnInv_final spec
  have hnd : (topoFinal spec).order.Nodup := topoFinal_order spec ▸ hinv.nodup
  have hlt : (topoFinal spec).order ⊆ List.range spec.count := by
    intro i hi
    rw [topoFinal_order] at hi
    exact List.mem_range.mpr (hinv.queue_lt i hi)
  constructor
  · intro hlen
    have hperm : (topoFinal spec).order.Perm (List.range spec.count) :=
      (List.subperm_of_subset hnd hlt).perm_of_length_le (by simp [hlen])
    refine hinv.sorted.acyclic hnd fun i j hij => ?_
    exact hperm.mem_iff.mpr (List.mem_range.mpr hij.source_lt)
  · intro hac
    have hge : List.range spec.count ⊆ (topoFinal spec).order :=
      fun i hi => mem_order_of_acyclic hac i (List.mem_range.mp hi)
    have h1 := (List.subperm_of_subset hnd hlt).length_le
    have h2 := (List.subperm_of_subset List.nodup_range hge).length_le
    simp only [List.length_range] at h1 h2
    omega

/-- `topo_sort` succeeds exactly on the acyclic specs. -/
theorem topoSort_eq_count_iff (spec : OrchestratorSpec) :
    (topoSort spec).1 = spec.count ↔ Acyclic (DependsOn spec) := by
  rw [← order_length_eq_iff]
  simp only [topoSort]
  split
  · rename_i h; simp [h]
  · rename_i h
    simp only [h, iff_false]
    omega

theorem topoSort_neg_iff (spec : OrchestratorSpec) :
    (topoSort spec).1 < 0 ↔ ¬ Acyclic (DependsOn spec) := by
  rw [← order_length_eq_iff]
  simp only [topoSort]
  split
  · rename_i h; simp [h]
  · rename_i h; simp [h]

/-- On success `order` lists every service once. -/
theorem topoSort_perm {spec : OrchestratorSpec} (hac : Acyclic (DependsOn spec)) :
    (topoSort spec).2.Perm (List.range spec.count) := by
  have hinv := kahnInv_final spec
  have hnd : (topoFinal spec).order.Nodup := topoFinal_order spec ▸ hinv.nodup
  refine (List.perm_ext_iff_of_nodup hnd List.nodup_range).mpr fun i => ?_
  rw [List.mem_range]
  refine ⟨fun hi => ?_, mem_order_of_acyclic hac i⟩
  rw [topoFinal_order] at hi
  exact hinv.queue_lt i hi

/-- On every spec the filled part of `order` has dependencies first. -/
theorem topoSort_sorted (spec : OrchestratorSpec) : Sorted (DependsOn spec) (topoSort spec).2 :=
  (kahnInv_final spec).sorted

/-- **`topo_sort` is topological sorting.** It returns `count` on acyclic specs
and `-1` on the others; on success `order` is a permutation of the indices with
every dependency before its dependent. On every spec, after any number of
rounds, the queue has no index twice, so it never grows past `count` entries
and no write goes to `queue` or `order` at or past that index; and the loop
ends. -/
theorem topoSort_correct (spec : OrchestratorSpec) :
    (Acyclic (DependsOn spec) → (topoSort spec).1 = spec.count) ∧
    (¬ Acyclic (DependsOn spec) → (topoSort spec).1 = -1) ∧
    ((topoSort spec).1 = spec.count →
      (topoSort spec).2.Perm (List.range spec.count) ∧
      ∀ i j, DependsOn spec i j →
        (topoSort spec).2.idxOf j < (topoSort spec).2.idxOf i) ∧
    (∀ rounds, (topoLoop spec rounds (topoInit spec)).queue.Nodup ∧
      (topoLoop spec rounds (topoInit spec)).queue.length ≤ spec.count ∧
      (topoLoop spec rounds (topoInit spec)).order.length ≤ spec.count) ∧
    (topoFinal spec).qh = (topoFinal spec).queue.length := by
  refine ⟨(topoSort_eq_count_iff spec).mpr, ?_, ?_, ?_, topoFinal_exits spec⟩
  · intro hcyc
    have hlen := (order_length_eq_iff spec).not.mpr hcyc
    simp [topoSort, hlen]
  · intro hok
    have hac := (topoSort_eq_count_iff spec).mp hok
    have hperm := topoSort_perm hac
    refine ⟨hperm, fun i j hij => ?_⟩
    exact (topoSort_sorted spec).idxOf_lt
      (hperm.mem_iff.mpr (List.mem_range.mpr hij.source_lt)) hij
  · intro rounds
    have hinv := kahnInv_loop rounds (kahnInv_init spec)
    refine ⟨hinv.nodup, hinv.queue_length_le, ?_⟩
    rw [hinv.order_length]
    exact hinv.qh_le.trans hinv.queue_length_le

/-! ## What validation promises -/

/-- A validated spec resolves every dependency entry and has no cycle. -/
theorem orchValidate_ok {spec : OrchestratorSpec} (h : orchValidate spec = 0) :
    Acyclic (DependsOn spec) ∧
    ∀ s ∈ spec.services, s.image ≠ [] ∧ s.command ≠ [] ∧
      ∀ d ∈ s.deps, (findSvc spec d).isSome := by
  have hnil : validateDiags spec = [] := by
    by_contra hne
    simp [orchValidate, hne] at h
  unfold validateDiags at hnil
  simp only at hnil
  split at hnil
  · simp at hnil
  · rename_i hcond
    have hac : Acyclic (DependsOn spec) := by
      by_contra hcyc
      exact hcond ⟨hnil, (topoSort_neg_iff spec).mpr hcyc⟩
    refine ⟨hac, fun s hs => ?_⟩
    have hchk := List.flatMap_eq_nil_iff.mp hnil s hs
    simp only [checkService, List.append_eq_nil_iff, List.map_eq_nil_iff,
      List.filter_eq_nil_iff] at hchk
    obtain ⟨⟨himg, hcmd⟩, hdeps⟩ := hchk
    refine ⟨fun h => by simp [h] at himg, fun h => by simp [h] at hcmd, fun d hd => ?_⟩
    simpa [Option.isSome_iff_ne_none] using hdeps d hd

end ContainerSim.Orch
