import ContainerSim.Runtime.Addresses

/-!
# The address pool

Runs of the manager from a list that was restored, with what `bridge_alloc_ip`
has handed out beside it: the stretch of numbers that the counter has passed
(`Dispensed`). No address is handed out twice; for the same reason none comes
back, and the pool can run out with all of it unused.
-/

namespace ContainerSim.Runtime

open Lib Sched

/-! ## Runs -/

/-- The manager and what `bridge_alloc_ip` has handed out, in order. -/
structure Bridge where
  mgr : Manager
  handed : List Bytes

def bridgeStep (b : Bridge) (op : UserOp) : Option Bridge :=
  (userStep op b.mgr).map fun m => { mgr := m, handed := b.handed ++ (op.handedOut b.mgr).toList }

/-- What has been handed out are the addresses from `first` up to the counter. -/
structure Dispensed (first : Int) (b : Bridge) : Prop where
  counter : b.mgr.world.nextIpHost = first + b.handed.length
  handed : b.handed = (List.range b.handed.length).map fun k : Nat => bridgeAddress (first + k)
  pool : b.handed ≠ [] → b.mgr.world.nextIpHost ≤ 255

theorem Dispensed.step {first : Int} {b b' : Bridge} {op : UserOp} (h : Dispensed first b)
    (hwf : Wf b.mgr) (hlow : 2 ≤ b.mgr.world.nextIpHost) (hs : bridgeStep b op = some b') :
    Dispensed first b' := by
  obtain ⟨m, hm, rfl⟩ := Option.map_eq_some_iff.mp hs
  have hcounter := nextIpHost_userStep hwf hlow hm
  -- the counter and the list of addresses grow together, or not at all
  cases hhanded : op.handedOut b.mgr with
  | none =>
    rw [hhanded] at hcounter
    have hnext : m.world.nextIpHost = b.mgr.world.nextIpHost := by simpa using hcounter
    simp only [Option.toList_none, List.append_nil]
    exact ⟨hnext.trans h.counter, h.handed, fun hne => hnext.le.trans (h.pool hne)⟩
  | some ip =>
    rw [hhanded] at hcounter
    have hnext : m.world.nextIpHost = b.mgr.world.nextIpHost + 1 := by simpa using hcounter
    obtain ⟨call, hcall, hip⟩ := Option.bind_eq_some_iff.mp hhanded
    obtain ⟨-, hroom, rfl⟩ := StartCall.handedOut_eq_some.mp hip
    have hworld := UserOp.startCall_world hcall
    have hlast : bridgeAddress call.world.nextIpHost = bridgeAddress (first + b.handed.length) := by
      rw [hworld, h.counter]
    refine ⟨?_, ?_, fun _ => ?_⟩
    · show m.world.nextIpHost = _
      rw [hnext, h.counter]
      simp
      omega
    · show b.handed ++ [bridgeAddress call.world.nextIpHost] =
        (List.range (b.handed ++ [bridgeAddress call.world.nextIpHost]).length).map _
      have hlen : (b.handed ++ [bridgeAddress call.world.nextIpHost]).length =
          b.handed.length + 1 := by simp
      rw [hlen, List.range_succ, List.map_append, ← h.handed, List.map_singleton, hlast]
    · show m.world.nextIpHost ≤ 255
      omega

theorem Dispensed.mem_iff {first : Int} {b : Bridge} (h : Dispensed first b) {n : Int} :
    bridgeAddress n ∈ b.handed ↔ first ≤ n ∧ n < b.mgr.world.nextIpHost := by
  have hcounter := h.counter
  rw [h.handed, List.mem_map]
  constructor
  · rintro ⟨k, hk, heq⟩
    have hn := bridgeAddress_injective heq
    rw [List.mem_range] at hk
    omega
  · rintro ⟨hfirst, hnext⟩
    refine ⟨(n - first).toNat, List.mem_range.mpr (by omega), ?_⟩
    congr 1
    omega

theorem Dispensed.nodup {first : Int} {b : Bridge} (h : Dispensed first b) : b.handed.Nodup := by
  rw [h.handed]
  refine List.nodup_range.map fun j k heq => ?_
  have hjk := bridgeAddress_injective heq
  omega

/-- What the loop of `container_manager_init` leaves, whatever the records it
reads: each id has been shown to `update_next_sequence`, each address to
`bridge_mark_ip_used`. -/
structure Tallied (m : Manager) : Prop where
  ptrs : (m.list.map Container.ptr).Nodup
  heap : ∀ c ∈ m.list, c.ptr < m.heap
  seq : m.nextSequence = m.list.foldl (fun next c => updateNextSequence next c.id) 1
  marked : m.world.nextIpHost = m.list.foldl (fun next c => bridgeMarkIpUsed c.ipAddress next) 2

theorem tallied_init : Tallied .init := ⟨List.nodup_nil, List.forall_mem_nil _, rfl, rfl⟩

theorem Tallied.line {o : InitOutcome} {m m' : Manager} {line : Bytes} (h : Tallied m)
    (hline : restoreLine o (some m) line = some m') : Tallied m' := by
  rw [restoreLine, Option.bind_some] at hline
  simp only at hline
  split at hline
  · cases hline
    exact h
  split at hline
  · cases hline
  · cases hline
    refine ⟨?_, fun c hc => ?_, ?_, ?_⟩
    · rw [List.map_append, List.map_singleton]
      refine h.ptrs.append (List.nodup_singleton _) (List.disjoint_singleton.mpr fun hmem => ?_)
      obtain ⟨c, hc, hptr⟩ := List.mem_map.mp hmem
      have hlt := h.heap c hc
      rw [hptr] at hlt
      exact absurd hlt (Nat.lt_irrefl _)
    · rcases List.mem_append.mp hc with hc | hc
      · exact Nat.lt_succ_of_lt (h.heap c hc)
      · rw [List.mem_singleton.mp hc]
        exact Nat.lt_succ_self _
    · simp only [List.foldl_append, List.foldl_cons, List.foldl_nil, ← h.seq]
    · simp only [List.foldl_append, List.foldl_cons, List.foldl_nil, ← h.marked]

/-- Whatever the file holds, the manager polls a list that was tallied up. -/
theorem containerManagerInit_tallied (o : InitOutcome) (text : Bytes) :
    containerManagerInit o (some text) = (.init, -1) ∨
    ∃ m, Tallied m ∧ containerManagerInit o (some text) = (pollStates o.poll m, 0) := by
  -- a line that cannot be allocated ends the loop, so the fold carries an option
  have hloop : ∀ (lines : List Bytes) (m : Option Manager), (∀ m', m = some m' → Tallied m') →
      ∀ m', lines.foldl (fun m line => restoreLine o m (trimNewline line)) m = some m' →
        Tallied m' := by
    intro lines
    induction lines with
    | nil => exact fun m hm m' heq => hm m' heq
    | cons line lines ih =>
      intro m hm
      refine ih _ fun m' hline => ?_
      cases m with
      | none => cases hline
      | some m => exact (hm m rfl).line hline
  unfold containerManagerInit
  simp only
  cases hread : (chunks 1024 text).foldl (fun m line => restoreLine o m (trimNewline line))
      (some .init) with
  | none => exact .inl rfl
  | some m =>
    refine .inr ⟨m, hloop _ _ (fun m' hm => ?_) m hread, rfl⟩
    cases hm
    exact tallied_init

theorem foldl_bridgeMarkIpUsed (l : List Container) (next : Int) :
    next ≤ l.foldl (fun next c => bridgeMarkIpUsed c.ipAddress next) next ∧
    ∀ c ∈ l, ∀ n, c.ipAddress = bridgeAddress n →
      n < l.foldl (fun next c => bridgeMarkIpUsed c.ipAddress next) next := by
  induction l generalizing next with
  | nil => exact ⟨Int.le_refl _, List.forall_mem_nil _⟩
  | cons c l ih =>
    obtain ⟨hle, hlt⟩ := ih (bridgeMarkIpUsed c.ipAddress next)
    rw [List.foldl_cons]
    refine ⟨(le_bridgeMarkIpUsed c.ipAddress next).trans hle, ?_⟩
    rintro d hd n hip
    rcases List.mem_cons.mp hd with rfl | hd
    · have hmark := lt_bridgeMarkIpUsed n next
      rw [← hip] at hmark
      exact Int.lt_of_lt_of_le hmark hle
    · exact hlt d hd n hip

theorem Tallied.wf {m : Manager} (h : Tallied m) : Wf m := by
  refine ⟨h.ptrs, h.heap, fun c hc k hk => ?_⟩
  exact (foldl_updateNextSequence m.list 1).2 c hc k (h.seq ▸ hk)

theorem Tallied.low {m : Manager} (h : Tallied m) : 2 ≤ m.world.nextIpHost := by
  rw [h.marked]
  exact (foldl_bridgeMarkIpUsed m.list 2).1

/-- A restored list whose ids and addresses are distinct. -/
structure RestoredNetwork (m : Manager) : Prop extends Tallied m where
  ids : (m.list.map Container.id).Nodup
  form : ∀ c ∈ m.list, NumberedId c.id
  addresses : (addresses m.list).Nodup
  veths : ∀ c ∈ m.list, c.vethHost = [] ∨ c.vethHost = hostVeth c.id

theorem RestoredNetwork.ahead {m : Manager} (h : RestoredNetwork m) : Ahead m.world m.list := by
  refine ⟨h.low, ?_, h.addresses⟩
  rintro ip hip n hn rfl
  obtain ⟨c, hc, heq, -⟩ := mem_addresses.mp hip
  have hlt := (foldl_bridgeMarkIpUsed m.list 2).2 c hc n heq
  rw [← h.marked] at hlt
  omega

/-- The counter behind the ids is an `int`. -/
def CreatesOk (b : Bridge) (op : UserOp) : Prop :=
  ∀ spec, op.creates = some spec → b.mgr.nextSequence < 2 ^ 31

/-- The fields of records follow their ids. -/
def VethOk (c : Container) : Prop := c.vethHost = [] ∨ c.vethHost = hostVeth c.id

theorem vethOk_lasting : Lasting VethOk := by
  intro c c' h hc
  rw [VethOk, h.same.id]
  rcases h.vethHost with heq | hnew
  · rw [heq]
    exact hc
  · exact hnew

theorem vethOk_new (spec : ContainerSpec) : OfNew VethOk spec := fun _ _ _ _ _ => .inl rfl

/-- The invariant of runs from a restored list. -/
structure BridgeInv (first : Int) (b : Bridge) : Prop where
  ids : IdsOf NumberedId b.mgr
  ahead : Ahead b.mgr.world b.mgr.list
  veths : ∀ c ∈ b.mgr.list, VethOk c
  dispensed : Dispensed first b

theorem RestoredNetwork.bridgeInv {m : Manager} (h : RestoredNetwork m) :
    BridgeInv m.world.nextIpHost ⟨m, []⟩ :=
  ⟨⟨h.wf, h.ids, h.form⟩, h.ahead, h.veths, by simp, rfl, fun hne => absurd rfl hne⟩

theorem BridgeInv.step {first : Int} {b b' : Bridge} {op : UserOp} (h : BridgeInv first b)
    (hok : CreatesOk b op) (hs : bridgeStep b op = some b') : BridgeInv first b' := by
  have hdispensed := h.dispensed.step h.ids.toWf h.ahead.low hs
  obtain ⟨m, hm, rfl⟩ := Option.map_eq_some_iff.mp hs
  exact
    { ids := h.ids.step (fun spec hspec => numberedId_containerId (hok spec hspec)) hm
      ahead := ahead_ruled.userStep h.ids.toWf (fun _ _ => Ahead.start) hm h.ahead
      veths := vethOk_lasting.userStep (fun spec _ => vethOk_new spec) hm h.veths
      dispensed := hdispensed }

theorem pairwise_of_addresses {l : List Container} (h : (addresses l).Nodup) :
    l.Pairwise fun c d => c.ipAddress ≠ [] → c.ipAddress ≠ d.ipAddress := by
  induction l with
  | nil => exact .nil
  | cons c l ih =>
    rw [addresses_cons, List.nodup_append] at h
    refine List.pairwise_cons.mpr ⟨fun d hd hne heq => ?_, ih h.2.1⟩
    have hmem : d.ipAddress ∈ addresses l := mem_addresses.mpr ⟨d, hd, rfl, heq ▸ hne⟩
    rw [if_pos hne] at h
    exact h.2.2 c.ipAddress (List.mem_singleton_self _) d.ipAddress hmem heq

theorem IdsOf.pairwise_veths {m : Manager} (h : IdsOf NumberedId m)
    (hveths : ∀ c ∈ m.list, VethOk c) :
    m.list.Pairwise fun c d => c.vethHost ≠ [] → c.vethHost ≠ d.vethHost := by
  have hids : m.list.Pairwise fun c d => c.id ≠ d.id := List.pairwise_map.mp h.ids
  refine hids.imp_of_mem fun {c d} hc hd hne hveth heq => hne ?_
  have hcv := (hveths c hc).resolve_left hveth
  have hdv := (hveths d hd).resolve_left (heq ▸ hveth)
  exact hostVeth_inj (h.form c hc) (h.form d hd) (hcv.symm.trans (heq.trans hdv))

/-- **Bridge addresses are unique**, and so are interfaces, along every run from
a restored list: no two records share one, and what `bridge_alloc_ip` hands out
is in the pool, new each time and in no restored record. -/
theorem bridge_addresses_unique {m₀ : Manager} {ops : List UserOp} {b : Bridge}
    (h₀ : RestoredNetwork m₀) (hrun : RunOk bridgeStep CreatesOk ⟨m₀, []⟩ ops b) :
    b.mgr.list.Pairwise (fun c d => c.ipAddress ≠ [] → c.ipAddress ≠ d.ipAddress) ∧
    b.mgr.list.Pairwise (fun c d => c.vethHost ≠ [] → c.vethHost ≠ d.vethHost) ∧
    b.handed.Nodup ∧
    ∀ ip ∈ b.handed, (∃ n : Nat, 2 ≤ n ∧ n ≤ 254 ∧ ip = bytes "172.17.0." ++ fmtNat n) ∧
      ∀ c ∈ m₀.list, c.ipAddress ≠ ip := by
  have hinv : BridgeInv m₀.world.nextIpHost b :=
    hrun.invariant (fun _ _ _ h hok hs => h.step hok hs) h₀.bridgeInv
  refine ⟨pairwise_of_addresses hinv.ahead.unique, hinv.ids.pairwise_veths hinv.veths,
    hinv.dispensed.nodup, fun ip hip => ?_⟩
  have hpool := hinv.dispensed.pool (List.ne_nil_of_mem hip)
  have hlow := h₀.low
  have hform := hip
  rw [hinv.dispensed.handed] at hform
  obtain ⟨k, -, rfl⟩ := List.mem_map.mp hform
  obtain ⟨hfirst, hnext⟩ := hinv.dispensed.mem_iff.mp hip
  refine ⟨⟨(m₀.world.nextIpHost + k).toNat, by omega, by omega, ?_⟩, fun c hc heq => ?_⟩
  · obtain ⟨n, hn⟩ := Int.eq_ofNat_of_zero_le (show 0 ≤ m₀.world.nextIpHost + k by omega)
    rw [hn]
    rfl
  · -- a restored address was marked, which took the counter past it
    have hlt := (foldl_bridgeMarkIpUsed m₀.list 2).2 c hc _ heq
    rw [← h₀.marked] at hlt
    omega

/-- `container-0012` comes back with an address, `container-0007` without. -/
def restoredBridge : Manager :=
  { Manager.init with
    list :=
      [{ (newContainer .clean .zero 0 12).1 with
          ipAddress := bridgeAddress 7, vethHost := hostVeth (containerId 12) },
        (newContainer .clean .zero 1 7).1]
    nextSequence := 13
    heap := 2
    world := { World.init with nextIpHost := 8 } }

/-- A start whose veth cannot be made, a stop, a start, a new container that loses
its process after network set-up, and a delete. -/
def bridgeOps : List UserOp :=
  [.life (.start .quiet
      { StartOutcome.clean (.ofNat 100) with net := ⟨true, true, false⟩ } (containerId 7)),
    .life (.stop .quiet .clean (containerId 7) 0),
    .life (.start .quiet (.clean (.ofNat 101)) (containerId 7)),
    .life (.create .clean .zero),
    .life (.start .quiet { StartOutcome.clean (.ofNat 102) with ns := .failAfter } (containerId 13)),
    .life (.delete .quiet true (containerId 12))]

instance (b : Bridge) (op : UserOp) : Decidable (CreatesOk b op) :=
  decidable_of_iff (op.creates.isSome = true → b.mgr.nextSequence < 2 ^ 31) <| by
    unfold CreatesOk
    cases op.creates <;> simp

theorem restoredNetwork_restoredBridge : RestoredNetwork restoredBridge where
  ptrs := by decide
  heap := by decide
  seq := by decide +kernel
  marked := by decide +kernel
  ids := by decide +kernel
  form := by
    intro c hc
    simp only [restoredBridge, List.mem_cons, List.not_mem_nil, or_false] at hc
    rcases hc with rfl | rfl
    · exact numberedId_containerId (by omega)
    · exact numberedId_containerId (by omega)
  addresses := by decide +kernel
  veths := by decide +kernel

theorem bridge_addresses_unique_restored :
    ∃ b, RunOk bridgeStep CreatesOk ⟨restoredBridge, []⟩ bridgeOps b ∧
      b.mgr.list.map Container.ipAddress = [bridgeAddress 9, bridgeAddress 10] ∧
      b.handed = [bridgeAddress 8, bridgeAddress 9, bridgeAddress 10] ∧ b.handed.Nodup := by
  obtain ⟨b, hrun, hlist, hhanded⟩ := exists_runOk_of_exec bridgeStep CreatesOk
    ⟨restoredBridge, []⟩ bridgeOps
    (fun b => b.mgr.list.map Container.ipAddress = [bridgeAddress 9, bridgeAddress 10] ∧
      b.handed = [bridgeAddress 8, bridgeAddress 9, bridgeAddress 10]) (by decide +kernel)
  exact ⟨b, hrun, hlist, hhanded,
    (bridge_addresses_unique restoredNetwork_restoredBridge hrun).2.2.1⟩

/-! ## The pool runs out -/

/-- The counter has passed a number for some address it was shown. -/
theorem exists_of_lt_foldl {l : List Container} {next n : Int} (h2 : 2 ≤ n) (hnext : next ≤ n)
    (hlt : n < l.foldl (fun next c => bridgeMarkIpUsed c.ipAddress next) next) :
    ∃ c ∈ l, n < bridgeMarkIpUsed c.ipAddress 2 := by
  induction l generalizing next with
  | nil => exact absurd hlt (Int.not_lt.mpr hnext)
  | cons c l ih =>
    by_cases hc : bridgeMarkIpUsed c.ipAddress next ≤ n
    · obtain ⟨d, hd, hmark⟩ := ih hc hlt
      exact ⟨d, List.mem_cons_of_mem _ hd, hmark⟩
    · refine ⟨c, List.mem_cons_self, ?_⟩
      -- it moved for `c`, to one past the number in its address
      unfold bridgeMarkIpUsed at hc ⊢
      simp only at hc ⊢
      split at hc
      · rename_i hlead
        rw [if_pos hlead]
        split at hc
        · split at hc
          · rw [if_pos (by omega)]
            omega
          · omega
        · omega
      · omega

/-- **`bridge_alloc_ip` fails only when the counter has passed the pool**: each of
its addresses has been handed out, or is no greater than a restored one. None of
those handed out is handed out again. -/
theorem pool_passed {m₀ : Manager} {ops : List UserOp} {b : Bridge} {op : UserOp}
    {call : StartCall} (h₀ : Tallied m₀) (hrun : Runs bridgeStep ⟨m₀, []⟩ ops b)
    (hcall : op.startCall b.mgr = some call) (hrefused : call.Refused) :
    b.handed.Nodup ∧
    ∀ n : Int, 2 ≤ n → n ≤ 254 →
      bridgeAddress n ∈ b.handed ∨ ∃ c ∈ m₀.list, n < bridgeMarkIpUsed c.ipAddress 2 := by
  have hinv : Wf b.mgr ∧ 2 ≤ b.mgr.world.nextIpHost ∧ Dispensed m₀.world.nextIpHost b := by
    apply hrun.invariant (I := fun b =>
      Wf b.mgr ∧ 2 ≤ b.mgr.world.nextIpHost ∧ Dispensed m₀.world.nextIpHost b)
    · rintro b op b' ⟨hwf, hlow, hd⟩ _ hs
      have hd' := hd.step hwf hlow hs
      obtain ⟨m, hm, rfl⟩ := Option.map_eq_some_iff.mp hs
      have hcounter := nextIpHost_userStep hwf hlow hm
      exact ⟨hwf.userStep hm, by show 2 ≤ m.world.nextIpHost; omega, hd'⟩
    · exact ⟨h₀.wf, h₀.low, by simp, rfl, fun hne => absurd rfl hne⟩
  obtain ⟨-, -, hdispensed⟩ := hinv
  have hpassed := (StartCall.refused_iff.mp hrefused).2
  rw [UserOp.startCall_world hcall] at hpassed
  refine ⟨hdispensed.nodup, fun n h2 h254 => ?_⟩
  by_cases hfirst : m₀.world.nextIpHost ≤ n
  · exact .inl (hdispensed.mem_iff.mpr ⟨hfirst, by omega⟩)
  · refine .inr (exists_of_lt_foldl h2 h2 ?_)
    rw [← h₀.marked]
    omega

/-- A start of a container that publishes a port, without a veth. -/
def failingStart : UserOp :=
  .life (.start .quiet { StartOutcome.clean (.ofNat 100) with net := ⟨true, true, false⟩ }
    (containerId 1))

def leakOps : List UserOp :=
  .life (.create .clean
    { ContainerSpec.zero with portMaps := bridgeParsePortMaps (bytes "8080:80") maxPortMaps }) ::
  List.replicate 253 failingStart

/-- The next one finds the pool used up, with no address in use. -/
theorem leakOps_refused :
    ∃ b call, Runs bridgeStep ⟨.init, []⟩ leakOps b ∧ failingStart.startCall b.mgr = some call ∧
      call.Refused ∧ ∀ c ∈ b.mgr.list, c.ipAddress = [] := by
  obtain ⟨b, hrun, hrefused, hlist⟩ := exists_runOk_of_exec bridgeStep (fun _ _ => True)
    ⟨.init, []⟩ leakOps
    (fun b => (failingStart.startCall b.mgr).any (fun call => call.Refused) = true ∧
      ∀ c ∈ b.mgr.list, c.ipAddress = []) (by decide +kernel)
  obtain ⟨call, hcall, href⟩ := (Option.any_eq_true _ _).mp hrefused
  exact ⟨b, call, hrun, hcall, of_decide_eq_true href, hlist⟩

theorem pool_passed_leakOps :
    ∃ b, Runs bridgeStep ⟨.init, []⟩ leakOps b ∧ b.handed.Nodup ∧
      ∀ n : Int, 2 ≤ n → n ≤ 254 → bridgeAddress n ∈ b.handed := by
  obtain ⟨b, call, hrun, hcall, hrefused, -⟩ := leakOps_refused
  obtain ⟨hnodup, hall⟩ := pool_passed tallied_init hrun hcall hrefused
  refine ⟨b, hrun, hnodup, fun n h2 h254 => (hall n h2 h254).resolve_right ?_⟩
  rintro ⟨c, hc, -⟩
  cases hc

/-- `bridge_alloc_ip` fails although none of its addresses is in use. -/
theorem pool_exhausted_unused :
    ∃ b call, Runs bridgeStep ⟨.init, []⟩ leakOps b ∧ failingStart.startCall b.mgr = some call ∧
      call.Refused ∧
      ¬ ∀ n : Int, 2 ≤ n → n ≤ 254 → ∃ c ∈ b.mgr.list, c.ipAddress = bridgeAddress n := by
  obtain ⟨b, call, hrun, hcall, hrefused, hnone⟩ := leakOps_refused
  refine ⟨b, call, hrun, hcall, hrefused, fun hall => ?_⟩
  obtain ⟨c, hc, hip⟩ := hall 2 (by omega) (by omega)
  rw [hnone c hc] at hip
  exact bridgeAddress_ne_nil 2 hip.symm

end ContainerSim.Runtime
