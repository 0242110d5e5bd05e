import ContainerSim.Runtime.Pairing
import ContainerSim.Runtime.Rule

/-!
# Bridge addresses

`bridge_alloc_ip` takes addresses from a counter that only goes up: an operation
moves it by the one address it hands out, if any (`nextIpHost_userStep`). Every
record's address stays behind the counter (`Ahead`), so a new one is never in
use. The interface of a container is named after the digits of its id.
-/

namespace ContainerSim.Runtime

open Lib Sched

/-! ## Addresses and interfaces as text -/

/-- `"172.17.0.%d"`. -/
def bridgeAddress (n : Int) : Bytes := bytes "172.17.0." ++ fmtInt n

theorem scanInt_bridgeAddress (n : Int) :
    scanInt ((bridgeAddress n).drop (bytes "172.17.0.").length) = some (n, []) := by
  have hscan := scanInt_fmtInt n (NoDigit.nil 10)
  rw [List.append_nil] at hscan
  rw [bridgeAddress, List.drop_left]
  exact hscan

theorem bridgeAddress_injective : Function.Injective bridgeAddress := by
  intro n k h
  have hn := scanInt_bridgeAddress n
  rw [h, scanInt_bridgeAddress k] at hn
  simpa using hn.symm

theorem bridgeAddress_ne_nil (n : Int) : bridgeAddress n ≠ [] := by
  simp [bridgeAddress, bytes]

/-- An address the bridge hands out fits the record. -/
theorem snprintfStr_bridgeAddress {n : Int} (h2 : 2 ≤ n) (h254 : n ≤ 254) :
    snprintfStr 16 (bridgeAddress n) = bridgeAddress n := by
  obtain ⟨k, rfl⟩ := Int.eq_ofNat_of_zero_le (show 0 ≤ n by omega)
  have hdigits : (fmtNat k).length ≤ 3 := fmtNat_length_le (by omega) (by omega)
  have hlead : (bytes "172.17.0.").length = 9 := by decide
  apply snprintfStr_eq_self
  rw [bridgeAddress, List.length_append, hlead]
  show 9 + (fmtNat k).length ≤ 16 - 1
  omega

theorem le_bridgeMarkIpUsed (ip : Bytes) (next : Int) : next ≤ bridgeMarkIpUsed ip next := by
  unfold bridgeMarkIpUsed
  simp only
  split
  · split
    · split
      · omega
      · exact Int.le_refl _
    · exact Int.le_refl _
  · exact Int.le_refl _

/-- The counter is past every address it was shown. -/
theorem lt_bridgeMarkIpUsed (n next : Int) : n < bridgeMarkIpUsed (bridgeAddress n) next := by
  have hlead : (bytes "172.17.0.").isPrefixOf (bridgeAddress n) = true := by
    rw [List.isPrefixOf_iff_prefix]
    exact List.prefix_append _ _
  unfold bridgeMarkIpUsed
  simp only [hlead, if_true, scanInt_bridgeAddress]
  split
  · omega
  · omega

/-- An id `container-N` whose number has no more digits than the name of an
interface has room for; ten are enough for an `int`. -/
def NumberedId (id : Bytes) : Prop :=
  ∃ ds : Bytes, ds.length ≤ 11 ∧ (∀ c ∈ ds, isDigit 10 c = true) ∧ id = bytes "container-" ++ ds

theorem numberedId_containerId {k : Nat} (h : k < 2 ^ 31) : NumberedId (containerId k) := by
  have hlen := fmtPadded_length_le 4 (k := 10) (n := k) (by omega) (by omega)
  have hmax : max 4 10 = 10 := by omega
  exact ⟨fmtPadded 4 k, by omega, fmtPadded_isDigit 4 k, rfl⟩

/-- Of the digits of an id, the first eleven name its interface. -/
theorem hostVeth_digits {ds : Bytes} (hds : ∀ c ∈ ds, isDigit 10 c = true) :
    hostVeth (bytes "container-" ++ ds) = bytes "veth" ++ ds.take 11 := by
  have hsuffix : idSuffix (bytes "container-" ++ ds) = ds := by
    have hbytes : bytes "container-" = bytes "container" ++ [45] := by decide
    have hall : ∀ c ∈ ds.reverse, (c ≠ 45 : Bool) = true := by
      intro c hc
      exact decide_eq_true (isDigit_ne (hds c (List.mem_reverse.mp hc))).1
    rw [idSuffix, hbytes, List.reverse_append, List.takeWhile_append_of_pos hall]
    simp
  rw [hostVeth, hsuffix]
  rfl

/-- Different ids have different interfaces. -/
theorem hostVeth_inj {id id' : Bytes} (h : NumberedId id) (h' : NumberedId id')
    (heq : hostVeth id = hostVeth id') : id = id' := by
  obtain ⟨ds, hlen, hds, rfl⟩ := h
  obtain ⟨ds', hlen', hds', rfl⟩ := h'
  rw [hostVeth_digits hds, hostVeth_digits hds', List.take_of_length_le hlen,
    List.take_of_length_le hlen'] at heq
  rw [List.append_cancel_left heq]

/-! ## The counter and the records -/

@[simp] theorem nextIpHost_emit (w : World) (e : Effect) :
    (w.emit e).nextIpHost = w.nextIpHost := rfl

@[simp] theorem nextIpHost_schedRemove (w : World) (pid : Int) :
    (w.schedRemove pid).nextIpHost = w.nextIpHost := rfl

/-- No address is handed out; at most the record's own is given up. -/
structure Sheds (c : Container) (w : World) (c' : Container) (w' : World) : Prop where
  address : c'.ipAddress = c.ipAddress ∨ c'.ipAddress = []
  counter : w'.nextIpHost = w.nextIpHost

theorem Sheds.refl (c : Container) (w : World) : Sheds c w c w := ⟨.inl rfl, rfl⟩

theorem nextIpHost_delPortForwards (ip : Bytes) (pms : List PortMapping) (w : World) :
    (delPortForwards ip pms w).nextIpHost = w.nextIpHost := by
  unfold delPortForwards
  induction pms generalizing w with
  | nil => rfl
  | cons pm pms ih => exact ih _

theorem cleanupContainerNetwork_sheds (c : Container) (w : World) :
    Sheds c w (cleanupContainerNetwork c w).1 (cleanupContainerNetwork c w).2 := by
  have hrules : (if c.ipAddress ≠ [] then delPortForwards c.ipAddress c.portMaps w
      else w).nextIpHost = w.nextIpHost := by
    split
    · exact nextIpHost_delPortForwards _ _ w
    · rfl
  unfold cleanupContainerNetwork
  simp only
  split
  · exact ⟨.inr rfl, hrules⟩
  · exact ⟨.inl rfl, hrules⟩

/-- Cleaned up as another record with the same address. -/
theorem Sheds.cleaned (c₁ : Container) (w₁ : World) {c c' : Container} {w w' : World}
    (hip : c₁.ipAddress = c.ipAddress) (hnext : w₁.nextIpHost = w.nextIpHost)
    (hip' : c'.ipAddress = (cleanupContainerNetwork c₁ w₁).1.ipAddress)
    (hnext' : w'.nextIpHost = (cleanupContainerNetwork c₁ w₁).2.nextIpHost) :
    Sheds c w c' w' := by
  obtain ⟨haddress, hcounter⟩ := cleanupContainerNetwork_sheds c₁ w₁
  rw [← hip', hip] at haddress
  exact ⟨haddress, hnext'.trans (hcounter.trans hnext)⟩

theorem syncContainerState_sheds (o : SyncOutcome) (c : Container) (w : World) :
    Sheds c w (syncContainerState o c w).1 (syncContainerState o c w).2.1 := by
  unfold syncContainerState
  split
  · exact .refl c w
  split
  · exact .refl c w
  cases o.wait with
  | reaped status =>
    exact .cleaned
      { c with stoppedAt := o.now, exitCode := status.code, state := .stopped, pid := -1 }
      ((w.emit (.reaped c.pid)).schedRemove c.pid) rfl rfl rfl rfl
  | echild =>
    simp only
    split
    · exact .refl c w
    · exact .cleaned { c with state := .stopped, pid := -1 } (w.emit (.foundDead c.pid))
        rfl rfl rfl rfl
  | nothing => exact .refl c w
  | eintr => exact .refl c w
  | error => exact .refl c w

theorem pollRecord_sheds (o : SyncOutcome) (c : Container) (w : World) :
    Sheds c w (pollRecord o c w).1 (pollRecord o c w).2.1 := by
  unfold pollRecord
  split
  · obtain ⟨haddress, hcounter⟩ := syncContainerState_sheds o { c with oomKillCount := o.oom }
      (w.emit (.event .oomKill c.id [] o.rssMb))
    exact ⟨haddress, hcounter⟩
  · exact syncContainerState_sheds o c w

theorem nextIpHost_stopSignals (o : StopOutcome) (timeoutS pid : Int) (w : World) :
    (stopSignals o timeoutS pid w).1.nextIpHost = w.nextIpHost := by
  have hkill : ∀ w : World, (killPhase o pid w).1.nextIpHost = w.nextIpHost := by
    intro w
    have hsignal : (if o.kill = .ok then w.emit (.signal pid .kill) else w).nextIpHost =
        w.nextIpHost := by
      split <;> rfl
    unfold killPhase
    simp only
    split
    · exact hsignal
    · cases o.finalWait <;> exact hsignal
  have hterm : (if o.term then w.emit (.signal pid .term) else w).nextIpHost = w.nextIpHost := by
    split <;> rfl
  unfold stopSignals
  simp only
  cases termPhase o timeoutS with
  | some status => exact hterm
  | none => exact (hkill _).trans hterm

theorem stopContainerProcess_sheds (o : StopOutcome) (timeoutS : Int) (c : Container)
    (w : World) :
    Sheds c w (stopContainerProcess o timeoutS c w).1
      (stopContainerProcess o timeoutS c w).2.1 := by
  unfold stopContainerProcess
  split
  · exact .refl c w
  simp only
  have hcont : (if c.state = .paused ∧ o.cont = true then
      w.emit (.signal c.pid .cont) else w).nextIpHost = w.nextIpHost := by
    split <;> rfl
  generalize (if c.state = .paused ∧ o.cont = true then w.emit (.signal c.pid .cont) else w) = w₁
    at hcont ⊢
  have hsignals := (nextIpHost_stopSignals o timeoutS c.pid w₁).trans hcont
  generalize stopSignals o timeoutS c.pid w₁ = r at hsignals ⊢
  split
  · exact ⟨.inl rfl, hsignals⟩
  · exact .cleaned c (r.1.schedRemove c.pid) rfl hsignals rfl rfl

theorem waitForContainerProcess_sheds (o : WaitOutcome) (c : Container) (w : World) :
    Sheds c w (waitForContainerProcess o c w).1 (waitForContainerProcess o c w).2.1 := by
  have hfinish : ∀ (status : WaitStatus) (w₁ : World), w₁.nextIpHost = w.nextIpHost →
      let c₁ := { c with
        stoppedAt := o.now, exitCode := status.code, pid := -1, state := .stopped }
      Sheds c w (cleanupContainerNetwork c₁ w₁).1
        ((cleanupContainerNetwork c₁ w₁).2.emit (.save o.save)) := by
    intro status w₁ hnext c₁
    exact .cleaned c₁ w₁ rfl hnext rfl rfl
  unfold waitForContainerProcess
  split
  · exact .refl c w
  cases o.wait with
  | reaped status => exact hfinish status _ rfl
  | echild =>
    simp only
    split
    · exact .refl c w
    · exact hfinish (.exited 0) _ rfl
  | nothing => exact .refl c w
  | eintr => exact .refl c w
  | error => exact .refl c w

theorem pauseContainer_sheds (kill save : Bool) (c : Container) (w : World) :
    Sheds c w (pauseContainer kill save c w).1 (pauseContainer kill save c w).2.1 := by
  unfold pauseContainer
  split
  · exact .refl c w
  split
  · exact .refl c w
  · exact ⟨.inl rfl, rfl⟩

theorem unpauseContainer_sheds (kill save : Bool) (c : Container) (w : World) :
    Sheds c w (unpauseContainer kill save c w).1 (unpauseContainer kill save c w).2.1 := by
  unfold unpauseContainer
  split
  · exact .refl c w
  split
  · exact .refl c w
  · exact ⟨.inl rfl, rfl⟩

theorem ensureContainerLogPath_ip (c : Container) :
    (ensureContainerLogPath c).ipAddress = c.ipAddress := by
  unfold ensureContainerLogPath
  split <;> rfl

/-- A property that stands shedding, new records without an address, reordering
and removal. -/
theorem ruled_of_sheds {Q : World → List Container → Prop}
    (hrecord : ∀ {c c' : Container} {w w' : World} {pre post : List Container},
      Sheds c w c' w' → Q w (pre ++ c :: post) → Q w' (pre ++ c' :: post))
    (hworld : ∀ {w w' : World} {l : List Container}, w'.nextIpHost = w.nextIpHost → Q w l → Q w' l)
    (hcreate : ∀ {c : Container} {w : World} {l : List Container}, c.ipAddress = [] → Q w l →
      Q w (l ++ [c]))
    (hback : ∀ {c : Container} {w : World} {pre post : List Container}, Q w (pre ++ c :: post) →
      Q w (pre ++ post ++ [c]))
    (hremove : ∀ {c : Container} {w : World} {pre post : List Container},
      Q w (pre ++ c :: post) → Q w (pre ++ post)) : Ruled Q where
  sync := fun o c w _ _ h => hrecord (pollRecord_sheds o c w) h
  stop := fun o timeoutS c w _ _ h => hrecord (stopContainerProcess_sheds o timeoutS c w) h
  wait := fun o c w _ _ h => hrecord (waitForContainerProcess_sheds o c w) h
  pause := fun kill save c w _ _ h => hrecord (pauseContainer_sheds kill save c w) h
  unpause := fun kill save c w _ _ h => hrecord (unpauseContainer_sheds kill save c w) h
  logPath := fun c _ _ _ h => hrecord ⟨.inl (ensureContainerLogPath_ip c), rfl⟩ h
  save := fun _ w _ h => hworld (w := w) rfl h
  create := fun _ w _ hnew _ h => hworld (w := w) rfl (hcreate hnew.ipAddress h)
  putBack := fun c w _ _ _ h => hback (hrecord (cleanupContainerNetwork_sheds c w) h)
  remove := fun _ w _ _ _ h => hworld (w := w) rfl (hremove h)

theorem counter_ruled (k : Int) : Ruled fun w _ => w.nextIpHost = k :=
  ruled_of_sheds (fun hshed h => hshed.counter.trans h) (fun hnext h => hnext.trans h)
    (fun _ h => h) (fun h => h) (fun h => h)

/-! ## Addresses in use -/

/-- The addresses of the list. -/
def addresses (l : List Container) : List Bytes := (l.map Container.ipAddress).filter (· ≠ [])

theorem addresses_append (l l' : List Container) :
    addresses (l ++ l') = addresses l ++ addresses l' := by
  simp [addresses]

theorem addresses_cons (c : Container) (l : List Container) :
    addresses (c :: l) = (if c.ipAddress ≠ [] then [c.ipAddress] else []) ++ addresses l := by
  by_cases h : c.ipAddress = [] <;> simp [addresses, h]

theorem mem_addresses {l : List Container} {ip : Bytes} :
    ip ∈ addresses l ↔ ∃ c ∈ l, c.ipAddress = ip ∧ ip ≠ [] := by
  simp [addresses]
  grind

/-- Every address is behind the counter, and no two records have the same. -/
structure Ahead (w : World) (l : List Container) : Prop where
  low : 2 ≤ w.nextIpHost
  behind : ∀ ip ∈ addresses l, ∀ n : Int, w.nextIpHost ≤ n → ip ≠ bridgeAddress n
  unique : (addresses l).Nodup

theorem Ahead.sublist {w w' : World} {l l' : List Container} (h : Ahead w l)
    (hnext : w.nextIpHost ≤ w'.nextIpHost) (hsub : (addresses l').Sublist (addresses l)) :
    Ahead w' l' := by
  refine ⟨h.low.trans hnext, fun ip hip n hn => ?_, h.unique.sublist hsub⟩
  exact h.behind ip (hsub.subset hip) n (hnext.trans hn)

theorem Ahead.record {c c' : Container} {w w' : World} {pre post : List Container}
    (hshed : Sheds c w c' w') (h : Ahead w (pre ++ c :: post)) :
    Ahead w' (pre ++ c' :: post) := by
  refine h.sublist hshed.counter.ge ?_
  rw [addresses_append, addresses_append, addresses_cons, addresses_cons]
  refine (List.Sublist.refl _).append (List.Sublist.append ?_ (List.Sublist.refl _))
  rcases hshed.address with heq | hnil
  · rw [heq]
  · rw [hnil]
    exact List.nil_sublist _

theorem ahead_ruled : Ruled Ahead := by
  refine ruled_of_sheds Ahead.record (fun hnext h => h.sublist hnext.ge (List.Sublist.refl _))
    (fun hnil h => h.sublist (Int.le_refl _) ?_) (fun h => ?_)
    (fun h => h.sublist (Int.le_refl _) ?_)
  · rw [addresses_append, addresses_cons, hnil]
    simp [addresses]
  · -- the order of the list does not matter
    rename_i c w pre post
    have hperm : (addresses (pre ++ post ++ [c])).Perm (addresses (pre ++ c :: post)) := by
      have hlist : (pre ++ post ++ [c]).Perm (pre ++ c :: post) := by
        rw [List.append_assoc]
        exact (List.perm_append_singleton c post).append_left pre
      exact (hlist.map _).filter _
    exact ⟨h.low, fun ip hip => h.behind ip (hperm.subset hip), hperm.nodup_iff.mpr h.unique⟩
  · rw [addresses_append, addresses_append, addresses_cons]
    exact (List.Sublist.refl _).append (List.sublist_append_right _ _)

/-- A record takes the address at the counter. -/
theorem Ahead.lease {c c' : Container} {w w' : World} {pre post : List Container}
    (h : Ahead w (pre ++ c :: post)) (hip : c'.ipAddress = bridgeAddress w.nextIpHost)
    (hnext : w'.nextIpHost = w.nextIpHost + 1) : Ahead w' (pre ++ c' :: post) := by
  have hsub : (addresses (pre ++ post)).Sublist (addresses (pre ++ c :: post)) := by
    rw [addresses_append, addresses_append, addresses_cons]
    exact (List.Sublist.refl _).append (List.sublist_append_right _ _)
  have hrest := h.sublist (Int.le_refl w.nextIpHost) hsub
  have hperm : (addresses (pre ++ c' :: post)).Perm
      (bridgeAddress w.nextIpHost :: addresses (pre ++ post)) := by
    rw [addresses_append, addresses_append, addresses_cons, hip,
      if_pos (bridgeAddress_ne_nil w.nextIpHost)]
    exact List.perm_middle
  have hfresh : bridgeAddress w.nextIpHost ∉ addresses (pre ++ post) := by
    intro hmem
    exact hrest.behind _ hmem w.nextIpHost (Int.le_refl _) rfl
  refine ⟨?_, fun ip hmem n hn => ?_, hperm.nodup_iff.mpr (List.nodup_cons.mpr ⟨hfresh, hrest.unique⟩)⟩
  · have hlow := h.low
    omega
  · rcases List.mem_cons.mp (hperm.subset hmem) with rfl | hmem
    · intro heq
      have hn' := bridgeAddress_injective heq
      omega
    · exact hrest.behind ip hmem n (by omega)

/-! ## Starts -/

/-- `container_net_setup` gets as far as `bridge_alloc_ip`. -/
def NetOutcome.asks (o : NetOutcome) : Bool := o.bridgeUp && o.preflight

/-- `namespace_start_container` gets as far as `container_net_setup`. -/
def NsOutcome.setsUp : NsOutcome → Bool
  | .failBefore => false
  | .failAfter => true
  | .ok _ => true

/-- The start calls `bridge_alloc_ip`. -/
def StartCall.asks (call : StartCall) : Bool :=
  call.record.state ≠ .running && call.o.malloc && call.record.commandLine ≠ [] &&
    call.o.ns.setsUp && call.o.net.asks

/-- The address that the start gets from `bridge_alloc_ip`. -/
def StartCall.handedOut (call : StartCall) : Option Bytes :=
  if call.asks then (bridgeAllocIp call.world).map Prod.fst else none

/-- `bridge_alloc_ip` is called and returns -1. -/
def StartCall.Refused (call : StartCall) : Prop :=
  call.asks = true ∧ bridgeAllocIp call.world = none

instance (call : StartCall) : Decidable call.Refused := by unfold StartCall.Refused; infer_instance

/-- At most the address `handed` is taken, and the counter has moved with it. -/
structure Leases (handed : Option Bytes) (c : Container) (w : World) (c' : Container)
    (w' : World) : Prop where
  address : c'.ipAddress = c.ipAddress ∨ c'.ipAddress = [] ∨ handed = some c'.ipAddress
  counter : w'.nextIpHost = w.nextIpHost + handed.toList.length

theorem Sheds.leases {c c' : Container} {w w' : World} (h : Sheds c w c' w') :
    Leases none c w c' w' :=
  ⟨h.address.imp_right .inl, by simp [h.counter]⟩

theorem Leases.trans_sheds {handed : Option Bytes} {c c' c'' : Container} {w w' w'' : World}
    (h : Leases handed c w c' w') (h' : Sheds c' w' c'' w'') : Leases handed c w c'' w'' := by
  refine ⟨?_, h'.counter.trans h.counter⟩
  rcases h'.address with heq | hnil
  · rw [heq]
    exact h.address
  · exact .inr (.inl hnil)

/-- A start clears the address of the record first. -/
theorem Leases.of_cleared {handed : Option Bytes} {capture : Bool} {c c' : Container}
    {w w' : World} (h : Leases handed (c.cleared capture) w c' w') : Leases handed c w c' w' := by
  refine ⟨?_, h.counter⟩
  rcases h.address with heq | hnew
  · exact .inr (.inl heq)
  · exact .inr hnew

theorem bridgeAllocIp_eq (w : World) : bridgeAllocIp w =
    if w.nextIpHost ≤ 254 then
      some (bridgeAddress w.nextIpHost, { w with nextIpHost := w.nextIpHost + 1 })
    else none := by
  unfold bridgeAllocIp
  by_cases h : w.nextIpHost > 254
  · rw [if_pos h, if_neg (by omega)]
  · rw [if_neg h, if_pos (by omega)]
    rfl

/-- What is handed out is the address at the counter. -/
theorem StartCall.handedOut_eq_some {call : StartCall} {ip : Bytes} :
    call.handedOut = some ip ↔ call.asks = true ∧ call.world.nextIpHost ≤ 254 ∧
      ip = bridgeAddress call.world.nextIpHost := by
  unfold StartCall.handedOut
  rw [bridgeAllocIp_eq]
  by_cases hasks : call.asks = true
  · by_cases hnext : call.world.nextIpHost ≤ 254
    · simp [hasks, hnext, eq_comm]
    · simp [hasks, hnext]
  · simp [hasks]

theorem StartCall.refused_iff {call : StartCall} :
    call.Refused ↔ call.asks = true ∧ 254 < call.world.nextIpHost := by
  unfold StartCall.Refused
  rw [bridgeAllocIp_eq]
  by_cases hnext : call.world.nextIpHost ≤ 254
  · simp [hnext]
  · simp [hnext, Int.not_le.mp hnext]

theorem containerNetSetup_leases (o : NetOutcome) (c : Container) {w : World}
    (hlow : 2 ≤ w.nextIpHost) :
    Leases (if o.asks then (bridgeAllocIp w).map Prod.fst else none) c w
      (containerNetSetup o c w).1 (containerNetSetup o c w).2.1 := by
  have hkeep : Leases none c w c w := (Sheds.refl c w).leases
  unfold containerNetSetup NetOutcome.asks
  simp only
  cases o.bridgeUp with
  | false => exact hkeep
  | true =>
    cases o.preflight with
    | false => exact hkeep
    | true =>
      rw [bridgeAllocIp_eq]
      by_cases hnext : w.nextIpHost ≤ 254
      · simp only [if_pos hnext]
        cases o.setupVeth with
        | false => exact ⟨.inl rfl, rfl⟩
        | true =>
          refine ⟨.inr (.inr ?_), rfl⟩
          exact congrArg some (snprintfStr_bridgeAddress hlow hnext).symm
      · simp only [if_neg hnext]
        exact hkeep

theorem namespaceStartContainer_leases (ns : NsOutcome) (net : NetOutcome) (c : Container)
    {w : World} (hlow : 2 ≤ w.nextIpHost) :
    Leases (if c.commandLine ≠ [] && ns.setsUp && net.asks then (bridgeAllocIp w).map Prod.fst
      else none) c w (namespaceStartContainer ns net c w).1 (namespaceStartContainer ns net c w).2.1 := by
  have hnet := containerNetSetup_leases net c hlow
  unfold namespaceStartContainer
  by_cases hcmd : c.commandLine = []
  · simp only [hcmd]
    exact (Sheds.refl c w).leases
  · rw [if_neg hcmd]
    cases ns with
    | failBefore =>
      simp only [NsOutcome.setsUp, Bool.and_false, Bool.false_and]
      exact (Sheds.refl c w).leases
    | failAfter =>
      simp only [NsOutcome.setsUp, hcmd, ne_eq, not_false_eq_true, decide_true, Bool.true_and]
      exact hnet
    | ok pid =>
      simp only [NsOutcome.setsUp, hcmd, ne_eq, not_false_eq_true, decide_true, Bool.true_and]
      by_cases hrc : (containerNetSetup net c w).2.2 = 0
      · rw [if_neg (not_not.mpr hrc)]
        exact hnet.trans_sheds ⟨.inl rfl, rfl⟩
      · rw [if_pos hrc]
        exact hnet

theorem nextIpHost_publish (o : StartOutcome) (c : Container) (w : World) :
    (publish o c w).1.nextIpHost = w.nextIpHost := by
  have hrules : ∀ (ok : Nat → Bool) (ip : Bytes) (i : Nat) (pms : List PortMapping) (w : World),
      (addPortForwards ok ip i pms w).1.nextIpHost = w.nextIpHost := by
    intro ok ip i pms
    induction pms generalizing i with
    | nil => exact fun _ => rfl
    | cons pm pms ih =>
      intro w
      rw [addPortForwards]
      split
      · exact ih _ _
      · rfl
  unfold publish
  split
  · exact hrules _ _ _ _ w
  · rfl

theorem finishStart_sheds (o : StartOutcome) (schedule : Bool) (c : Container) (w : World) :
    Sheds c w (finishStart o schedule c w).1 (finishStart o schedule c w).2.1 := by
  have hpublish := nextIpHost_publish o c w
  have hmove := finishStart_move o schedule c w
  generalize finishStart o schedule c w = r at hmove ⊢
  cases hmove with
  | unpublished =>
    obtain ⟨haddress, hcounter⟩ := stopContainerProcess_sheds o.stop 0 c (publish o c w).1
    exact ⟨haddress, hcounter.trans hpublish⟩
  | undone =>
    obtain ⟨haddress, hcounter⟩ :=
      stopContainerProcess_sheds o.stop 0 c ((publish o c w).1.emit (.save o.save))
    exact ⟨haddress, hcounter.trans hpublish⟩
  | done =>
    refine ⟨.inl rfl, Eq.trans ?_ hpublish⟩
    show (announced o schedule c _).nextIpHost = _
    unfold announced
    cases schedule <;> rfl

theorem startContainer_leases (call : StartCall) (hlow : 2 ≤ call.world.nextIpHost) :
    Leases call.handedOut call.record call.world
      (startContainer call.o call.schedule call.capture call.record call.world).1
      (startContainer call.o call.schedule call.capture call.record call.world).2.1 := by
  obtain ⟨o, schedule, capture, c, w⟩ := call
  have hrefl : Leases none c w c w := (Sheds.refl c w).leases
  unfold StartCall.handedOut StartCall.asks
  by_cases hstate : c.state = .running
  · simp only [hstate, startContainer]
    exact hrefl
  -- without a stack for the clone nothing is asked for
  cases hmalloc : o.malloc with
  | false =>
    simp only [startContainer, hmalloc, Bool.and_false, Bool.false_and, if_neg hstate]
    exact hrefl
  | true =>
    have hcmd : (c.cleared capture).commandLine = c.commandLine := by
      cases capture with
      | false => rfl
      | true =>
        show (ensureContainerLogPath c).commandLine = c.commandLine
        exact (ensureContainerLogPath_spec c).1.commandLine
    have hns := namespaceStartContainer_leases o.ns o.net (c.cleared capture) hlow
    have hguards : (decide (c.state ≠ .running) && true) = true := by simp [hstate]
    rw [startContainer_eq o schedule capture w hstate hmalloc]
    simp only [hguards, Bool.true_and]
    rw [hcmd] at hns
    generalize namespaceStartContainer o.ns o.net (c.cleared capture) w = r at hns ⊢
    have hstarted := hns.of_cleared
    cases r.2.2 with
    | none => exact hstarted
    | some pid =>
      have hlaunched : Sheds r.1 r.2.1 (r.1.launched o pid) r.2.1 := ⟨.inl rfl, rfl⟩
      exact (hstarted.trans_sheds hlaunched).trans_sheds (finishStart_sheds o schedule _ _)

/-! ## Operations -/

/-- The address that an operation gets from `bridge_alloc_ip`. -/
def UserOp.handedOut (m : Manager) (op : UserOp) : Option Bytes :=
  (op.startCall m).bind StartCall.handedOut

theorem nextIpHost_pollStates (o : PollOutcome) (m : Manager) :
    (pollStates o m).world.nextIpHost = m.world.nextIpHost :=
  (counter_ruled _).pollStates o rfl

theorem nextIpHost_containerCreate (o : CreateOutcome) (spec : ContainerSpec) (m : Manager) :
    (containerCreate o spec m).1.world.nextIpHost = m.world.nextIpHost := by
  unfold containerCreate
  split
  · rfl
  · simp only
    cases filesystemPrepareRootfs o (newContainer o spec m.heap m.nextSequence).2 with
    | none => rfl
    | some rootfs =>
      simp only
      split
      · rfl
      · rfl

theorem nextIpHost_recordLogPath (save : Bool) (id : Bytes) (m : Manager) :
    (recordLogPath save id m).world.nextIpHost = m.world.nextIpHost := by
  unfold recordLogPath
  cases findContainer m.list id with
  | none => rfl
  | some c => rfl

theorem startCallOf_world {poll : PollOutcome} {o : StartOutcome} {id : Bytes}
    {schedule capture : Bool} {m : Manager} {call : StartCall}
    (h : startCallOf poll o id schedule capture m = some call) :
    call.world.nextIpHost = m.world.nextIpHost := by
  unfold startCallOf at h
  split at h
  · cases h
  · obtain ⟨c, -, rfl⟩ := Option.map_eq_some_iff.mp h
    exact nextIpHost_pollStates poll m

/-- The counter is where it was when the start of an operation begins. -/
theorem UserOp.startCall_world {m : Manager} {op : UserOp} {call : StartCall}
    (h : op.startCall m = some call) : call.world.nextIpHost = m.world.nextIpHost := by
  cases op with
  | prune poll save => cases h
  | life a =>
    cases a with
    | start poll o id => exact startCallOf_world h
    | run o spec =>
      obtain ⟨id, -, hcall⟩ := Option.bind_eq_some_iff.mp h
      exact (startCallOf_world hcall).trans (nextIpHost_containerCreate _ _ _)
    | runBackground o spec =>
      obtain ⟨id, -, hcall⟩ := Option.bind_eq_some_iff.mp h
      exact (startCallOf_world hcall).trans
        ((nextIpHost_recordLogPath _ _ _).trans (nextIpHost_containerCreate _ _ _))
    | _ => cases h

theorem nextIpHost_startById (poll : PollOutcome) (o : StartOutcome) (id : Bytes)
    (schedule capture : Bool) {m : Manager} (hlow : 2 ≤ m.world.nextIpHost) :
    (startContainerById poll o id schedule capture m).1.world.nextIpHost =
      m.world.nextIpHost +
        ((startCallOf poll o id schedule capture m).bind StartCall.handedOut).toList.length := by
  unfold startContainerById withContainer startCallOf
  by_cases hid : id = []
  · rw [if_pos hid, if_pos hid]
    simp
  · have hpolled := nextIpHost_pollStates poll m
    rw [if_neg hid, if_neg hid]
    simp only
    cases findContainer (pollStates poll m).list id with
    | none => simpa using hpolled
    | some c =>
      have hstart := startContainer_leases ⟨o, schedule, capture, c, (pollStates poll m).world⟩
        (hpolled ▸ hlow)
      exact hpolled ▸ hstart.counter

theorem nextIpHost_containerRun {m : Manager} (hlow : 2 ≤ m.world.nextIpHost) (o : RunOutcome)
    (spec : ContainerSpec) :
    (containerRun o spec m).1.world.nextIpHost =
      m.world.nextIpHost + (UserOp.handedOut m (.life (.run o spec))).toList.length := by
  have hcreate := nextIpHost_containerCreate o.create spec m
  unfold containerRun
  cases hc : containerCreate o.create spec m with
  | mk m₁ r =>
    rw [hc] at hcreate
    cases r with
    | none =>
      have hhanded : UserOp.handedOut m (.life (.run o spec)) = none := by
        simp [UserOp.handedOut, UserOp.startCall, hc]
      simpa [hhanded] using hcreate
    | some id =>
      have hhanded : UserOp.handedOut m (.life (.run o spec)) =
          (startCallOf o.poll o.start id false false m₁).bind StartCall.handedOut := by
        simp [UserOp.handedOut, UserOp.startCall, hc]
      have hstart := nextIpHost_startById o.poll o.start id false false
        (m := m₁) (hcreate ▸ hlow)
      rw [hcreate, ← hhanded] at hstart
      simp only
      generalize startContainerById o.poll o.start id false false m₁ = r at hstart ⊢
      split
      · exact hstart
      · -- what is waited for hands out nothing
        cases findContainer r.1.list id with
        | none => exact hstart
        | some c => exact (waitForContainerProcess_sheds o.wait c r.1.world).counter.trans hstart

theorem nextIpHost_containerRunBackground {m : Manager} (hlow : 2 ≤ m.world.nextIpHost)
    (o : RunOutcome) (spec : ContainerSpec) :
    (containerRunBackground o spec m).1.world.nextIpHost =
      m.world.nextIpHost + (UserOp.handedOut m (.life (.runBackground o spec))).toList.length := by
  have hcreate := nextIpHost_containerCreate o.create spec m
  unfold containerRunBackground
  cases hc : containerCreate o.create spec m with
  | mk m₁ r =>
    rw [hc] at hcreate
    cases r with
    | none =>
      have hhanded : UserOp.handedOut m (.life (.runBackground o spec)) = none := by
        simp [UserOp.handedOut, UserOp.startCall, hc]
      simpa [hhanded] using hcreate
    | some id =>
      have hhanded : UserOp.handedOut m (.life (.runBackground o spec)) =
          (startCallOf o.poll o.start id true true
            (recordLogPath o.saveLogPath id m₁)).bind StartCall.handedOut := by
        simp [UserOp.handedOut, UserOp.startCall, hc]
      have hlog := (nextIpHost_recordLogPath o.saveLogPath id m₁).trans hcreate
      have hstart := nextIpHost_startById o.poll o.start id true true
        (m := recordLogPath o.saveLogPath id m₁) (hlog ▸ hlow)
      rw [hlog, ← hhanded] at hstart
      simp only
      split
      · exact hstart
      · exact hstart

/-- The counter moves by the address handed out. -/
theorem nextIpHost_userStep {m m' : Manager} {op : UserOp} (hwf : Wf m)
    (hlow : 2 ≤ m.world.nextIpHost) (hs : userStep op m = some m') :
    m'.world.nextIpHost = m.world.nextIpHost + (op.handedOut m).toList.length := by
  -- without a start no operation touches the counter
  have hquiet : op.startCall m = none →
      m'.world.nextIpHost = m.world.nextIpHost + (op.handedOut m).toList.length := by
    intro hnone
    have hkeep := (counter_ruled m.world.nextIpHost).userStep hwf
      (fun call hcall => by rw [hnone] at hcall; cases hcall) hs rfl
    rw [hkeep, UserOp.handedOut, hnone]
    simp
  cases op with
  | prune poll save => exact hquiet rfl
  | life a =>
    cases a with
    | start poll o id =>
      cases hs
      exact nextIpHost_startById poll o id true true hlow
    | run o spec =>
      cases hs
      exact nextIpHost_containerRun hlow o spec
    | runBackground o spec =>
      cases hs
      exact nextIpHost_containerRunBackground hlow o spec
    | create o spec => exact hquiet rfl
    | stop poll o id timeoutS => exact hquiet rfl
    | pause poll kill save id => exact hquiet rfl
    | unpause poll kill save id => exact hquiet rfl
    | delete poll save id => exact hquiet rfl
    | poll o => exact hquiet rfl

/-- A start keeps every address behind the counter. -/
theorem Ahead.start {call : StartCall} : call.Keeps Ahead := by
  intro pre post h
  have hlease := startContainer_leases call h.low
  cases hhanded : call.handedOut with
  | none =>
    rw [hhanded] at hlease
    refine h.record ⟨hlease.address.imp_right fun h => ?_, by simpa using hlease.counter⟩
    rcases h with hnil | hnew
    · exact hnil
    · cases hnew
  | some ip =>
    obtain ⟨-, -, rfl⟩ := StartCall.handedOut_eq_some.mp hhanded
    rw [hhanded] at hlease
    have hnext : (startContainer call.o call.schedule call.capture call.record
        call.world).2.1.nextIpHost = call.world.nextIpHost + 1 := by
      simpa using hlease.counter
    have hold : ∀ {c' : Container}, c'.ipAddress = call.record.ipAddress ∨ c'.ipAddress = [] →
        Ahead (startContainer call.o call.schedule call.capture call.record call.world).2.1
          (pre ++ c' :: post) := by
      intro c' haddress
      -- the address was handed out and then not used
      have hkept : Ahead call.world (pre ++ c' :: post) := h.record ⟨haddress, rfl⟩
      exact hkept.sublist (by omega) (List.Sublist.refl _)
    rcases hlease.address with heq | hnil | hnew
    · exact hold (.inl heq)
    · exact hold (.inr hnil)
    · exact h.lease (Option.some.inj hnew).symm hnext

end ContainerSim.Runtime
