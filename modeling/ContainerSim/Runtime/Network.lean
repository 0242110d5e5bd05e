import ContainerSim.Runtime.Appends
import ContainerSim.Runtime.Restart
import ContainerSim.Runtime.Rule

/-!
# Network resources

A veth pair is made in the middle of a start, port rules after it; both are
taken back by `cleanup_container_network`. What is installed is read off the
trace and compared, resource by resource, with what the live records describe:
it is never more (`Networked`).

Three things break this. A start that fails after its veth was made leaves the
fields on a record that is not live. A start of a PAUSED container forgets what
the container had. A reload marks a dead RUNNING container STOPPED without
taking anything back.
-/

namespace ContainerSim.Runtime

open Lib Sched

/-! ## What is installed -/

inductive Resource where
  | veth (host : Bytes)
  | rule (pm : PortMapping) (ip : Bytes)
  deriving DecidableEq

def account (l : List Resource) : Effect → List Resource
  | .setupVeth host => .veth host :: l
  | .teardownVeth host => l.erase (.veth host)
  | .addPortForward pm ip => .rule pm ip :: l
  | .delPortForward pm ip => l.erase (.rule pm ip)
  | _ => l

/-- What is installed after a trace. -/
def installed (trace : List Effect) : List Resource := trace.foldl account []

/-- What is installed now, given what was when the process began. -/
def stock (before : List Resource) (w : World) : List Resource := w.trace.foldl account before

@[simp] theorem stock_emit (before : List Resource) (w : World) (e : Effect) :
    stock before (w.emit e) = account (stock before w) e := by
  simp [stock, World.emit]

theorem installed_append (t t' : List Effect) :
    installed (t ++ t') = t'.foldl account (installed t) :=
  List.foldl_append

theorem stock_congr {before : List Resource} {w w' : World} (h : w'.trace = w.trace) :
    stock before w' = stock before w := by
  rw [stock, stock, h]

/-! ## What a record describes -/

/-- The resources its fields name. -/
def Container.names (c : Container) : List Resource :=
  (if c.ipAddress ≠ [] then c.portMaps.map fun pm => .rule pm c.ipAddress else []) ++
    (if c.vethHost ≠ [] then [.veth c.vethHost] else [])

/-- The resources it stands for: none when it is not live. -/
def Container.holds (c : Container) : List Resource := if Live c then c.names else []

theorem names_nil {c : Container} (hip : c.ipAddress = []) (hveth : c.vethHost = []) :
    c.names = [] := by
  simp [Container.names, hip, hveth]

theorem holds_live {c : Container} (h : Live c) : c.holds = c.names := if_pos h

theorem holds_idle {c : Container} (h : ¬ Live c) : c.holds = [] := if_neg h

/-- A record that is not live names nothing, and an address comes with a veth. -/
structure Wired (c : Container) : Prop where
  idle : ¬ Live c → c.ipAddress = [] ∧ c.vethHost = []
  both : c.ipAddress ≠ [] → c.vethHost ≠ []

variable {before : List Resource}

/-! ## The network commands -/

theorem count_delPortForwards (ip : Bytes) (pms : List PortMapping) (w : World) (r : Resource) :
    (stock before (delPortForwards ip pms w)).count r =
      (stock before w).count r - (pms.map fun pm => Resource.rule pm ip).count r := by
  unfold delPortForwards
  induction pms generalizing w with
  | nil => rfl
  | cons pm pms ih =>
    rw [List.foldl_cons, ih, stock_emit, account, List.count_erase, List.map_cons,
      List.count_cons]
    omega

/-- Cleaning up takes back what the record names and clears the fields. -/
theorem cleanup_network (before : List Resource) {c : Container}
    (hboth : c.ipAddress ≠ [] → c.vethHost ≠ []) (w : World) :
    (cleanupContainerNetwork c w).1.ipAddress = [] ∧
    (cleanupContainerNetwork c w).1.vethHost = [] ∧
    ∀ r, (stock before (cleanupContainerNetwork c w).2).count r =
      (stock before w).count r - c.names.count r := by
  have hrules : ∀ r, (stock before
      (if c.ipAddress ≠ [] then delPortForwards c.ipAddress c.portMaps w else w)).count r =
      (stock before w).count r -
        (if c.ipAddress ≠ [] then c.portMaps.map fun pm => Resource.rule pm c.ipAddress
          else []).count r := by
    intro r
    by_cases hip : c.ipAddress ≠ []
    · rw [if_pos hip, if_pos hip]
      exact count_delPortForwards _ _ w r
    · rw [if_neg hip, if_neg hip]
      rfl
  unfold cleanupContainerNetwork
  simp only
  by_cases hveth : c.vethHost ≠ []
  · rw [if_pos hveth]
    refine ⟨rfl, rfl, fun r => ?_⟩
    rw [stock_emit, account, List.count_erase, hrules, Container.names, List.count_append,
      if_pos hveth, List.count_singleton]
    omega
  · rw [if_neg hveth]
    have hip : c.ipAddress = [] := by
      by_contra hip
      exact hveth (hboth hip)
    refine ⟨hip, not_not.mp hveth, fun r => ?_⟩
    rw [hrules, Container.names, List.count_append, if_neg hveth]
    rfl

theorem count_addPortForwards (ok : Nat → Bool) (ip : Bytes) (i : Nat) (pms : List PortMapping)
    (w : World) (r : Resource) :
    (stock before (addPortForwards ok ip i pms w).1).count r ≤
      (stock before w).count r + (pms.map fun pm => Resource.rule pm ip).count r := by
  induction pms generalizing i w with
  | nil => exact Nat.le_refl _
  | cons pm pms ih =>
    rw [addPortForwards]
    split
    · have hrest := ih (i + 1) (w.emit (.addPortForward pm ip))
      rw [stock_emit, account, List.count_cons] at hrest
      rw [List.map_cons, List.count_cons]
      omega
    · exact Nat.le_add_right _ _

/-! ## One record -/

/-- Whatever the other records describe, with this record it is still no less
than what is installed. -/
structure Balanced (before : List Resource) (c : Container) (w : World) (c' : Container)
    (w' : World) : Prop where
  wired : Wired c'
  count : ∀ r k, (stock before w).count r ≤ k + c.holds.count r →
    (stock before w').count r ≤ k + c'.holds.count r

theorem Balanced.trans {c c' c'' : Container} {w w' w'' : World} (h : Balanced before c w c' w')
    (h' : Balanced before c' w' c'' w'') : Balanced before c w c'' w'' :=
  ⟨h'.wired, fun r k hle => h'.count r k (h.count r k hle)⟩

/-- Nothing installed or taken back, and the record describes the same. -/
theorem Balanced.keep {c c' : Container} {w w' : World} (h : Wired c)
    (hip : c'.ipAddress = c.ipAddress) (hveth : c'.vethHost = c.vethHost)
    (hports : c'.portMaps = c.portMaps) (hlive : Live c' ↔ Live c)
    (hstock : stock before w' = stock before w) : Balanced before c w c' w' := by
  refine ⟨⟨?_, ?_⟩, fun r k hle => ?_⟩
  · rw [hip, hveth, hlive]
    exact h.idle
  · rw [hip, hveth]
    exact h.both
  · have hnames : c'.names = c.names := by rw [Container.names, hip, hveth, hports]; rfl
    have hholds : c'.holds = c.holds := by
      simp only [Container.holds, hlive, hnames]
    rw [hstock, hholds]
    exact hle

/-- A live record is cleaned up. -/
theorem Balanced.cleaned (c₁ : Container) (w₁ : World) {c c' : Container} {w w' : World}
    (h : Wired c) (hlive : Live c) (hip : c₁.ipAddress = c.ipAddress) (hveth : c₁.vethHost = c.vethHost)
    (hports : c₁.portMaps = c.portMaps) (hstock : stock before w₁ = stock before w)
    (hip' : c'.ipAddress = (cleanupContainerNetwork c₁ w₁).1.ipAddress)
    (hveth' : c'.vethHost = (cleanupContainerNetwork c₁ w₁).1.vethHost)
    (hstock' : stock before w' = stock before (cleanupContainerNetwork c₁ w₁).2) :
    Balanced before c w c' w' := by
  have hboth : c₁.ipAddress ≠ [] → c₁.vethHost ≠ [] := by
    rw [hip, hveth]
    exact h.both
  obtain ⟨hnoIp, hnoVeth, hcount⟩ := cleanup_network before hboth w₁
  refine ⟨⟨fun _ => ⟨hip'.trans hnoIp, hveth'.trans hnoVeth⟩, fun hne => ?_⟩, fun r k hle => ?_⟩
  · exact absurd (hip'.trans hnoIp) hne
  · have hnames : c₁.names = c.names := by rw [Container.names, hip, hveth, hports]; rfl
    rw [hstock', hcount, hstock, hnames]
    rw [holds_live hlive] at hle
    omega

theorem syncContainerState_balanced (o : SyncOutcome) {c : Container} (w : World) (h : Wired c) :
    Balanced before c w (syncContainerState o c w).1 (syncContainerState o c w).2.1 := by
  have hrefl : Balanced before c w c w := .keep h rfl rfl rfl Iff.rfl rfl
  unfold syncContainerState
  split
  · exact hrefl
  rename_i hlive
  -- only a live record is polled
  have hl : Live c := by
    by_contra hl
    exact hlive (.inl (not_or.mp hl))
  split
  · exact hrefl
  cases o.wait with
  | reaped status =>
    -- the container has ended: its network goes with it
    refine Balanced.cleaned
      { c with stoppedAt := o.now, exitCode := status.code, state := .stopped, pid := -1 }
      ((w.emit (.reaped c.pid)).schedRemove c.pid) h hl rfl rfl rfl ?_ rfl rfl ?_
    · rw [stock_congr (trace_schedRemove _ _), stock_emit]
      rfl
    · rw [stock_emit]
      rfl
  | echild =>
    simp only
    split
    · exact hrefl
    · refine Balanced.cleaned { c with state := .stopped, pid := -1 }
        (w.emit (.foundDead c.pid)) h hl rfl rfl rfl ?_ rfl rfl ?_
      · rw [stock_emit]
        rfl
      · rw [stock_emit]
        rfl
  | nothing => exact hrefl
  | eintr => exact hrefl
  | error => exact hrefl

theorem pollRecord_balanced (o : SyncOutcome) {c : Container} (w : World) (h : Wired c) :
    Balanced before c w (pollRecord o c w).1 (pollRecord o c w).2.1 := by
  unfold pollRecord
  split
  · have hcount : Balanced before c w { c with oomKillCount := o.oom }
        (w.emit (.event .oomKill c.id [] o.rssMb)) :=
      .keep h rfl rfl rfl Iff.rfl (by rw [stock_emit]; rfl)
    exact hcount.trans (syncContainerState_balanced o _ hcount.wired)
  · exact syncContainerState_balanced o w h

theorem stock_ending {pid : Int} {w w' : World} (h : Appends (Effect.OfEnding pid) w w') :
    stock before w' = stock before w := by
  apply h.foldl_eq
  intro l e he
  cases e with
  | setupVeth host => cases he
  | teardownVeth host => cases he
  | addPortForward pm ip => cases he
  | delPortForward pm ip => cases he
  | _ => rfl

theorem stopContainerProcess_balanced (o : StopOutcome) (timeoutS : Int) {c : Container}
    (w : World) (h : Wired c) :
    Balanced before c w (stopContainerProcess o timeoutS c w).1
      (stopContainerProcess o timeoutS c w).2.1 := by
  unfold stopContainerProcess
  split
  · exact .keep h rfl rfl rfl Iff.rfl rfl
  rename_i hlive
  have hl : Live c := by
    by_contra hl
    exact hlive (.inl (not_or.mp hl))
  simp only
  have hcont : stock before (if c.state = .paused ∧ o.cont = true then
      w.emit (.signal c.pid .cont) else w) = stock before w := by
    split
    · exact stock_emit _ _ _
    · rfl
  generalize (if c.state = .paused ∧ o.cont = true then w.emit (.signal c.pid .cont) else w) = w₁
    at hcont ⊢
  have hsignals : stock before (stopSignals o timeoutS c.pid w₁).1 = stock before w :=
    (stock_ending (stopSignals_appends o timeoutS c.pid w₁)).trans hcont
  generalize stopSignals o timeoutS c.pid w₁ = r at hsignals ⊢
  split
  · exact .keep h rfl rfl rfl Iff.rfl hsignals
  · refine Balanced.cleaned c (r.1.schedRemove c.pid) h hl rfl rfl rfl ?_ rfl rfl ?_
    · rw [stock_congr (trace_schedRemove _ _)]
      exact hsignals
    · rw [stock_emit, stock_emit]
      rfl

theorem waitForContainerProcess_balanced (o : WaitOutcome) {c : Container} (w : World)
    (h : Wired c) :
    Balanced before c w (waitForContainerProcess o c w).1 (waitForContainerProcess o c w).2.1 := by
  have hrefl : Balanced before c w c w := .keep h rfl rfl rfl Iff.rfl rfl
  unfold waitForContainerProcess
  split
  · exact hrefl
  rename_i hrun
  have hl : Live c := by
    by_contra hl
    exact hrun (.inl (not_or.mp hl).1)
  -- a container that has ended gives back what its record names
  have hfinish : ∀ (status : WaitStatus) (e : Effect), (∀ l, account l e = l) →
      Balanced before c w
        (cleanupContainerNetwork
          { c with stoppedAt := o.now, exitCode := status.code, pid := -1, state := .stopped }
          ((w.emit e).emit (.event .stopped c.id (formatWaitStatus status) status.code))).1
        ((cleanupContainerNetwork
          { c with stoppedAt := o.now, exitCode := status.code, pid := -1, state := .stopped }
          ((w.emit e).emit (.event .stopped c.id (formatWaitStatus status) status.code))).2.emit
            (.save o.save)) := by
    intro status e he
    refine Balanced.cleaned
      { c with stoppedAt := o.now, exitCode := status.code, pid := -1, state := .stopped }
      ((w.emit e).emit (.event .stopped c.id (formatWaitStatus status) status.code)) h hl rfl
      rfl rfl ?_ rfl rfl ?_
    · rw [stock_emit, stock_emit, he]
      rfl
    · rw [stock_emit]
      rfl
  cases o.wait with
  | reaped status => exact hfinish status (.reaped c.pid) fun _ => rfl
  | echild =>
    simp only
    split
    · exact hrefl
    · exact hfinish (.exited 0) (.foundDead c.pid) fun _ => rfl
  | nothing => exact hrefl
  | eintr => exact hrefl
  | error => exact hrefl

theorem pauseContainer_balanced (kill save : Bool) {c : Container} (w : World) (h : Wired c) :
    Balanced before c w (pauseContainer kill save c w).1 (pauseContainer kill save c w).2.1 := by
  unfold pauseContainer
  split
  · exact .keep h rfl rfl rfl Iff.rfl rfl
  rename_i hrun
  split
  · exact .keep h rfl rfl rfl Iff.rfl rfl
  · refine .keep h rfl rfl rfl (iff_of_true (.inr rfl) ?_) ?_
    · by_contra hl
      exact hrun (.inl (not_or.mp hl).1)
    · rw [stock_emit, stock_emit, stock_emit]
      rfl

theorem unpauseContainer_balanced (kill save : Bool) {c : Container} (w : World) (h : Wired c) :
    Balanced before c w (unpauseContainer kill save c w).1 (unpauseContainer kill save c w).2.1 := by
  unfold unpauseContainer
  split
  · exact .keep h rfl rfl rfl Iff.rfl rfl
  rename_i hpaused
  split
  · exact .keep h rfl rfl rfl Iff.rfl rfl
  · refine .keep h rfl rfl rfl (iff_of_true (.inl rfl) ?_) ?_
    · by_contra hl
      exact hpaused (.inl (not_or.mp hl).2)
    · rw [stock_emit, stock_emit, stock_emit]
      rfl

theorem ensureContainerLogPath_balanced {c : Container} (w : World) (h : Wired c) :
    Balanced before c w (ensureContainerLogPath c) w := by
  unfold ensureContainerLogPath
  split
  · exact .keep h rfl rfl rfl Iff.rfl rfl
  · exact .keep h rfl rfl rfl Iff.rfl rfl

/-! ## A start -/

theorem hostVeth_ne_nil (id : Bytes) : hostVeth id ≠ [] := by
  intro hnil
  have hlen := congrArg List.length hnil
  rw [hostVeth, snprintfStr, List.length_take, List.length_append] at hlen
  simp [bytes] at hlen

/-- The start keeps to what its record has: it does not find a PAUSED container
with a veth, and it does not fail after it has made a veth. -/
def StartCall.Tidy (call : StartCall) : Prop :=
  call.record.state ≠ .running → call.o.malloc = true →
    (call.record.state = .paused → call.record.vethHost = []) ∧
    (call.record.commandLine ≠ [] → call.o.ns.failsAfter = true →
      call.o.net.attaches call.world = false)

instance (call : StartCall) : Decidable call.Tidy := by unfold StartCall.Tidy; infer_instance

/-- The veth of a record, without its rules. -/
def Container.link (c : Container) : List Resource :=
  if c.vethHost ≠ [] then [.veth c.vethHost] else []

/-- Publishing the ports of a live record whose veth is in place. -/
theorem finishStart_balanced (o : StartOutcome) (schedule : Bool) {c₀ c : Container}
    {w₀ w : World} (hl : Live c) (hboth : c.ipAddress ≠ [] → c.vethHost ≠ [])
    (hlink : ∀ r k, (stock before w₀).count r ≤ k + c₀.holds.count r →
      (stock before w).count r ≤ k + c.link.count r) :
    Balanced before c₀ w₀ (finishStart o schedule c w).1 (finishStart o schedule c w).2.1 := by
  have hwired : Wired c := ⟨fun hidle => absurd hl hidle, hboth⟩
  -- with the rules that have been added
  have hpublished : ∀ w₁ : World, (∀ r, (stock before w₁).count r ≤ (stock before w).count r +
      (if c.ipAddress ≠ [] then c.portMaps.map fun pm => Resource.rule pm c.ipAddress
        else []).count r) → Balanced before c₀ w₀ c w₁ := by
    intro w₁ hle
    refine ⟨hwired, fun r k hk => ?_⟩
    have hw := hlink r k hk
    have hw₁ := hle r
    rw [holds_live hl, Container.names, List.count_append]
    rw [Container.link] at hw
    omega
  have hrules : ∀ r, (stock before (publish o c w).1).count r ≤
      (stock before w).count r + (if c.ipAddress ≠ [] then
        c.portMaps.map fun pm => Resource.rule pm c.ipAddress else []).count r := by
    intro r
    unfold publish
    by_cases hip : c.ipAddress ≠ []
    · rw [if_pos hip, if_pos hip]
      exact count_addPortForwards _ _ _ _ w r
    · rw [if_neg hip, if_neg hip]
      exact Nat.le_refl _
  have hb := hpublished (publish o c w).1 hrules
  have hsaved : Balanced before c₀ w₀ c ((publish o c w).1.emit (.save o.save)) :=
    hb.trans (.keep hwired rfl rfl rfl Iff.rfl (stock_emit _ _ _))
  have hmove := finishStart_move o schedule c w
  generalize finishStart o schedule c w = r at hmove ⊢
  cases hmove with
  | unpublished => exact hb.trans (stopContainerProcess_balanced o.stop 0 _ hwired)
  | undone => exact hsaved.trans (stopContainerProcess_balanced o.stop 0 _ hwired)
  | done =>
    refine hsaved.trans (.keep hwired rfl rfl rfl Iff.rfl ?_)
    rw [stock_congr (announced_trace _ _ _ _), stock_emit, stock_emit]
    rfl

/-- What the namespace start of a record without network leaves: a link for the
veth it has made, and nothing new when there is no process. -/
theorem namespaceStartContainer_stock (before : List Resource) (ns : NsOutcome) (net : NetOutcome)
    {c : Container} (w : World) (hip : c.ipAddress = []) (hveth : c.vethHost = [])
    (hfail : c.commandLine ≠ [] → ns.failsAfter = true → net.attaches w = false) :
    ((namespaceStartContainer ns net c w).1.ipAddress ≠ [] →
      (namespaceStartContainer ns net c w).1.vethHost ≠ []) ∧
    (∀ x, (stock before (namespaceStartContainer ns net c w).2.1).count x =
      (stock before w).count x + (namespaceStartContainer ns net c w).1.link.count x) ∧
    ((namespaceStartContainer ns net c w).2.2 = none →
      (namespaceStartContainer ns net c w).1 = c) := by
  have hlink : c.link = [] := by rw [Container.link, if_neg (not_not.mpr hveth)]
  have hnone : ∀ w' : World, w'.trace = w.trace →
      (c.ipAddress ≠ [] → c.vethHost ≠ []) ∧
      ∀ x, (stock before w').count x = (stock before w).count x + c.link.count x := by
    intro w' htrace
    refine ⟨fun hne => absurd hip hne, fun x => ?_⟩
    rw [stock_congr htrace, hlink]
    rfl
  unfold namespaceStartContainer
  by_cases hnocmd : c.commandLine = []
  · rw [if_pos hnocmd]
    exact ⟨(hnone w rfl).1, (hnone w rfl).2, fun _ => rfl⟩
  rw [if_neg hnocmd]
  have hnet := containerNetSetup_cases net c w
  cases ns with
  | failBefore => exact ⟨(hnone w rfl).1, (hnone w rfl).2, fun _ => rfl⟩
  | failAfter =>
    -- the child is gone, and by assumption before the veth was made
    have hno := hfail hnocmd rfl
    rcases hnet with ⟨hyes, -⟩ | ⟨-, hrec, htrace, -⟩
    · rw [hno] at hyes
      cases hyes
    · simp only [hrec]
      exact ⟨(hnone _ htrace).1, (hnone _ htrace).2, fun _ => trivial⟩
  | ok pid =>
    simp only
    rcases hnet with ⟨-, ip, -, hrec, htrace, hrc⟩ | ⟨-, hrec, htrace, -⟩
    · -- the veth is in place
      rw [if_neg (not_not.mpr hrc)]
      have hhost := hostVeth_ne_nil c.id
      refine ⟨fun _ => by rw [hrec]; exact hhost, fun x => ?_, nofun⟩
      have hstock : stock before (containerNetSetup net c w).2.1 =
          .veth (hostVeth c.id) :: stock before w := by
        rw [stock, htrace, List.foldl_append]
        rfl
      simp only [stock_emit, account]
      rw [hstock, hrec, Container.link, if_pos hhost, List.count_cons, List.count_singleton]
    · -- loopback only
      simp only [hrec]
      split
      · exact ⟨(hnone _ htrace).1, (hnone _ htrace).2, fun _ => rfl⟩
      · refine ⟨(hnone _ htrace).1, fun x => ?_, nofun⟩
        simp only [stock_emit, account]
        exact (hnone _ htrace).2 x

/-- Clearing the fields of a record that names nothing clears nothing. -/
theorem cleared_balanced {c : Container} (w : World) (h : Wired c) (hip : c.ipAddress = [])
    (hveth : c.vethHost = []) (capture : Bool) : Balanced before c w (c.cleared capture) w := by
  obtain ⟨hsame, -, hstate⟩ := c.cleared_spec capture
  refine .keep h hip.symm hveth.symm hsame.portMaps ?_ rfl
  rw [Live, Live, hstate]

theorem startContainer_balanced (o : StartOutcome) (schedule capture : Bool) {c : Container}
    {w : World} (h : Wired c) (htidy : (StartCall.mk o schedule capture c w).Tidy) :
    Balanced before c w (startContainer o schedule capture c w).1
      (startContainer o schedule capture c w).2.1 := by
  -- a tidy start finds a record without network
  have hempty : c.state ≠ .running → o.malloc = true → c.ipAddress = [] ∧ c.vethHost = [] := by
    intro hrun hmalloc
    by_cases hl : Live c
    · have hveth := (htidy hrun hmalloc).1 (hl.resolve_left hrun)
      refine ⟨?_, hveth⟩
      by_contra hip
      exact h.both hip hveth
    · exact h.idle hl
  have hcmd : (c.cleared capture).commandLine = c.commandLine :=
    (c.cleared_spec capture).1.commandLine
  have hmove := startContainer_move o schedule capture c w
  generalize startContainer o schedule capture c w = res at hmove ⊢
  cases hmove with
  | refused => exact .keep h rfl rfl rfl Iff.rfl rfl
  | noProcess hrun hmalloc hns hnone =>
    obtain ⟨hip, hveth⟩ := hempty hrun hmalloc
    have hclear : Balanced before c w (c.cleared capture) w := cleared_balanced w h hip hveth capture
    obtain ⟨-, hcount, hsame⟩ := namespaceStartContainer_stock before o.ns o.net
      (c := c.cleared capture) w rfl rfl (by rw [hcmd]; exact (htidy hrun hmalloc).2)
    rw [hns] at hcount hsame
    have hrec := hsame hnone
    refine hclear.trans ⟨hrec ▸ hclear.wired, fun x k hk => ?_⟩
    rw [hcount, hrec]
    exact hk
  | @finish r pid hrun hmalloc hns hpid =>
    obtain ⟨hip, hveth⟩ := hempty hrun hmalloc
    have hclear : Balanced before c w (c.cleared capture) w := cleared_balanced w h hip hveth capture
    obtain ⟨hboth, hcount, -⟩ := namespaceStartContainer_stock before o.ns o.net
      (c := c.cleared capture) w rfl rfl (by rw [hcmd]; exact (htidy hrun hmalloc).2)
    rw [hns] at hboth hcount
    refine hclear.trans (finishStart_balanced o schedule (.inl rfl) hboth fun x k hk => ?_)
    have hholds : (c.cleared capture).holds = [] := by
      unfold Container.holds
      rw [names_nil rfl rfl, ite_self]
    rw [hholds] at hk
    show (stock before r.2.1).count x ≤ k + r.1.link.count x
    rw [hcount]
    exact Nat.add_le_add_right hk _

/-! ## The list -/

structure Networked (before : List Resource) (w : World) (l : List Container) : Prop where
  wired : ∀ c ∈ l, Wired c
  count : ∀ r, (stock before w).count r ≤ (l.flatMap Container.holds).count r

/-- One record changes as `Balanced` says. -/
theorem Networked.record {c c' : Container} {w w' : World} {pre post : List Container}
    (h : Networked before w (pre ++ c :: post)) (hb : Wired c → Balanced before c w c' w') :
    Networked before w' (pre ++ c' :: post) := by
  have hbal := hb (h.wired c (by simp))
  refine ⟨fun d hd => ?_, fun r => ?_⟩
  · rcases List.mem_append.mp hd with hd | hd
    · exact h.wired d (List.mem_append_left _ hd)
    · rcases List.mem_cons.mp hd with rfl | hd
      · exact hbal.wired
      · exact h.wired d (by simp [hd])
  · have hle := h.count r
    have hnext := hbal.count r
      ((pre.flatMap Container.holds).count r + (post.flatMap Container.holds).count r)
    simp only [List.flatMap_append, List.flatMap_cons, List.count_append] at hle ⊢
    have hstep := hnext (by omega)
    omega

theorem networked_ruled (before : List Resource) : Ruled (Networked before) where
  sync := fun o c w _ _ h => h.record (pollRecord_balanced o w)
  stop := fun o timeoutS c w _ _ h => h.record (stopContainerProcess_balanced o timeoutS w)
  wait := fun o c w _ _ h => h.record (waitForContainerProcess_balanced o w)
  pause := fun kill save c w _ _ h => h.record (pauseContainer_balanced kill save w)
  unpause := fun kill save c w _ _ h => h.record (unpauseContainer_balanced kill save w)
  logPath := fun c w _ _ h => h.record (ensureContainerLogPath_balanced w)
  save := by
    intro ok w l h
    refine ⟨h.wired, fun r => ?_⟩
    rw [stock_emit]
    exact h.count r
  create := by
    intro c w l hnew _ h
    have hidle : ¬ Live c := by
      rw [Live, hnew.state]
      simp
    refine ⟨fun d hd => ?_, fun r => ?_⟩
    · rcases List.mem_append.mp hd with hd | hd
      · exact h.wired d hd
      · rw [List.mem_singleton.mp hd]
        exact ⟨fun _ => ⟨hnew.ipAddress, hnew.vethHost⟩, fun hip => absurd hnew.ipAddress hip⟩
    · rw [stock_emit, List.flatMap_append, List.flatMap_singleton, holds_idle hidle,
        List.append_nil]
      exact h.count r
  putBack := by
    intro c w pre post hidle h
    -- the record gives back what its fields name before it goes to the end
    have hw := h.wired c (by simp)
    obtain ⟨hip, hveth, hcount⟩ := cleanup_network before hw.both w
    have hstate : ¬ Live (cleanupContainerNetwork c w).1 := by
      rw [Live, (cleanupContainerNetwork_spec c w).2.2.1]
      exact hidle
    refine ⟨fun d hd => ?_, fun r => ?_⟩
    · rcases List.mem_append.mp hd with hd | hd
      · refine h.wired d ?_
        rcases List.mem_append.mp hd with hd | hd
        · exact List.mem_append_left _ hd
        · exact List.mem_append_right _ (List.mem_cons_of_mem _ hd)
      · rw [List.mem_singleton.mp hd]
        exact ⟨fun _ => ⟨hip, hveth⟩, fun hne => absurd hip hne⟩
    · have hle := h.count r
      rw [hcount]
      simp only [List.flatMap_append, List.flatMap_cons, List.count_append, holds_idle hidle,
        holds_idle hstate, List.count_nil] at hle ⊢
      omega
  remove := by
    intro c w pre post hidle h
    refine ⟨fun d hd => h.wired d ?_, fun r => ?_⟩
    · rcases List.mem_append.mp hd with hd | hd
      · exact List.mem_append_left _ hd
      · exact List.mem_append_right _ (List.mem_cons_of_mem _ hd)
    · have hle := h.count r
      rw [stock_emit]
      change (stock before w).count r ≤ _
      simp only [List.flatMap_append, List.flatMap_cons, List.count_append, holds_idle hidle,
        List.count_nil] at hle ⊢
      omega

theorem Networked.op {m m' : Manager} {op : UserOp} (h : Networked before m.world m.list)
    (hwf : Wf m) (htidy : ∀ call, op.startCall m = some call → call.Tidy)
    (hs : userStep op m = some m') : Networked before m'.world m'.list := by
  refine (networked_ruled before).userStep hwf (fun call hcall => ?_) hs h
  intro pre post hq
  exact hq.record fun hw => startContainer_balanced call.o call.schedule call.capture hw
    (htidy call hcall)

/-! ## Reloads -/

/-- The manager and what earlier processes of it did to the system. -/
structure Host where
  past : List Effect
  mgr : Manager

def Host.init : Host := { past := [], mgr := .init }

def Host.trace (h : Host) : List Effect := h.past ++ h.mgr.world.trace

/-- An operation, or a crash and a new process that reads the metadata file. -/
inductive HostOp where
  | op (op : UserOp)
  | reload (o : InitOutcome) (file : Option Bytes)

def hostStep (h : Host) : HostOp → Option Host
  | .op op => (userStep op h.mgr).map fun m => { h with mgr := m }
  | .reload o file => some { past := h.trace, mgr := (containerManagerInit o file).1 }

/-- Every start is tidy. A reload reads the list as it was, from lines that fit,
and finds every RUNNING container that has a veth alive. -/
def HostOk (h : Host) : HostOp → Prop
  | .op op =>
    (∀ spec, op.creates = some spec →
      ∀ pm ∈ spec.portMaps, ∃ str maxMaps, pm ∈ bridgeParsePortMaps str maxMaps) ∧
    ∀ call, op.startCall h.mgr = some call → call.Tidy
  | .reload o file =>
    file = some (saveMetadata h.mgr.list) ∧ CounterOk h.mgr ∧ (∀ c ∈ h.mgr.list, Fits c) ∧
    (∀ k, o.calloc k = true) ∧
    ∀ c ∈ h.mgr.list, c.state = .running → c.vethHost ≠ [] → o.alive c.pid = true

/-- A record comes back describing the same, when it is alive or has no veth. -/
theorem revive_holds {alive : Int → Bool} (ptr : Nat) {c : Container} (h : Wired c)
    (hpid : PidOk c) (halive : c.state = .running → c.vethHost ≠ [] → alive c.pid = true) :
    Wired (revive alive ptr c) ∧ (revive alive ptr c).holds = c.holds := by
  unfold revive
  by_cases hdead : c.state = .running ∧ (!(decide (0 < c.pid) && alive c.pid)) = true
  · rw [if_pos hdead]
    have hveth : c.vethHost = [] := by
      by_contra hveth
      have hup := halive hdead.1 hveth
      have hpos := hpid.1 (.inl hdead.1)
      simp [hup, hpos] at hdead
    have hip : c.ipAddress = [] := by
      by_contra hip
      exact h.both hip hveth
    have hnil : ∀ d : Container, d.ipAddress = [] → d.vethHost = [] → d.holds = [] := by
      intro d hdip hdveth
      unfold Container.holds
      rw [names_nil hdip hdveth, ite_self]
    refine ⟨⟨fun _ => ⟨hip, hveth⟩, fun hne => absurd hip hne⟩, ?_⟩
    rw [hnil c hip hveth]
    exact hnil _ hip hveth
  · rw [if_neg hdead]
    exact ⟨⟨h.idle, h.both⟩, rfl⟩

structure HostInv (h : Host) : Prop where
  session : Session h.mgr
  network : Networked (installed h.past) h.mgr.world h.mgr.list

theorem hostInv_init : HostInv Host.init :=
  ⟨session_init, List.forall_mem_nil _, fun _ => Nat.le_refl _⟩

theorem Networked.reload {past : List Effect} {m : Manager} {o : InitOutcome}
    (h : Networked (installed past) m.world m.list) (hsession : Session m) (hint : CounterOk m)
    (hfits : ∀ c ∈ m.list, Fits c) (hcalloc : ∀ k, o.calloc k = true)
    (halive : ∀ c ∈ m.list, c.state = .running → c.vethHost ≠ [] → o.alive c.pid = true) :
    Networked (installed (past ++ m.world.trace))
      (containerManagerInit o (some (saveMetadata m.list))).1.world
      (containerManagerInit o (some (saveMetadata m.list))).1.list := by
  obtain ⟨m₁, hinit, hlist, -, -, htrace⟩ := restore_saveMetadata (o := o) (hsession.sized hint)
    (fun c hc => (hsession.formed c hc).writable (hfits c hc)) hcalloc
  -- each record comes back with what it held
  have hrevive : ∀ p ∈ m.list.zipIdx, Wired (revive o.alive p.2 p.1) ∧
      (revive o.alive p.2 p.1).holds = p.1.holds := by
    intro p hp
    have hc : p.1 ∈ m.list := List.mem_of_getElem? (List.mem_zipIdx_iff_getElem?.mp hp)
    exact revive_holds p.2 (h.wired _ hc) (hsession.formed _ hc).pidOk (halive _ hc)
  rw [hinit]
  refine (networked_ruled _).pollStates o.poll ⟨fun d hd => ?_, fun r => ?_⟩
  · rw [hlist] at hd
    obtain ⟨p, hp, rfl⟩ := List.mem_map.mp hd
    exact (hrevive p hp).1
  · have hholds : m₁.list.flatMap Container.holds = m.list.flatMap Container.holds := by
      calc m₁.list.flatMap Container.holds
          = m.list.zipIdx.flatMap fun p => (revive o.alive p.2 p.1).holds := by
            rw [hlist, List.flatMap_map]
        _ = m.list.zipIdx.flatMap fun p => p.1.holds :=
            List.flatMap_congr fun p hp => (hrevive p hp).2
        _ = m.list.flatMap Container.holds := by
            rw [← List.flatMap_map Prod.fst Container.holds, List.zipIdx_map_fst]
    -- loading installs and removes nothing
    have hstock : stock (installed (past ++ m.world.trace)) m₁.world =
        stock (installed past) m.world := by
      rw [stock, htrace, stock, installed_append]
      rfl
    rw [hstock, hholds]
    exact h.count r

theorem HostInv.step {h h' : Host} {a : HostOp} (hinv : HostInv h) (hok : HostOk h a)
    (hs : hostStep h a = some h') : HostInv h' := by
  cases a with
  | op op =>
    obtain ⟨m, hm, rfl⟩ := Option.map_eq_some_iff.mp hs
    exact ⟨hinv.session.step (a := .op op) hok.1 hm, hinv.network.op hinv.session.toWf hok.2 hm⟩
  | reload o file =>
    obtain ⟨rfl, hint, hfits, hcalloc, halive⟩ := hok
    cases hs
    exact ⟨hinv.session.restart hint hfits hcalloc,
      hinv.network.reload hinv.session hint hfits hcalloc halive⟩

/-- **Network resources follow the container** along a run in which every start
is tidy and every reload finds the list as it was, with nothing dead that has
a veth. -/
theorem network_follows_container {as : List HostOp} {h : Host}
    (hrun : RunOk hostStep HostOk .init as h) :
    (∀ c ∈ h.mgr.list, c.state = .created ∨ c.state = .stopped →
      c.ipAddress = [] ∧ c.vethHost = []) ∧
    (∀ host, Resource.veth host ∈ installed h.trace →
      ∃ c ∈ h.mgr.list, (c.state = .running ∨ c.state = .paused) ∧ c.vethHost = host) ∧
    (∀ pm ip, Resource.rule pm ip ∈ installed h.trace →
      ∃ c ∈ h.mgr.list, (c.state = .running ∨ c.state = .paused) ∧ c.ipAddress = ip ∧
        pm ∈ c.portMaps) := by
  have hinv : HostInv h := hrun.invariant (fun _ _ _ hi hok hs => hi.step hok hs) hostInv_init
  -- what is installed is described by a record, and by a live one
  have hheld : ∀ r ∈ installed h.trace, ∃ c ∈ h.mgr.list, Live c ∧ r ∈ c.names := by
    intro r hr
    have hcount := hinv.network.count r
    have hpos : 0 < (installed h.trace).count r := List.count_pos_iff.mpr hr
    rw [Host.trace, installed_append] at hpos
    have hmem := List.count_pos_iff.mp (Nat.lt_of_lt_of_le hpos hcount)
    obtain ⟨c, hc, hrc⟩ := List.mem_flatMap.mp hmem
    by_cases hl : Live c
    · exact ⟨c, hc, hl, holds_live hl ▸ hrc⟩
    · rw [holds_idle hl] at hrc
      cases hrc
  refine ⟨fun c hc hidle => (hinv.network.wired c hc).idle ?_, fun host hr => ?_,
    fun pm ip hr => ?_⟩
  · rintro (hrun | hpaused)
    · rw [hrun] at hidle
      simp at hidle
    · rw [hpaused] at hidle
      simp at hidle
  · obtain ⟨c, hc, hl, hmem⟩ := hheld _ hr
    refine ⟨c, hc, hl, ?_⟩
    simp only [Container.names, List.mem_append] at hmem
    rcases hmem with hmem | hmem
    · split at hmem
      · simp at hmem
      · cases hmem
    · split at hmem
      · exact (Resource.veth.inj (List.mem_singleton.mp hmem)).symm
      · cases hmem
  · obtain ⟨c, hc, hl, hmem⟩ := hheld _ hr
    refine ⟨c, hc, hl, ?_⟩
    simp only [Container.names, List.mem_append] at hmem
    rcases hmem with hmem | hmem
    · split at hmem
      · obtain ⟨pm', hpm, heq⟩ := List.mem_map.mp hmem
        cases heq
        exact ⟨rfl, hpm⟩
      · cases hmem
    · split at hmem
      · simp at hmem
      · cases hmem

/-! ## A published port, and a start that fails -/

/-- A container with a published port, paused, and one that has come and gone. -/
def webOps : List UserOp :=
  [.life (.runBackground (.clean (.ofNat 100))
      { ContainerSpec.zero with portMaps := bridgeParsePortMaps (bytes "8080:80") maxPortMaps }),
    .life (.pause .quiet true true (containerId 1)),
    .life (.runBackground (.clean (.ofNat 101)) .zero),
    .life (.stop .quiet .clean (containerId 2) 0), .prune .quiet true]

/-- What the file holds then. -/
def webFile : Option Bytes :=
  (exec (fun m op => userStep op m) (fun _ _ => True) .init webOps).map fun m =>
    saveMetadata m.list

def webCrash : List HostOp := webOps.map .op ++ [.reload .quiet webFile]

/-- The part of `HostOk` that depends on the state, as a test. -/
def hostCheck (h : Host) : HostOp → Prop
  | .op op => (op.startCall h.mgr).all (fun call => call.Tidy) = true
  | .reload o file =>
    file = some (saveMetadata h.mgr.list) ∧ CounterOk h.mgr ∧ (∀ c ∈ h.mgr.list, Fits c) ∧
    ∀ c ∈ h.mgr.list, c.state = .running → c.vethHost ≠ [] → o.alive c.pid = true

instance (h : Host) (a : HostOp) : Decidable (hostCheck h a) := by
  cases a with
  | op op => unfold hostCheck; infer_instance
  | reload o file => unfold hostCheck; infer_instance

/-- The part that does not: where the port maps come from, and the memory. -/
def hostGiven : HostOp → Prop
  | .op op => ∀ spec, op.creates = some spec →
    ∀ pm ∈ spec.portMaps, ∃ str maxMaps, pm ∈ bridgeParsePortMaps str maxMaps
  | .reload o _ => ∀ k, o.calloc k = true

theorem hostOk_of_check {h : Host} {a : HostOp} (hc : hostCheck h a) (hg : hostGiven a) :
    HostOk h a := by
  cases a with
  | op op =>
    refine ⟨hg, fun call hcall => ?_⟩
    have hall : (op.startCall h.mgr).all (fun call => call.Tidy) = true := hc
    rw [hcall] at hall
    exact of_decide_eq_true hall
  | reload o file =>
    obtain ⟨hfile, hint, hfits, halive⟩ := hc
    exact ⟨hfile, hint, hfits, hg, halive⟩

theorem webCrash_given : ∀ a ∈ webCrash, hostGiven a := by
  intro a ha
  simp only [webCrash, webOps, List.map_cons, List.map_nil, List.cons_append, List.nil_append,
    List.mem_cons, List.not_mem_nil, or_false] at ha
  rcases ha with rfl | rfl | rfl | rfl | rfl | rfl
  · rintro spec h pm hpm
    cases h
    exact ⟨_, _, hpm⟩
  · rintro spec h
    cases h
  · rintro spec h pm hpm
    cases h
    cases hpm
  · rintro spec h
    cases h
  · rintro spec h
    cases h
  · exact fun _ => rfl

def Resource.isRule : Resource → Bool
  | .rule .. => true
  | .veth _ => false

theorem network_follows_webCrash :
    ∃ h, RunOk hostStep HostOk .init webCrash h ∧
      ∃ pm ip, Resource.rule pm ip ∈ installed h.trace ∧
        ∃ c ∈ h.mgr.list, (c.state = .running ∨ c.state = .paused) ∧ c.ipAddress = ip ∧
          pm ∈ c.portMaps := by
  obtain ⟨h, hrun, hrule⟩ := exists_runOk_of_exec hostStep hostCheck .init webCrash
    (fun h => ∃ r ∈ installed h.trace, r.isRule = true) (by decide +kernel)
  have hok := (hrun.and_forall webCrash_given).mono fun _ _ h => hostOk_of_check h.1 h.2
  obtain ⟨r, hr, hrule⟩ := hrule
  cases r with
  | veth host => cases hrule
  | rule pm ip => exact ⟨h, hok, pm, ip, hr, (network_follows_container hok).2.2 pm ip hr⟩

/-- The child of a first start is lost after its veth was made: the record is
still CREATED and names the veth, which no live record does. -/
theorem failed_start_keeps_veth :
    ∃ h, Runs hostStep .init
        [.op (.life (.create .clean .zero)),
          .op (.life (.start .quiet
            { StartOutcome.clean (.ofNat 100) with ns := .failAfter } (containerId 1)))] h ∧
      (∃ c ∈ h.mgr.list, c.state = .created ∧ c.vethHost ≠ []) ∧
      (∃ r ∈ installed h.trace, ∀ c ∈ h.mgr.list, ¬ Live c) :=
  exists_runOk_of_exec hostStep (fun _ _ => True) .init _
    (fun h => (∃ c ∈ h.mgr.list, c.state = .created ∧ c.vethHost ≠ []) ∧
      ∃ r ∈ installed h.trace, ∀ c ∈ h.mgr.list, ¬ Live c) (by decide +kernel)

end ContainerSim.Runtime
