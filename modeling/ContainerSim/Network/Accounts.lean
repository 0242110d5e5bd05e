import ContainerSim.Network.Bridge
import ContainerSim.Runtime.Network

/-!
# Commands and accounts

The manager's books (`installed`) record a veth when `bridge_setup_veth` returned
0 and strike it off when `bridge_teardown_veth` was called; rules likewise. With
tools that do their work or fail by themselves, the host follows the books
(`host_follows_books`): no veth is on the host that is not on the books, and the
forwarding rules are exactly those on the books. A veth can vanish by itself,
when the namespace that holds its peer dies.
-/

namespace ContainerSim.Network

open Lib ContainerSim.Runtime

variable {η : Type}

/-! ## The system -/

/-- The host and what the manager has recorded. -/
structure NetBooks (η : Type) where
  net : NetState η
  trace : List Effect

/-- An operation of the program, or the end of namespaces that hold the peers of
veths. -/
inductive BookOp (η : Type) where
  | op (op : NetOp)
  | vanish (host : η)

/-- What the manager notes of an operation. -/
def NetOp.effects (T : NetTools η) (s : NetState η) : NetOp → List Effect
  | .init _ | .teardown _ => []
  | .setupVeth o n pid =>
    if (bridgeSetupVeth T o (containerId n) pid s).2 = 0 then
      [.setupVeth (hostVeth (containerId n))]
    else []
  | .teardownVeth _ n => [.teardownVeth (hostVeth (containerId n))]
  | .addPortForward o pm ip =>
    if (bridgeAddPortForward T o pm ip s).2 = 0 then [.addPortForward pm ip] else []
  | .delPortForward _ pm ip => [.delPortForward pm ip]

def bookStep (T : NetTools η) (b : NetBooks η) : BookOp η → Option (NetBooks η)
  | .op op =>
    (netStep T b.net op).map fun net => { net, trace := b.trace ++ op.effects T b.net }
  | .vanish host => some { b with net := { b.net with host } }

/-- The tool does what it can, or fails without doing anything. -/
def CommandOutcome.Honest (o : CommandOutcome) : Prop := o.done = o.ok

/-- Some of the veths are gone, and nothing else has changed. -/
structure Vanished (T : NetTools η) (h h' : η) : Prop where
  sound : T.sound h'
  link : ∀ n, T.link h' (hostVeth (containerId n)) ≠ none →
    T.link h (hostVeth (containerId n)) ≠ none
  rules : ∀ pm ip, T.rules h' pm ip = T.rules h pm ip

/-- What makes a resource is honest, what takes one back is not hindered, and the
ports are published as the manager does it. -/
def BookOk (T : NetTools η) (b : NetBooks η) : BookOp η → Prop
  | .op (.setupVeth o _ _) => o.linkAdd.Honest ∧ o.cleanup.ok = true
  | .op (.teardownVeth o _) => o.ok = true
  | .op (.addPortForward o pm ip) => o.Honest ∧ Published pm ip
  | .op (.delPortForward o pm ip) => o.ok = true ∧ Published pm ip
  | .op (.init _) | .op (.teardown _) => True
  | .vanish host => Vanished T b.net.host host

/-! ## Commands -/

variable {T : NetTools η}

/-- An honest command has been done exactly when it reports success. -/
theorem CommandOutcome.Honest.run {o : CommandOutcome} (h : o.Honest) (cmd : NetCommand)
    (step : Bytes) (s : NetState η) :
    (∃ host, T.apply cmd s.host = some host ∧ (runSilent T o cmd step s).1.host = host ∧
        (runSilent T o cmd step s).2 = 0) ∨
      ((runSilent T o cmd step s).1.host = s.host ∧ (runSilent T o cmd step s).2 = -1) := by
  cases happly : T.apply cmd s.host with
  | none => exact .inr (runSilent_refused _ _ happly)
  | some host =>
    obtain ⟨hhost, hrc⟩ := runSilent_applied o step happly
    rw [h] at hhost
    cases hok : o.ok with
    | true =>
      rw [hok] at hhost hrc
      exact .inl ⟨host, rfl, hhost, hrc⟩
    | false =>
      rw [hok] at hhost hrc
      exact .inr ⟨hhost, hrc⟩

/-- A device that is deleted without hindrance is gone. -/
theorem linkDelete_gone (D : T.Documented) {o : CommandOutcome} (h : o.ok = true) {dev : Bytes}
    (hnamed : Named dev) (step : Bytes) {s : NetState η} (hsound : T.sound s.host) :
    T.link (runSilent T o (.linkDelete dev) step s).1.host dev = none := by
  by_cases hthere : T.link s.host dev = none
  · rw [(runSilent_refused _ _ (D.delete_missing hnamed hthere)).1]
    exact hthere
  · obtain ⟨host, happly, hnone⟩ := D.delete hnamed hsound hthere
    rw [(runSilent_applied _ _ happly).1, if_pos (CommandOutcome.done_of_ok h)]
    exact hnone

/-- A rule that is removed without hindrance is there once less. -/
theorem dnatDelete_rules (D : T.Documented) {o : CommandOutcome} (h : o.ok = true)
    {pm : PortMapping} {ip : Bytes} (hpub : Published pm ip) (step : Bytes) (s : NetState η)
    {pm' : PortMapping} {ip' : Bytes} (hpub' : Published pm' ip') :
    T.rules (runSilent T o (.dnat .delete pm ip) step s).1.host pm' ip' =
      T.rules s.host pm' ip' - if pm' = pm ∧ ip' = ip then 1 else 0 := by
  by_cases hrule : T.rules s.host pm ip = 0
  · rw [(runSilent_refused _ _ (D.remove_missing hpub hrule)).1]
    split
    · rename_i heq
      rw [heq.1, heq.2, hrule]
    · rfl
  · obtain ⟨host, happly, hrules⟩ := D.remove hpub hrule
    rw [(runSilent_applied _ _ happly).1, if_pos (CommandOutcome.done_of_ok h)]
    exact hrules _ _ hpub'

/-! ## Operations -/

/-- It changes the port rules. -/
def NetOp.IsForward : NetOp → Prop
  | .addPortForward _ _ _ | .delPortForward _ _ _ => True
  | _ => False

theorem NetOp.not_isDnat {op : NetOp} (hop : ¬ op.IsForward) {cmd : NetCommand}
    (h : cmd ∈ op.commands) : ¬ cmd.IsDnat := by
  cases op with
  | init o =>
    simp only [NetOp.commands, List.mem_cons, List.not_mem_nil, or_false] at h
    rcases h with rfl | rfl | rfl | rfl | rfl | rfl <;> exact not_false
  | teardown o =>
    simp only [NetOp.commands, List.mem_cons, List.not_mem_nil, or_false] at h
    rcases h with rfl | rfl <;> exact not_false
  | setupVeth o n pid =>
    simp only [NetOp.commands, List.mem_cons, List.not_mem_nil, or_false] at h
    rcases h with rfl | rfl | rfl | rfl | rfl <;> exact not_false
  | teardownVeth o n =>
    obtain rfl := List.mem_singleton.mp h
    exact not_false
  | addPortForward o pm ip => exact absurd trivial hop
  | delPortForward o pm ip => exact absurd trivial hop

/-- The other operations leave them. -/
theorem rules_step (D : T.Documented) {s s' : NetState η} {op : NetOp} (hop : ¬ op.IsForward)
    (hs : netStep T s op = some s') (pm : PortMapping) (ip : Bytes) :
    T.rules s'.host pm ip = T.rules s.host pm ip :=
  netStep_keeps (P := fun h => T.rules h pm ip = T.rules s.host pm ip)
    (fun h hh => (D.rules_forward h pm ip).trans hh)
    (fun _ hcmd _ _ hh happly =>
      (D.rules_apply (NetOp.not_isDnat hop hcmd) happly pm ip).trans hh) rfl hs

/-- `bridge_setup_veth` makes a veth, or fails and leaves nothing. -/
theorem bridgeSetupVeth_cases (D : T.Documented) {o : SetupVethOutcome} (hadd : o.linkAdd.Honest)
    (hcleanup : o.cleanup.ok = true) (n : Nat) (pid : Int) {s : NetState η}
    (hsound : T.sound s.host) :
    (bridgeSetupVeth T o (containerId n) pid s).2 = 0 ∨
      T.link (bridgeSetupVeth T o (containerId n) pid s).1.host (hostVeth (containerId n)) = none ∨
      (bridgeSetupVeth T o (containerId n) pid s).1.host = s.host := by
  have hnamed : Named (hostVeth (containerId n)) := .inr ⟨n, rfl⟩
  have hmaster := D.keeps_sound
    (show (NetCommand.linkSetMaster (hostVeth (containerId n))).Made from ⟨n, rfl⟩)
  have hup := D.keeps_sound
    (show (NetCommand.linkSetUp (hostVeth (containerId n))).Made from hnamed)
  have hnetns := D.keeps_sound
    (show (NetCommand.linkSetNetns (peerVeth (containerId n)) pid).Made from ⟨n, rfl⟩)
  -- with the pair made, a later failure takes it back
  have hfail : ∀ t : NetState η, T.sound t.host →
      T.link (runSilent T o.cleanup (.linkDelete (hostVeth (containerId n)))
        (bytes "veth cleanup") t).1.host (hostVeth (containerId n)) = none :=
    fun t ht => linkDelete_gone D hcleanup hnamed _ ht
  unfold bridgeSetupVeth
  simp only
  rcases hadd.run (.linkAddVeth (hostVeth (containerId n)) (peerVeth (containerId n)))
    (bytes "veth pair creation") s.clearLastError with ⟨host, happly, hhost, hrc⟩ | ⟨hhost, hrc⟩
  · have hmade : (NetCommand.linkAddVeth (hostVeth (containerId n))
        (peerVeth (containerId n))).Made := ⟨n, rfl, rfl⟩
    have h₀ := D.sound_apply hmade (show T.sound s.clearLastError.host from hsound) happly
    rw [← hhost] at h₀
    rw [if_neg (not_not.mpr hrc)]
    have h₁ := hmaster.run o.master (bytes "bridge attach") h₀
    split
    · exact .inr (.inl (hfail _ h₁))
    have h₂ := hup.run o.linkUp (bytes "host veth bring-up") h₁
    split
    · exact .inr (.inl (hfail _ h₂))
    have h₃ := hnetns.run o.netns (bytes "move veth peer into container netns") h₂
    split
    · exact .inr (.inl (hfail _ h₃))
    · exact .inl rfl
  · rw [if_pos (by rw [hrc]; decide)]
    exact .inr (.inr hhost)

/-! ## The host follows the books -/

/-- What the books say about veths and rules. -/
structure Follows (T : NetTools η) (b : NetBooks η) : Prop where
  sound : T.sound b.net.host
  veths : ∀ n, T.link b.net.host (hostVeth (containerId n)) ≠ none →
    .veth (hostVeth (containerId n)) ∈ installed b.trace
  rules : ∀ pm ip, Published pm ip →
    T.rules b.net.host pm ip = (installed b.trace).count (.rule pm ip)

/-- The books stay, and the host has no more than before. -/
theorem Follows.quiet {b : NetBooks η} (h : Follows T b) {net : NetState η}
    (hsame : Vanished T b.net.host net.host) : Follows T { b with net } where
  sound := hsame.sound
  veths n hn := h.veths n (hsame.link n hn)
  rules pm ip hpub := (hsame.rules pm ip).trans (h.rules pm ip hpub)

theorem installed_snoc (trace : List Effect) (e : Effect) :
    installed (trace ++ [e]) = account (installed trace) e := by
  rw [installed_append]
  rfl

theorem rule_inj {pm pm' : PortMapping} {ip ip' : Bytes} :
    Resource.rule pm ip = .rule pm' ip' ↔ pm' = pm ∧ ip' = ip := by
  rw [Resource.rule.injEq, eq_comm, @eq_comm _ ip]

/-! One lemma for each entry of the books: `net` is what the operation has made of
the host. -/

theorem Follows.setupVeth {b : NetBooks η} (h : Follows T b) {net : NetState η}
    (hsound : T.sound net.host) (n : Nat)
    (hother : ∀ k, hostVeth (containerId k) ≠ hostVeth (containerId n) →
      T.link net.host (hostVeth (containerId k)) = T.link b.net.host (hostVeth (containerId k)))
    (hrules : ∀ pm ip, T.rules net.host pm ip = T.rules b.net.host pm ip) :
    Follows T { net, trace := b.trace ++ [.setupVeth (hostVeth (containerId n))] } := by
  refine ⟨hsound, fun k hk => ?_, fun pm ip hpub => ?_⟩
  · rw [installed_snoc]
    by_cases hname : hostVeth (containerId k) = hostVeth (containerId n)
    · rw [hname]
      exact .head _
    · exact .tail _ (h.veths k (hother k hname ▸ hk))
  · rw [installed_snoc]
    show _ = (Resource.veth (hostVeth (containerId n)) :: installed b.trace).count (.rule pm ip)
    rw [List.count_cons_of_ne (by simp)]
    exact (hrules pm ip).trans (h.rules pm ip hpub)

theorem Follows.teardownVeth {b : NetBooks η} (h : Follows T b) {net : NetState η}
    (hsound : T.sound net.host) {n : Nat}
    (hgone : T.link net.host (hostVeth (containerId n)) = none)
    (hother : ∀ k, hostVeth (containerId k) ≠ hostVeth (containerId n) →
      T.link net.host (hostVeth (containerId k)) = T.link b.net.host (hostVeth (containerId k)))
    (hrules : ∀ pm ip, T.rules net.host pm ip = T.rules b.net.host pm ip) :
    Follows T { net, trace := b.trace ++ [.teardownVeth (hostVeth (containerId n))] } := by
  refine ⟨hsound, fun k hk => ?_, fun pm ip hpub => ?_⟩
  · have hname : hostVeth (containerId k) ≠ hostVeth (containerId n) :=
      fun hname => hk (hname ▸ hgone)
    rw [installed_snoc]
    show _ ∈ (installed b.trace).erase (.veth (hostVeth (containerId n)))
    rw [List.mem_erase_of_ne (by simp [hname])]
    exact h.veths k (hother k hname ▸ hk)
  · rw [installed_snoc]
    show _ = ((installed b.trace).erase (.veth (hostVeth (containerId n)))).count (.rule pm ip)
    rw [List.count_erase_of_ne (by simp)]
    exact (hrules pm ip).trans (h.rules pm ip hpub)

theorem Follows.addPortForward {b : NetBooks η} (h : Follows T b) {net : NetState η}
    (hsound : T.sound net.host) {pm : PortMapping} {ip : Bytes}
    (hlink : ∀ n, T.link net.host (hostVeth (containerId n)) =
      T.link b.net.host (hostVeth (containerId n)))
    (hrules : ∀ pm' ip', Published pm' ip' →
      T.rules net.host pm' ip' = T.rules b.net.host pm' ip' + if pm' = pm ∧ ip' = ip then 1 else 0) :
    Follows T { net, trace := b.trace ++ [.addPortForward pm ip] } := by
  refine ⟨hsound, fun n hn => ?_, fun pm' ip' hpub' => ?_⟩
  · rw [installed_snoc]
    exact .tail _ (h.veths n (hlink n ▸ hn))
  · rw [installed_snoc]
    show _ = (Resource.rule pm ip :: installed b.trace).count (.rule pm' ip')
    rw [List.count_cons, ← h.rules pm' ip' hpub', beq_eq_decide]
    simp only [decide_eq_true_eq, rule_inj]
    exact hrules pm' ip' hpub'

theorem Follows.delPortForward {b : NetBooks η} (h : Follows T b) {net : NetState η}
    (hsound : T.sound net.host) {pm : PortMapping} {ip : Bytes}
    (hlink : ∀ n, T.link net.host (hostVeth (containerId n)) =
      T.link b.net.host (hostVeth (containerId n)))
    (hrules : ∀ pm' ip', Published pm' ip' →
      T.rules net.host pm' ip' = T.rules b.net.host pm' ip' - if pm' = pm ∧ ip' = ip then 1 else 0) :
    Follows T { net, trace := b.trace ++ [.delPortForward pm ip] } := by
  refine ⟨hsound, fun n hn => ?_, fun pm' ip' hpub' => ?_⟩
  · rw [installed_snoc]
    show _ ∈ (installed b.trace).erase (.rule pm ip)
    rw [List.mem_erase_of_ne (by simp)]
    exact h.veths n (hlink n ▸ hn)
  · rw [installed_snoc]
    show _ = ((installed b.trace).erase (.rule pm ip)).count (.rule pm' ip')
    rw [List.count_erase, ← h.rules pm' ip' hpub', beq_eq_decide]
    simp only [decide_eq_true_eq, rule_inj]
    exact hrules pm' ip' hpub'

theorem Follows.op (D : T.Documented) {b : NetBooks η} (h : Follows T b) {op : NetOp}
    (hok : BookOk T b (.op op)) {net : NetState η} (hs : netStep T b.net op = some net) :
    Follows T { net, trace := b.trace ++ op.effects T b.net } := by
  have hsound := sound_step D h.sound hs
  have hquiet : op.effects T b.net = [] → Vanished T b.net.host net.host →
      Follows T { net, trace := b.trace ++ op.effects T b.net } := by
    intro hnil hsame
    rw [hnil, List.append_nil]
    exact h.quiet hsame
  have hnamed : ∀ n, Named (hostVeth (containerId n)) := fun n => .inr ⟨n, rfl⟩
  have hbridge : ∀ n, hostVeth (containerId n) ≠ bridgeName := fun n => hostVeth_ne_bridgeName _
  -- the veths of the other containers stay as they are
  have hother : ∀ n, ¬ op.Touches (hostVeth (containerId n)) →
      T.link net.host (hostVeth (containerId n)) = T.link b.net.host (hostVeth (containerId n)) :=
    fun n hop => link_step D h.sound (hnamed n) hop hs
  cases op with
  | init o =>
    have hrules := rules_step D (show ¬ (NetOp.init o).IsForward from not_false) hs
    exact hquiet rfl ⟨hsound, fun n hn => hother n (hbridge n) ▸ hn, hrules⟩
  | teardown o =>
    have hrules := rules_step D (show ¬ (NetOp.teardown o).IsForward from not_false) hs
    exact hquiet rfl ⟨hsound, fun n hn => hother n (hbridge n) ▸ hn, hrules⟩
  | setupVeth o n pid =>
    have hrules := rules_step D (show ¬ (NetOp.setupVeth o n pid).IsForward from not_false) hs
    obtain ⟨hadd, hcleanup⟩ := hok
    have hcases := bridgeSetupVeth_cases D hadd hcleanup n pid h.sound
    obtain rfl : (bridgeSetupVeth T o (containerId n) pid b.net).1 = net := Option.some.inj hs
    by_cases hrc : (bridgeSetupVeth T o (containerId n) pid b.net).2 = 0
    · have heffects : NetOp.effects T b.net (.setupVeth o n pid) =
          [.setupVeth (hostVeth (containerId n))] := if_pos hrc
      rw [heffects]
      exact h.setupVeth hsound n hother hrules
    · refine hquiet (if_neg hrc) ⟨hsound, fun k hk => ?_, hrules⟩
      by_cases hname : hostVeth (containerId k) = hostVeth (containerId n)
      · rw [hname] at hk ⊢
        rcases hcases with hrc' | hnone | hkeep
        · exact absurd hrc' hrc
        · exact absurd hnone hk
        · rwa [hkeep] at hk
      · exact hother k hname ▸ hk
  | teardownVeth o n =>
    have hrules := rules_step D (show ¬ (NetOp.teardownVeth o n).IsForward from not_false) hs
    -- the veth is gone, whether it was there or not
    have hgone : T.link net.host (hostVeth (containerId n)) = none := by
      obtain rfl : (bridgeTeardownVeth T o (hostVeth (containerId n)) b.net).1 = net :=
        Option.some.inj hs
      exact linkDelete_gone D hok (hnamed n) _ (show T.sound b.net.clearLastError.host from h.sound)
    exact h.teardownVeth hsound hgone hother hrules
  | addPortForward o pm ip =>
    obtain ⟨hhonest, hpub⟩ := hok
    have hlink := fun n => hother n not_false
    obtain rfl : (bridgeAddPortForward T o pm ip b.net).1 = net := Option.some.inj hs
    rcases hhonest.run (.dnat .append pm ip) (bytes "port forward install") b.net.clearLastError
      with ⟨host, happly, hhost, hrc⟩ | ⟨hhost, hrc⟩
    · have heffects : NetOp.effects T b.net (.addPortForward o pm ip) = [.addPortForward pm ip] :=
        if_pos hrc
      rw [heffects]
      refine h.addPortForward hsound hlink fun pm' ip' hpub' => ?_
      have hrules := D.append hpub happly pm' ip' hpub'
      rw [← hhost] at hrules
      exact hrules
    · -- not done, so not on the books either
      have hfailed : (bridgeAddPortForward T o pm ip b.net).2 ≠ 0 := by
        rw [show (bridgeAddPortForward T o pm ip b.net).2 = -1 from hrc]
        decide
      have hkeep : (bridgeAddPortForward T o pm ip b.net).1.host = b.net.host := hhost
      exact hquiet (if_neg hfailed)
        ⟨hsound, fun n hn => hlink n ▸ hn, fun pm' ip' => by rw [hkeep]⟩
  | delPortForward o pm ip =>
    obtain ⟨hworks, hpub⟩ := hok
    have hlink := fun n => hother n not_false
    obtain rfl : (bridgeDelPortForward T o pm ip b.net).1 = net := Option.some.inj hs
    exact h.delPortForward hsound hlink fun pm' ip' hpub' =>
      dnatDelete_rules D hworks hpub (bytes "port forward removal") b.net.clearLastError hpub'

theorem Follows.step (D : T.Documented) {b b' : NetBooks η} {a : BookOp η} (h : Follows T b)
    (hok : BookOk T b a) (hs : bookStep T b a = some b') : Follows T b' := by
  cases a with
  | op op =>
    obtain ⟨net, hnet, rfl⟩ := Option.map_eq_some_iff.mp hs
    exact h.op D hok hnet
  | vanish host =>
    cases hs
    exact Follows.quiet h (show Vanished T b.net.host host from hok)

/-- **The host follows the books.** The host has no veth of the program's names
and no rule of a published port at first. With any tools that do as documented,
after any run of the network operations in which the tools are honest and nothing
hinders a removal, every veth on the host is one that the manager has on its
books, and the forwarding rules of the host are the ones on the books, each as
often. -/
theorem host_follows_books (D : T.Documented) {net : NetState η} (hsound : T.sound net.host)
    (hveths : ∀ n, T.link net.host (hostVeth (containerId n)) = none)
    (hrules : ∀ pm ip, Published pm ip → T.rules net.host pm ip = 0) {as : List (BookOp η)}
    {b : NetBooks η} (hrun : RunOk (bookStep T) (BookOk T) ⟨net, []⟩ as b) :
    (∀ n, T.link b.net.host (hostVeth (containerId n)) ≠ none →
        .veth (hostVeth (containerId n)) ∈ installed b.trace) ∧
      ∀ pm ip, Published pm ip →
        T.rules b.net.host pm ip = (installed b.trace).count (.rule pm ip) := by
  have hinit : Follows T ⟨net, []⟩ := ⟨hsound, fun n hn => absurd (hveths n) hn, hrules⟩
  have h : Follows T b := hrun.invariant (fun _ _ _ hi hok hs => hi.step D hok hs) hinit
  exact ⟨h.veths, h.rules⟩

/-- A port of a container. -/
def publishedPort : PortMapping := { hostPort := 8080, containerPort := 80, proto := bytes "tcp" }

/-- The plain host without the veth of that container. -/
def vanishedHost : HostNet :=
  { link := fun dev => if dev = bridgeName then some true else none
    addr := true
    rules := [dnatRule publishedPort (bridgeAddress 2),
      (NetCommand.masquerade .append).argv.drop 4]
    forward := true }

/-- A container starts on the bridge and publishes a port; its namespace dies
before the manager cleans up. -/
def publishedDay : List (BookOp HostNet) :=
  [.op (.init .clean),
    .op (.setupVeth { linkAdd := .runs 2, master := .runs 2, linkUp := .runs 2, netns := .runs 2
                      cleanup := .runs 2 } 1 100),
    .op (.addPortForward (.runs 1) publishedPort (bridgeAddress 2)), .vanish vanishedHost,
    .op (.delPortForward (.runs 1) publishedPort (bridgeAddress 2)),
    .op (.teardownVeth (.runs 1) 1)]

theorem host_follows_publishedDay :
    ∃ b, RunOk (bookStep HostNet.tools) (BookOk HostNet.tools) ⟨⟨.clean, []⟩, []⟩ publishedDay b ∧
      (∀ n, HostNet.tools.link b.net.host (hostVeth (containerId n)) ≠ none →
        .veth (hostVeth (containerId n)) ∈ installed b.trace) ∧
      ∀ pm ip, Published pm ip →
        HostNet.tools.rules b.net.host pm ip = (installed b.trace).count (.rule pm ip) := by
  have hpub : Published publishedPort (bridgeAddress 2) :=
    ⟨.inl rfl, 2, by decide, by decide, rfl⟩
  have hvanished : ∀ {h : HostNet}, h.rules = vanishedHost.rules →
      Vanished HostNet.tools h vanishedHost := by
    intro h hrules
    have hgone : ∀ n, vanishedHost.link (hostVeth (containerId n)) = none := by
      intro n
      show (if hostVeth (containerId n) = bridgeName then some true else none) = none
      rw [if_neg (hostVeth_ne_bridgeName _)]
    refine ⟨trivial, fun n hn => absurd (hgone n) hn, fun pm ip => ?_⟩
    show vanishedHost.rules.count _ = h.rules.count _
    rw [hrules]
  have hrun : RunOk (bookStep HostNet.tools) (BookOk HostNet.tools) ⟨⟨.clean, []⟩, []⟩
      publishedDay _ :=
    .cons trivial rfl (.cons ⟨rfl, rfl⟩ rfl (.cons ⟨rfl, hpub⟩ rfl
      (.cons (hvanished rfl) rfl (.cons ⟨rfl, hpub⟩ rfl (.cons rfl rfl (.nil _))))))
  exact ⟨_, hrun, host_follows_books HostNet.tools_documented trivial (fun _ => rfl)
    (fun _ _ _ => rfl) hrun⟩

end ContainerSim.Network
