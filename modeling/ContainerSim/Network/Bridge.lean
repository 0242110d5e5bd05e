import ContainerSim.Lib.Run
import ContainerSim.Network.Commands
import ContainerSim.Runtime.Ops

/-!
# The bridge

`net init` makes the bridge in three commands and rolls back with
`bridge_teardown` when one of the last two fails. But `bridge_teardown` does
nothing unless the bridge is up, which it is not yet: the device stays, `ip link
add` refuses to make it again, and no sequence of commands of the program brings
the bridge up any more (`bridge_recovers_iff`).
-/

namespace ContainerSim.Network

open Lib ContainerSim.Runtime

variable {η : Type}

/-! ## Checks -/

/-- Answers for one `bridge_collect_doctor`. -/
structure DoctorOutcome where
  root : Bool
  /-- `getenv("PATH")` -/
  path : Option Bytes
  /-- `access(.., X_OK)` -/
  access : Bytes → Bool
  socket : Bool
  /-- `/proc/sys/net/ipv4/ip_forward` can be read -/
  readForward : Bool

/-- The directories the loop of `command_in_path` gets to: the loop ends with the
text, so nothing behind a last colon counts. -/
def pathDirs (path : Bytes) : List Bytes :=
  let dirs := path.splitOn 58
  if dirs.getLast? = some [] then dirs.dropLast else dirs

/-- `command_in_path`. -/
def commandInPath (path : Option Bytes) (access : Bytes → Bool) (cmd : Bytes) : Bool :=
  if cmd = [] then false
  else if 47 ∈ cmd then access cmd
  else
    match path with
    | none => false
    | some path =>
      (pathDirs path).any fun dir =>
        access (snprintfStr 256 ((if dir = [] then bytes "." else dir) ++ bytes "/" ++ cmd))

/-- `bridge_is_up`. -/
def bridgeIsUp (T : NetTools η) (socket : Bool) (h : η) : Bool :=
  socket && T.link h bridgeName = some true

structure BridgeDoctor where
  isRoot : Bool
  ipCmd : Bool
  iptablesCmd : Bool
  bridgeUp : Bool
  /-- `none` for `-1` -/
  ipForward : Option Bool

/-- `bridge_collect_doctor`. -/
def bridgeCollectDoctor (T : NetTools η) (o : DoctorOutcome) (h : η) : BridgeDoctor :=
  { isRoot := o.root
    ipCmd := commandInPath o.path o.access (bytes "ip")
    iptablesCmd := commandInPath o.path o.access (bytes "iptables")
    bridgeUp := bridgeIsUp T o.socket h
    ipForward := if o.readForward then some (T.forward h) else none }

/-- `bridge_preflight`. -/
def bridgePreflight (T : NetTools η) (o : DoctorOutcome) (requireBridgeUp requireIptables : Bool)
    (s : NetState η) : NetState η × Int :=
  let doctor := bridgeCollectDoctor T o s.host
  let s := s.clearLastError
  if !doctor.ipCmd then
    (s.setLastError (bytes "missing 'ip' command; install iproute2/iproute"), -1)
  else if !doctor.isRoot then
    (s.setLastError (bytes "bridge networking requires root or CAP_NET_ADMIN"), -1)
  else if requireIptables && !doctor.iptablesCmd then
    (s.setLastError (bytes "missing 'iptables' command; published ports require iptables"), -1)
  else if requireBridgeUp && !doctor.bridgeUp then
    (s.setLastError
      (bytes "bridge " ++ bridgeName ++ bytes " is down; run 'net init' as root first"), -1)
  else if requireIptables && doctor.ipForward = some false then
    (s.setLastError
      (bytes "host IPv4 forwarding is disabled (/proc/sys/net/ipv4/ip_forward = 0)"), -1)
  else (s, 0)

/-! ## The bridge comes and goes -/

/-- Answers for one `bridge_teardown`. -/
structure TeardownOutcome where
  socket : Bool
  masquerade : CommandOutcome
  linkDelete : CommandOutcome

/-- `bridge_teardown`. -/
def bridgeTeardown (T : NetTools η) (o : TeardownOutcome) (s : NetState η) : NetState η × Int :=
  let s := s.clearLastError
  if !bridgeIsUp T o.socket s.host then (s, 0)
  else
    let (s, _) :=
      runSilent T o.masquerade (.masquerade .delete) (bytes "bridge masquerade cleanup") s
    runSilent T o.linkDelete (.linkDelete bridgeName) (bytes "bridge delete") s

/-- Answers for one `bridge_init`. -/
structure BridgeInitOutcome where
  socket : Bool
  doctor : DoctorOutcome
  linkAdd : CommandOutcome
  addrAdd : CommandOutcome
  linkUp : CommandOutcome
  rollback : TeardownOutcome
  writeForward : Bool
  masquerade : CommandOutcome

/-- `bridge_init`. -/
def bridgeInit (T : NetTools η) (o : BridgeInitOutcome) (s : NetState η) : NetState η × Int :=
  let s := s.clearLastError
  if bridgeIsUp T o.socket s.host then (s, 0)
  else
    let (s, rc) := bridgePreflight T o.doctor false false s
    if rc ≠ 0 then (s, -1)
    else
      let (s, rc) := runSilent T o.linkAdd .linkAddBridge (bytes "bridge create") s
      if rc ≠ 0 then (s, -1)
      else
        let (s, rc) := runSilent T o.addrAdd .addrAdd (bytes "bridge address assignment") s
        if rc ≠ 0 then ((bridgeTeardown T o.rollback s).1, -1)
        else
          let (s, rc) := runSilent T o.linkUp (.linkSetUp bridgeName) (bytes "bridge bring-up") s
          if rc ≠ 0 then ((bridgeTeardown T o.rollback s).1, -1)
          else
            let s := if o.writeForward then { s with host := T.setForward s.host } else s
            let (s, _) :=
              runSilent T o.masquerade (.masquerade .append) (bytes "bridge masquerade rule") s
            (s, 0)

/-! ## Containers on the bridge -/

/-- Answers for one `bridge_setup_veth`. -/
structure SetupVethOutcome where
  linkAdd : CommandOutcome
  master : CommandOutcome
  linkUp : CommandOutcome
  netns : CommandOutcome
  cleanup : CommandOutcome

/-- `bridge_setup_veth`. -/
def bridgeSetupVeth (T : NetTools η) (o : SetupVethOutcome) (id : Bytes) (pid : Int)
    (s : NetState η) : NetState η × Int :=
  let s := s.clearLastError
  let host := hostVeth id
  let peer := peerVeth id
  let fail (s : NetState η) : NetState η × Int :=
    ((runSilent T o.cleanup (.linkDelete host) (bytes "veth cleanup") s).1, -1)
  let (s, rc) := runSilent T o.linkAdd (.linkAddVeth host peer) (bytes "veth pair creation") s
  if rc ≠ 0 then (s, -1)
  else
    let (s, rc) := runSilent T o.master (.linkSetMaster host) (bytes "bridge attach") s
    if rc ≠ 0 then fail s
    else
      let (s, rc) := runSilent T o.linkUp (.linkSetUp host) (bytes "host veth bring-up") s
      if rc ≠ 0 then fail s
      else
        let (s, rc) := runSilent T o.netns (.linkSetNetns peer pid)
          (bytes "move veth peer into container netns") s
        if rc ≠ 0 then fail s else (s, 0)

/-- `bridge_teardown_veth`. -/
def bridgeTeardownVeth (T : NetTools η) (o : CommandOutcome) (hostVeth : Bytes) (s : NetState η) :
    NetState η × Int :=
  runSilent T o (.linkDelete hostVeth) (bytes "veth delete") s.clearLastError

/-- `iptables_dnat`. -/
def iptablesDnat (T : NetTools η) (o : CommandOutcome) (op : RuleOp) (pm : PortMapping)
    (ip : Bytes) (s : NetState η) : NetState η × Int :=
  runSilent T o (.dnat op pm ip)
    (if op = .append then bytes "port forward install" else bytes "port forward removal") s

/-- `bridge_add_port_forward` and `bridge_del_port_forward`. -/
def bridgeAddPortForward (T : NetTools η) (o : CommandOutcome) (pm : PortMapping) (ip : Bytes)
    (s : NetState η) : NetState η × Int :=
  iptablesDnat T o .append pm ip s.clearLastError

def bridgeDelPortForward (T : NetTools η) (o : CommandOutcome) (pm : PortMapping) (ip : Bytes)
    (s : NetState η) : NetState η × Int :=
  iptablesDnat T o .delete pm ip s.clearLastError

/-! ## Everything the program does to the network -/

/-- A container is given by the number of its id. -/
inductive NetOp where
  | init (o : BridgeInitOutcome)
  | teardown (o : TeardownOutcome)
  | setupVeth (o : SetupVethOutcome) (n : Nat) (pid : Int)
  | teardownVeth (o : CommandOutcome) (n : Nat)
  | addPortForward (o : CommandOutcome) (pm : PortMapping) (ip : Bytes)
  | delPortForward (o : CommandOutcome) (pm : PortMapping) (ip : Bytes)

def netStep (T : NetTools η) (s : NetState η) : NetOp → Option (NetState η)
  | .init o => some (bridgeInit T o s).1
  | .teardown o => some (bridgeTeardown T o s).1
  | .setupVeth o n pid => some (bridgeSetupVeth T o (containerId n) pid s).1
  | .teardownVeth o n => some (bridgeTeardownVeth T o (hostVeth (containerId n)) s).1
  | .addPortForward o pm ip => some (bridgeAddPortForward T o pm ip s).1
  | .delPortForward o pm ip => some (bridgeDelPortForward T o pm ip s).1

/-- The commands an operation may run. -/
def NetOp.commands : NetOp → List NetCommand
  | .init _ => [.linkAddBridge, .addrAdd, .linkSetUp bridgeName, .masquerade .append,
      .masquerade .delete, .linkDelete bridgeName]
  | .teardown _ => [.masquerade .delete, .linkDelete bridgeName]
  | .setupVeth _ n pid =>
    let host := hostVeth (containerId n)
    let peer := peerVeth (containerId n)
    [.linkAddVeth host peer, .linkSetMaster host, .linkSetUp host, .linkSetNetns peer pid,
      .linkDelete host]
  | .teardownVeth _ n => [.linkDelete (hostVeth (containerId n))]
  | .addPortForward _ pm ip => [.dnat .append pm ip]
  | .delPortForward _ pm ip => [.dnat .delete pm ip]

theorem NetOp.made {op : NetOp} {cmd : NetCommand} (h : cmd ∈ op.commands) : cmd.Made := by
  have hbridge : Named bridgeName := .inl rfl
  cases op with
  | init o =>
    simp only [NetOp.commands, List.mem_cons, List.not_mem_nil, or_false] at h
    rcases h with rfl | rfl | rfl | rfl | rfl | rfl
    · exact trivial
    · exact trivial
    · exact hbridge
    · exact trivial
    · exact trivial
    · exact hbridge
  | teardown o =>
    simp only [NetOp.commands, List.mem_cons, List.not_mem_nil, or_false] at h
    rcases h with rfl | rfl
    · exact trivial
    · exact hbridge
  | setupVeth o n pid =>
    simp only [NetOp.commands, List.mem_cons, List.not_mem_nil, or_false] at h
    rcases h with rfl | rfl | rfl | rfl | rfl
    · -- the names of a veth pair are made from the id
      exact ⟨n, rfl, rfl⟩
    · exact ⟨n, rfl⟩
    · exact .inr ⟨n, rfl⟩
    · exact ⟨n, rfl⟩
    · exact .inr ⟨n, rfl⟩
  | teardownVeth o n =>
    obtain rfl := List.mem_singleton.mp h
    exact .inr ⟨n, rfl⟩
  | addPortForward o pm ip =>
    obtain rfl := List.mem_singleton.mp h
    exact trivial
  | delPortForward o pm ip =>
    obtain rfl := List.mem_singleton.mp h
    exact trivial

/-! ## What one command can do -/

variable {T : NetTools η}

/-- A command has been done or not; it reports success only when it was done. -/
theorem runSilent_cases (o : CommandOutcome) (cmd : NetCommand) (step : Bytes) (s : NetState η) :
    ((runSilent T o cmd step s).1.host = s.host ∧ (runSilent T o cmd step s).2 = -1) ∨
      ∃ host, T.apply cmd s.host = some host ∧ (runSilent T o cmd step s).1.host = host ∧
        ((runSilent T o cmd step s).2 = 0 ∨ (runSilent T o cmd step s).2 = -1) := by
  cases o with
  | forkFails error => exact .inl ⟨rfl, rfl⟩
  | notFound => exact .inl ⟨rfl, rfl⟩
  | exits code => exact .inl ⟨rfl, rfl⟩
  | waitFails error done =>
    cases done with
    | false => exact .inl ⟨rfl, rfl⟩
    | true =>
      -- the wait has failed, so even a tool that worked counts as failed
      cases happly : T.apply cmd s.host with
      | none =>
        refine .inl ⟨?_, rfl⟩
        show (T.apply cmd s.host).getD s.host = s.host
        rw [happly]
        rfl
      | some host =>
        refine .inr ⟨host, rfl, ?_, .inr rfl⟩
        show (T.apply cmd s.host).getD s.host = host
        rw [happly]
        rfl
  | signaled sig done =>
    cases done with
    | false => exact .inl ⟨rfl, rfl⟩
    | true =>
      cases happly : T.apply cmd s.host with
      | none =>
        refine .inl ⟨?_, rfl⟩
        show (T.apply cmd s.host).getD s.host = s.host
        rw [happly]
        rfl
      | some host =>
        refine .inr ⟨host, rfl, ?_, .inr rfl⟩
        show (T.apply cmd s.host).getD s.host = host
        rw [happly]
        rfl
  | runs refused =>
    unfold runSilent
    simp only
    cases T.apply cmd s.host with
    | none => exact .inl ⟨rfl, rfl⟩
    | some host => exact .inr ⟨host, rfl, rfl, .inl rfl⟩

/-- The tool has done its work, whatever `run_silent` makes of it. -/
def CommandOutcome.done : CommandOutcome → Bool
  | .waitFails _ done | .signaled _ done => done
  | .runs _ => true
  | _ => false

/-- `run_silent` returns 0, if the tool does not refuse. -/
def CommandOutcome.ok : CommandOutcome → Bool
  | .runs _ => true
  | _ => false

theorem CommandOutcome.done_of_ok {o : CommandOutcome} (h : o.ok = true) : o.done = true := by
  cases o with
  | runs refused => rfl
  | _ => cases h

theorem runSilent_refused (o : CommandOutcome) {cmd : NetCommand} (step : Bytes) {s : NetState η}
    (h : T.apply cmd s.host = none) :
    (runSilent T o cmd step s).1.host = s.host ∧ (runSilent T o cmd step s).2 = -1 := by
  rcases runSilent_cases o cmd step s with hkeep | ⟨host, happly, -⟩
  · exact hkeep
  · rw [h] at happly
    cases happly

theorem runSilent_applied (o : CommandOutcome) {cmd : NetCommand} (step : Bytes) {s : NetState η}
    {host : η} (h : T.apply cmd s.host = some host) :
    (runSilent T o cmd step s).1.host = (if o.done then host else s.host) ∧
      (runSilent T o cmd step s).2 = if o.ok then 0 else -1 := by
  cases o with
  | forkFails error => exact ⟨rfl, rfl⟩
  | notFound => exact ⟨rfl, rfl⟩
  | exits code => exact ⟨rfl, rfl⟩
  | waitFails error done =>
    refine ⟨?_, rfl⟩
    show (if done then (T.apply cmd s.host).getD s.host else s.host) = _
    rw [h]
    rfl
  | signaled sig done =>
    refine ⟨?_, rfl⟩
    show (if done then (T.apply cmd s.host).getD s.host else s.host) = _
    rw [h]
    rfl
  | runs refused =>
    unfold runSilent
    simp only [h]
    exact ⟨rfl, rfl⟩

theorem runSilent_rc {o : CommandOutcome} {cmd : NetCommand} {step : Bytes} {s : NetState η}
    {host : η} (h : T.apply cmd s.host = some host) :
    (runSilent T o cmd step s).2 ≠ 0 ↔ o.ok = false := by
  rw [(runSilent_applied _ _ h).2]
  cases o.ok with
  | true => simp
  | false => simp

/-! ## What the commands keep, the operations keep -/

/-- Where it is done, `P` still holds. -/
def NetTools.Keeps (T : NetTools η) (P : η → Prop) (cmd : NetCommand) : Prop :=
  ∀ h h', P h → T.apply cmd h = some h' → P h'

theorem NetTools.Keeps.run {P : η → Prop} {cmd : NetCommand} (hcmd : T.Keeps P cmd)
    (o : CommandOutcome) (step : Bytes) {s : NetState η} (h : P s.host) :
    P (runSilent T o cmd step s).1.host := by
  rcases runSilent_cases o cmd step s with ⟨hkeep, -⟩ | ⟨host, happly, hhost, -⟩
  · rw [hkeep]
    exact h
  · rw [hhost]
    exact hcmd _ _ h happly

theorem bridgePreflight_host (o : DoctorOutcome) (up tables : Bool) (s : NetState η) :
    (bridgePreflight T o up tables s).1.host = s.host := by
  unfold bridgePreflight
  simp only
  split
  · rfl
  split
  · rfl
  split
  · rfl
  split
  · rfl
  split
  · rfl
  · rfl

theorem bridgeTeardown_keeps {P : η → Prop} (hrule : T.Keeps P (.masquerade .delete))
    (hlink : T.Keeps P (.linkDelete bridgeName)) (o : TeardownOutcome) {s : NetState η}
    (h : P s.host) : P (bridgeTeardown T o s).1.host := by
  unfold bridgeTeardown
  simp only
  split
  · exact h
  · refine hlink.run _ _ ?_
    exact hrule.run _ _ (show P s.clearLastError.host from h)

/-- The last two of the three commands, with the device made. -/
def finishInit (T : NetTools η) (o : BridgeInitOutcome) (s : NetState η) : NetState η × Int :=
  let (s, rc) := runSilent T o.addrAdd .addrAdd (bytes "bridge address assignment") s
  if rc ≠ 0 then ((bridgeTeardown T o.rollback s).1, -1)
  else
    let (s, rc) := runSilent T o.linkUp (.linkSetUp bridgeName) (bytes "bridge bring-up") s
    if rc ≠ 0 then ((bridgeTeardown T o.rollback s).1, -1)
    else
      let s := if o.writeForward then { s with host := T.setForward s.host } else s
      let (s, _) :=
        runSilent T o.masquerade (.masquerade .append) (bytes "bridge masquerade rule") s
      (s, 0)

theorem bridgeInit_eq (o : BridgeInitOutcome) (s : NetState η) :
    bridgeInit T o s =
      let s := s.clearLastError
      if bridgeIsUp T o.socket s.host then (s, 0)
      else
        let (s, rc) := bridgePreflight T o.doctor false false s
        if rc ≠ 0 then (s, -1)
        else
          let (s, rc) := runSilent T o.linkAdd .linkAddBridge (bytes "bridge create") s
          if rc ≠ 0 then (s, -1) else finishInit T o s := rfl

/-- An invariant of the commands an operation may run is one of the operation. -/
theorem netStep_keeps {P : η → Prop} {op : NetOp} (hforward : ∀ h, P h → P (T.setForward h))
    (hcmds : ∀ cmd ∈ op.commands, T.Keeps P cmd) {s s' : NetState η} (h : P s.host)
    (hs : netStep T s op = some s') : P s'.host := by
  cases op with
  | init o =>
    cases hs
    have hadd := hcmds .linkAddBridge (by simp [NetOp.commands])
    have haddr := hcmds .addrAdd (by simp [NetOp.commands])
    have hup := hcmds (.linkSetUp bridgeName) (by simp [NetOp.commands])
    have happend := hcmds (.masquerade .append) (by simp [NetOp.commands])
    have hrule := hcmds (.masquerade .delete) (by simp [NetOp.commands])
    have hlink := hcmds (.linkDelete bridgeName) (by simp [NetOp.commands])
    -- each command is run in the state the one before has left, or not at all
    rw [bridgeInit_eq]
    simp only
    split
    · exact h
    have hhost := bridgePreflight_host (T := T) o.doctor false false s.clearLastError
    generalize bridgePreflight T o.doctor false false s.clearLastError = r at hhost
    have hr : P r.1.host := by
      rw [hhost]
      exact h
    split
    · exact hr
    have h₁ := hadd.run o.linkAdd (bytes "bridge create") hr
    split
    · exact h₁
    have h₂ := haddr.run o.addrAdd (bytes "bridge address assignment") h₁
    unfold finishInit
    simp only
    split
    · exact bridgeTeardown_keeps hrule hlink _ h₂
    have h₃ := hup.run o.linkUp (bytes "bridge bring-up") h₂
    split
    · exact bridgeTeardown_keeps hrule hlink _ h₃
    · refine happend.run _ _ ?_
      split
      · exact hforward _ h₃
      · exact h₃
  | teardown o =>
    cases hs
    exact bridgeTeardown_keeps (hcmds _ (by simp [NetOp.commands]))
      (hcmds _ (by simp [NetOp.commands])) o h
  | setupVeth o n pid =>
    cases hs
    have hadd := hcmds (.linkAddVeth _ _) (.head _)
    have hmaster := hcmds (.linkSetMaster _) (.tail _ (.head _))
    have hup := hcmds (.linkSetUp _) (.tail _ (.tail _ (.head _)))
    have hnetns := hcmds (.linkSetNetns _ pid) (.tail _ (.tail _ (.tail _ (.head _))))
    have hdelete := hcmds (.linkDelete _) (.tail _ (.tail _ (.tail _ (.tail _ (.head _)))))
    unfold bridgeSetupVeth
    simp only
    have h₁ := hadd.run o.linkAdd (bytes "veth pair creation")
      (show P s.clearLastError.host from h)
    split
    · exact h₁
    have h₂ := hmaster.run o.master (bytes "bridge attach") h₁
    split
    · exact hdelete.run _ _ h₂
    have h₃ := hup.run o.linkUp (bytes "host veth bring-up") h₂
    split
    · exact hdelete.run _ _ h₃
    have h₄ := hnetns.run o.netns (bytes "move veth peer into container netns") h₃
    split
    · exact hdelete.run _ _ h₄
    · exact h₄
  | teardownVeth o n =>
    cases hs
    exact (hcmds _ (.head _)).run _ _ (show P s.clearLastError.host from h)
  | addPortForward o pm ip =>
    cases hs
    exact (hcmds _ (.head _)).run _ _ (show P s.clearLastError.host from h)
  | delPortForward o pm ip =>
    cases hs
    exact (hcmds _ (.head _)).run _ _ (show P s.clearLastError.host from h)

/-! ## The bridge is half made -/

/-- The device is there and down. -/
def BridgeDown (T : NetTools η) (s : NetState η) : Prop := T.link s.host bridgeName = some false

def BridgeUp (T : NetTools η) (s : NetState η) : Prop := T.link s.host bridgeName = some true

theorem NetTools.Documented.keeps_sound (D : T.Documented) {cmd : NetCommand} (hmade : cmd.Made) :
    T.Keeps T.sound cmd := fun _ _ hsound happly => D.sound_apply hmade hsound happly

theorem NetTools.Documented.keeps_link (D : T.Documented) {cmd : NetCommand} {dev : Bytes}
    (hmade : cmd.Made) (hnamed : Named dev) (htouch : ¬ cmd.Touches dev) (flags : Option Bool) :
    T.Keeps (fun h => T.sound h ∧ T.link h dev = flags) cmd :=
  fun _ _ ⟨hsound, hlink⟩ happly =>
    ⟨D.sound_apply hmade hsound happly,
      (D.link_apply hmade hsound hnamed htouch happly).trans hlink⟩

theorem sound_step (D : T.Documented) {s s' : NetState η} {op : NetOp} (h : T.sound s.host)
    (hs : netStep T s op = some s') : T.sound s'.host :=
  netStep_keeps (P := T.sound) (fun _ => D.sound_forward)
    (fun _ hcmd => D.keeps_sound (NetOp.made hcmd)) h hs

theorem not_bridgeDown_of_none {s : NetState η} (h : T.link s.host bridgeName = none) :
    ¬ BridgeDown T s := by
  intro hdown
  rw [BridgeDown, h] at hdown
  cases hdown

theorem BridgeUp.not_down {s : NetState η} (h : BridgeUp T s) : ¬ BridgeDown T s := by
  intro hdown
  rw [BridgeDown, h] at hdown
  cases hdown

/-- `bridge_teardown` removes the bridge or leaves it as it is, and does nothing
to one that is down. -/
theorem bridgeTeardown_cases (D : T.Documented) (o : TeardownOutcome) {s : NetState η}
    (hsound : T.sound s.host) :
    T.link (bridgeTeardown T o s).1.host bridgeName = T.link s.host bridgeName ∨
      (BridgeUp T s ∧ T.link (bridgeTeardown T o s).1.host bridgeName = none) := by
  have hnamed : Named bridgeName := .inl rfl
  have hrule := D.keeps_link (show (NetCommand.masquerade .delete).Made from trivial) hnamed
    not_false (T.link s.host bridgeName)
  unfold bridgeTeardown
  simp only
  split
  · exact .inl rfl
  · rename_i hup
    have hup : T.link s.host bridgeName = some true := by
      simp only [Bool.not_eq_true, Bool.not_eq_false', bridgeIsUp, NetState.clearLastError,
        Bool.and_eq_true] at hup
      exact of_decide_eq_true hup.2
    -- the rule is deleted first, which leaves the link as it is
    have ht := hrule.run o.masquerade (bytes "bridge masquerade cleanup")
      (s := s.clearLastError) ⟨hsound, rfl⟩
    generalize (runSilent T o.masquerade (.masquerade .delete) (bytes "bridge masquerade cleanup")
      s.clearLastError).1 = t at ht
    rcases runSilent_cases o.linkDelete (.linkDelete bridgeName) (bytes "bridge delete") t
      with ⟨hkeep, -⟩ | ⟨host, happly, hhost, -⟩
    · left
      rw [hkeep]
      exact ht.2
    · right
      -- the device is there, so the tool can delete it
      have hthere : T.link t.host bridgeName ≠ none := by
        rw [ht.2, hup]
        exact Option.some_ne_none _
      obtain ⟨host', happly', hnone⟩ := D.delete hnamed ht.1 hthere
      obtain rfl := Option.some.inj (happly'.symm.trans happly)
      rw [hhost]
      exact ⟨hup, hnone⟩

/-- A roll-back of a device that is down leaves it. -/
theorem BridgeDown.teardown (D : T.Documented) {s : NetState η} (h : BridgeDown T s)
    (hsound : T.sound s.host) (o : TeardownOutcome) : BridgeDown T (bridgeTeardown T o s).1 := by
  rcases bridgeTeardown_cases D o hsound with hkeep | ⟨hup, -⟩
  · exact hkeep.trans h
  · exact absurd h hup.not_down

theorem BridgeUp.teardown (D : T.Documented) {s : NetState η} (h : BridgeUp T s)
    (hsound : T.sound s.host) (o : TeardownOutcome) : ¬ BridgeDown T (bridgeTeardown T o s).1 := by
  rcases bridgeTeardown_cases D o hsound with hkeep | ⟨-, hnone⟩
  · exact BridgeUp.not_down (hkeep.trans h)
  · exact not_bridgeDown_of_none hnone

/-- The device of the host that an operation makes, changes or removes. -/
def NetOp.Touches (dev : Bytes) : NetOp → Prop
  | .init _ | .teardown _ => dev = bridgeName
  | .setupVeth _ n _ | .teardownVeth _ n => dev = hostVeth (containerId n)
  | .addPortForward _ _ _ | .delPortForward _ _ _ => False

theorem NetOp.untouched {op : NetOp} {dev : Bytes} (hop : ¬ op.Touches dev) {cmd : NetCommand}
    (h : cmd ∈ op.commands) : ¬ cmd.Touches dev := by
  cases op with
  | init o =>
    simp only [NetOp.commands, List.mem_cons, List.not_mem_nil, or_false] at h
    rcases h with rfl | rfl | rfl | rfl | rfl | rfl
    · exact hop
    · exact not_false
    · exact hop
    · exact not_false
    · exact not_false
    · exact hop
  | teardown o =>
    simp only [NetOp.commands, List.mem_cons, List.not_mem_nil, or_false] at h
    rcases h with rfl | rfl
    · exact not_false
    · exact hop
  | setupVeth o n pid =>
    simp only [NetOp.commands, List.mem_cons, List.not_mem_nil, or_false] at h
    rcases h with rfl | rfl | rfl | rfl | rfl
    · exact hop
    · exact not_false
    · exact hop
    · exact not_false
    · exact hop
  | teardownVeth o n =>
    obtain rfl := List.mem_singleton.mp h
    exact hop
  | addPortForward o pm ip =>
    obtain rfl := List.mem_singleton.mp h
    exact not_false
  | delPortForward o pm ip =>
    obtain rfl := List.mem_singleton.mp h
    exact not_false

/-- An operation leaves the other devices as they are. -/
theorem link_step (D : T.Documented) {s s' : NetState η} {op : NetOp} {dev : Bytes}
    (hsound : T.sound s.host) (hnamed : Named dev) (hop : ¬ op.Touches dev)
    (hs : netStep T s op = some s') : T.link s'.host dev = T.link s.host dev := by
  have hforward : ∀ h, T.sound h ∧ T.link h dev = T.link s.host dev →
      T.sound (T.setForward h) ∧ T.link (T.setForward h) dev = T.link s.host dev :=
    fun h ⟨hh, hlink⟩ => ⟨D.sound_forward hh, (D.link_forward h dev).trans hlink⟩
  have hkeeps := netStep_keeps hforward
    (fun cmd hcmd => D.keeps_link (NetOp.made hcmd) hnamed (NetOp.untouched hop hcmd) _)
    ⟨hsound, rfl⟩ hs
  exact hkeeps.2

/-- A device that is there is not made again. -/
theorem bridgeInit_taken (D : T.Documented) {s : NetState η} {b : Bool}
    (hb : T.link s.host bridgeName = some b) (o : BridgeInitOutcome) :
    T.link (bridgeInit T o s).1.host bridgeName = some b := by
  unfold bridgeInit
  simp only
  split
  · exact hb
  have hhost := bridgePreflight_host (T := T) o.doctor false false s.clearLastError
  generalize bridgePreflight T o.doctor false false s.clearLastError = r at hhost
  have hb' : T.link r.1.host bridgeName = some b := by
    rw [hhost]
    exact hb
  split
  · exact hb'
  have hthere : T.link r.1.host bridgeName ≠ none := by
    rw [hb']
    exact Option.some_ne_none _
  obtain ⟨hkeep, hrc⟩ :=
    runSilent_refused o.linkAdd (bytes "bridge create") (D.addBridge_taken hthere)
  rw [if_pos (by rw [hrc]; decide)]
  rw [hkeep]
  exact hb'

/-- `bridge_preflight(0, 0)` returns 0. -/
def DoctorOutcome.Passes (o : DoctorOutcome) : Prop :=
  commandInPath o.path o.access (bytes "ip") = true ∧ o.root = true

theorem bridgePreflight_basic (o : DoctorOutcome) (s : NetState η) :
    (bridgePreflight T o false false s).2 = 0 ↔ o.Passes := by
  unfold bridgePreflight DoctorOutcome.Passes bridgeCollectDoctor
  simp only [Bool.false_and, Bool.false_eq_true, if_false]
  cases commandInPath o.path o.access (bytes "ip") with
  | false => simp
  | true =>
    cases o.root with
    | false => simp
    | true => simp

/-- The device is made, but not brought up. -/
def BridgeInitOutcome.BreaksOff (o : BridgeInitOutcome) : Prop :=
  o.doctor.Passes ∧ o.linkAdd.done = true ∧
    ¬ (o.linkAdd.ok = true ∧ o.addrAdd.ok = true ∧ o.linkUp.done = true)

theorem finishInit_spec (D : T.Documented) (o : BridgeInitOutcome) {s : NetState η}
    (hsound : T.sound s.host) (hdown : BridgeDown T s) (haddr : T.apply .addrAdd s.host ≠ none) :
    (BridgeDown T (finishInit T o s).1 ↔ ¬ (o.addrAdd.ok = true ∧ o.linkUp.done = true)) ∧
      (o.addrAdd.ok = true → o.linkUp.ok = true → BridgeUp T (finishInit T o s).1) := by
  have hnamed : Named bridgeName := .inl rfl
  obtain ⟨host, haddr⟩ := Option.ne_none_iff_exists'.mp haddr
  unfold finishInit
  simp only [runSilent_rc haddr]
  -- addressed or not, the device is still down
  have hkeeps := D.keeps_link (show NetCommand.addrAdd.Made from trivial) hnamed not_false
    (some false)
  have ht := hkeeps.run o.addrAdd (bytes "bridge address assignment") ⟨hsound, hdown⟩
  generalize (runSilent T o.addrAdd .addrAdd (bytes "bridge address assignment") s).1 = t at ht
  obtain ⟨htsound, htdown⟩ := ht
  have htdown : BridgeDown T t := htdown
  split
  · rename_i hfail
    refine ⟨?_, fun hok => absurd (hfail.symm.trans hok) Bool.false_ne_true⟩
    simp [htdown.teardown D htsound o.rollback, hfail]
  · rename_i hok
    rw [Bool.not_eq_false] at hok
    have hthere : T.link t.host bridgeName ≠ none := by
      rw [htdown]
      exact Option.some_ne_none _
    obtain ⟨host', hup, hlink⟩ := D.setUp hthere
    simp only [runSilent_rc hup]
    have hhost := (runSilent_applied o.linkUp (bytes "bridge bring-up") hup).1
    have husound := (D.keeps_sound (show (NetCommand.linkSetUp bridgeName).Made from hnamed)).run
      o.linkUp (bytes "bridge bring-up") htsound
    generalize (runSilent T o.linkUp (.linkSetUp bridgeName) (bytes "bridge bring-up") t).1 = u
      at hhost husound
    have hdone : BridgeUp T u ∧ o.linkUp.done = true ∨ BridgeDown T u ∧ o.linkUp.done = false := by
      cases hd : o.linkUp.done with
      | true =>
        rw [hd, if_pos rfl] at hhost
        exact .inl ⟨by rw [BridgeUp, hhost, hlink], rfl⟩
      | false =>
        rw [hd, if_neg Bool.false_ne_true] at hhost
        exact .inr ⟨by rw [BridgeDown, hhost]; exact htdown, rfl⟩
    split
    · rename_i hfail
      refine ⟨?_, fun _ hup => absurd (hfail.symm.trans hup) Bool.false_ne_true⟩
      -- the tool may have done its work although the wait failed
      rcases hdone with ⟨hu, hd⟩ | ⟨hu, hd⟩
      · simp [hu.teardown D husound o.rollback, hok, hd]
      · simp [hu.teardown D husound o.rollback, hd]
    · rename_i hup'
      rw [Bool.not_eq_false] at hup'
      have hd := CommandOutcome.done_of_ok hup'
      have hu : BridgeUp T u := by
        rcases hdone with ⟨hu, -⟩ | ⟨-, hfalse⟩
        · exact hu
        · rw [hd] at hfalse
          cases hfalse
      have hrule := D.keeps_link (show (NetCommand.masquerade .append).Made from trivial) hnamed
        not_false (some true)
      have hlast : BridgeUp T (runSilent T o.masquerade (.masquerade .append)
          (bytes "bridge masquerade rule")
          (if o.writeForward then { u with host := T.setForward u.host } else u)).1 := by
        refine (hrule.run _ _ ?_).2
        split
        · exact ⟨D.sound_forward husound, (D.link_forward u.host bridgeName).trans hu⟩
        · exact ⟨husound, hu⟩
      exact ⟨by simp [hlast.not_down, hok, hd], fun _ _ => hlast⟩

/-- `net init` on a host without the bridge. -/
theorem bridgeInit_none (D : T.Documented) {s : NetState η} (hsound : T.sound s.host)
    (hb : T.link s.host bridgeName = none) (o : BridgeInitOutcome) :
    (BridgeDown T (bridgeInit T o s).1 ↔ o.BreaksOff) ∧
      (o.doctor.Passes → o.linkAdd.ok = true → o.addrAdd.ok = true → o.linkUp.ok = true →
        BridgeUp T (bridgeInit T o s).1) := by
  rw [bridgeInit_eq]
  simp only
  have hdown : bridgeIsUp T o.socket s.clearLastError.host = false := by
    show (o.socket && decide (T.link s.host bridgeName = some true)) = false
    rw [hb]
    exact Bool.and_false _
  rw [if_neg (by rw [hdown]; exact Bool.false_ne_true)]
  have hpasses := bridgePreflight_basic (T := T) o.doctor s.clearLastError
  have hhost := bridgePreflight_host (T := T) o.doctor false false s.clearLastError
  generalize bridgePreflight T o.doctor false false s.clearLastError = r at hpasses hhost
  have hhost : r.1.host = s.host := hhost
  have hb' : T.link r.1.host bridgeName = none := by
    rw [hhost]
    exact hb
  split
  · rename_i hrc
    refine ⟨iff_of_false (not_bridgeDown_of_none hb') ?_, fun hp => absurd (hpasses.mpr hp) hrc⟩
    rintro ⟨hp, -⟩
    exact hrc (hpasses.mpr hp)
  · rename_i hrc
    rw [not_not] at hrc
    have hp := hpasses.mp hrc
    have hrsound : T.sound r.1.host := by
      rw [hhost]
      exact hsound
    obtain ⟨host, hadd, hnew, haddr⟩ := D.addBridge hrsound hb'
    simp only [runSilent_rc hadd]
    have hhost' := (runSilent_applied o.linkAdd (bytes "bridge create") hadd).1
    have htsound := (D.keeps_sound (show NetCommand.linkAddBridge.Made from trivial)).run o.linkAdd
      (bytes "bridge create") hrsound
    generalize (runSilent T o.linkAdd .linkAddBridge (bytes "bridge create") r.1).1 = t
      at hhost' htsound
    split
    · rename_i hfail
      refine ⟨?_, fun _ hok => absurd (hfail.symm.trans hok) Bool.false_ne_true⟩
      cases hd : o.linkAdd.done with
      | true =>
        rw [hd, if_pos rfl] at hhost'
        refine iff_of_true (by rw [BridgeDown, hhost', hnew]) ⟨hp, hd, ?_⟩
        -- the device is made, but the wait for the tool has failed
        rintro ⟨hok, -⟩
        rw [hfail] at hok
        cases hok
      | false =>
        rw [hd, if_neg Bool.false_ne_true] at hhost'
        refine iff_of_false (not_bridgeDown_of_none (by rw [hhost', hb'])) ?_
        rintro ⟨-, hdone, -⟩
        rw [hd] at hdone
        cases hdone
    · rename_i hok
      rw [Bool.not_eq_false] at hok
      have hdone := CommandOutcome.done_of_ok hok
      rw [if_pos hdone] at hhost'
      have htdown : BridgeDown T t := by rw [BridgeDown, hhost', hnew]
      obtain ⟨hspec, hup⟩ := finishInit_spec D o htsound htdown (by rw [hhost']; exact haddr)
      refine ⟨?_, fun _ _ => hup⟩
      rw [hspec]
      unfold BridgeInitOutcome.BreaksOff
      simp only [hp, hdone, hok, true_and]

/-! ## Once half made, always -/

/-- One operation leaves the bridge half made exactly when it was, or when it is a
`net init` that breaks off. -/
theorem bridgeDown_step (D : T.Documented) {s s' : NetState η} {op : NetOp}
    (hsound : T.sound s.host) (hs : netStep T s op = some s') :
    BridgeDown T s' ↔
      BridgeDown T s ∨ ∃ o, op = .init o ∧ T.link s.host bridgeName = none ∧ o.BreaksOff := by
  -- only `net init` and `net teardown` touch the bridge
  have hcontainers : ¬ op.Touches bridgeName → (BridgeDown T s' ↔ BridgeDown T s ∨
      ∃ o, op = .init o ∧ T.link s.host bridgeName = none ∧ o.BreaksOff) := by
    intro hop
    have hbridge := link_step D hsound (.inl rfl) hop hs
    have hinit : ¬ ∃ o, op = .init o ∧ T.link s.host bridgeName = none ∧ o.BreaksOff := by
      rintro ⟨o, rfl, -⟩
      exact hop rfl
    rw [or_iff_left hinit, BridgeDown, BridgeDown, hbridge]
  cases op with
  | init o =>
    cases hs
    cases hb : T.link s.host bridgeName with
    | none =>
      rw [(bridgeInit_none D hsound hb o).1, or_iff_right (not_bridgeDown_of_none hb)]
      constructor
      · exact fun h => ⟨o, rfl, rfl, h⟩
      · rintro ⟨o', ho, -, h⟩
        cases ho
        exact h
    | some b =>
      rw [BridgeDown, BridgeDown, bridgeInit_taken D hb o, hb]
      simp
  | teardown o =>
    cases hs
    have hinit : ¬ ∃ o', NetOp.teardown o = .init o' ∧ T.link s.host bridgeName = none ∧
        o'.BreaksOff := by
      rintro ⟨o', ho, -⟩
      cases ho
    rw [or_iff_left hinit]
    refine ⟨fun h => ?_, fun h => h.teardown D hsound o⟩
    rcases bridgeTeardown_cases D o hsound with hkeep | ⟨-, hnone⟩
    · exact hkeep.symm.trans h
    · exact absurd h (not_bridgeDown_of_none hnone)
  | setupVeth o n pid => exact hcontainers (hostVeth_ne_bridgeName _).symm
  | teardownVeth o n => exact hcontainers (hostVeth_ne_bridgeName _).symm
  | addPortForward o pm ip => exact hcontainers not_false
  | delPortForward o pm ip => exact hcontainers not_false

/-- Some `net init` of the run found no bridge and broke off. -/
def BrokeOff (T : NetTools η) (s₀ : NetState η) (as : List NetOp) : Prop :=
  ∃ pre o post t, as = pre ++ .init o :: post ∧ Runs (netStep T) s₀ pre t ∧
    T.link t.host bridgeName = none ∧ o.BreaksOff

theorem BrokeOff.snoc {s₀ : NetState η} {as : List NetOp} {a : NetOp} {s : NetState η}
    (hrun : Runs (netStep T) s₀ as s) :
    BrokeOff T s₀ (as ++ [a]) ↔
      BrokeOff T s₀ as ∨ ∃ o, a = .init o ∧ T.link s.host bridgeName = none ∧ o.BreaksOff := by
  constructor
  · rintro ⟨pre, o, post, t, has, hpre, hnone, ho⟩
    rcases List.eq_nil_or_concat post with rfl | ⟨post, b, rfl⟩
    · obtain ⟨rfl, ha⟩ := List.append_inj' has rfl
      obtain rfl := hpre.unique hrun
      exact .inr ⟨o, List.singleton_inj.mp ha, hnone, ho⟩
    · rw [List.concat_eq_append, ← List.cons_append, ← List.append_assoc] at has
      obtain ⟨rfl, -⟩ := List.append_inj' has rfl
      exact .inl ⟨pre, o, post, t, rfl, hpre, hnone, ho⟩
  · rintro (⟨pre, o, post, t, rfl, hpre, hnone, ho⟩ | ⟨o, rfl, hnone, ho⟩)
    · exact ⟨pre, o, post ++ [a], t, by simp, hpre, hnone, ho⟩
    · exact ⟨as, o, [], s, rfl, hrun, hnone, ho⟩

theorem bridge_run (D : T.Documented) {s₀ : NetState η} (hsound : T.sound s₀.host)
    (hnone : T.link s₀.host bridgeName = none) {as : List NetOp} {s : NetState η}
    (hrun : Runs (netStep T) s₀ as s) :
    T.sound s.host ∧ (BridgeDown T s ↔ BrokeOff T s₀ as) := by
  induction hrun with
  | nil =>
    refine ⟨hsound, iff_of_false (not_bridgeDown_of_none hnone) ?_⟩
    rintro ⟨pre, o, post, t, has, -⟩
    simp at has
  | snoc hrun _ hs ih =>
    obtain ⟨hsound', hdown⟩ := ih
    exact ⟨sound_step D hsound' hs,
      by rw [bridgeDown_step D hsound' hs, BrokeOff.snoc hrun, hdown]⟩

/-- Every command works. -/
def BridgeInitOutcome.clean : BridgeInitOutcome :=
  { socket := true
    doctor :=
      { root := true, path := some (bytes "/sbin"), access := fun _ => true, socket := true
        readForward := true }
    linkAdd := .runs 2, addrAdd := .runs 2, linkUp := .runs 2
    rollback := { socket := true, masquerade := .runs 1, linkDelete := .runs 1 }
    writeForward := true, masquerade := .runs 1 }

theorem bridgeInit_clean_passes : BridgeInitOutcome.clean.doctor.Passes := ⟨rfl, rfl⟩

/-- **A bring-up that breaks off is final**: on a host that has no `csbr0` yet,
with any tools that do as documented, after any run of the network operations and
any failures of the tools, the program can still bring the bridge up exactly when
no `net init` of the run has made the device and then failed to address it or to
set it up. -/
theorem bridge_recovers_iff (D : T.Documented) {s₀ : NetState η} (hsound : T.sound s₀.host)
    (hnone : T.link s₀.host bridgeName = none) {as : List NetOp} {s : NetState η}
    (hrun : Runs (netStep T) s₀ as s) :
    (∃ bs s', Runs (netStep T) s bs s' ∧ BridgeUp T s') ↔ ¬ BrokeOff T s₀ as := by
  obtain ⟨hsound', hdown⟩ := bridge_run D hsound hnone hrun
  rw [← hdown]
  constructor
  · rintro ⟨bs, s', hrun', hup⟩ hdown'
    refine hup.not_down ?_
    have hboth : T.sound s'.host ∧ BridgeDown T s' :=
      hrun'.invariant (I := fun t => T.sound t.host ∧ BridgeDown T t)
        (fun t a t' ht _ hs =>
          ⟨sound_step D ht.1 hs, (bridgeDown_step D ht.1 hs).mpr (.inl ht.2)⟩)
        ⟨hsound', hdown'⟩
    exact hboth.2
  · intro hnot
    cases hb : T.link s.host bridgeName with
    | none =>
      exact ⟨[.init .clean], _, .cons trivial rfl (.nil _),
        (bridgeInit_none D hsound' hb .clean).2 bridgeInit_clean_passes rfl rfl rfl⟩
    | some b =>
      refine ⟨[], s, .nil s, ?_⟩
      cases b with
      | true => exact hb
      | false => exact absurd hb hnot

/-- `ip addr add` fails once; `net teardown` and another `net init` follow. -/
def brokenDay : List NetOp :=
  [.init { BridgeInitOutcome.clean with addrAdd := .exits 2 },
    .teardown { socket := true, masquerade := .runs 1, linkDelete := .runs 1 }, .init .clean]

theorem bridge_recovers_brokenDay :
    ∃ s, Runs (netStep HostNet.tools) ⟨.clean, []⟩ brokenDay s ∧
      ¬ ∃ bs s', Runs (netStep HostNet.tools) s bs s' ∧ BridgeUp HostNet.tools s' := by
  have hrun : Runs (netStep HostNet.tools) ⟨.clean, []⟩ brokenDay _ :=
    .cons trivial rfl (.cons trivial rfl (.cons trivial rfl (.nil _)))
  refine ⟨_, hrun, fun h =>
    (bridge_recovers_iff HostNet.tools_documented trivial rfl hrun).mp h ?_⟩
  exact ⟨[], _, _, _, rfl, .nil _, rfl, bridgeInit_clean_passes, rfl,
    fun h => Bool.false_ne_true h.2.1⟩

end ContainerSim.Network
