import ContainerSim.Lib.Decimal
import ContainerSim.Runtime.Addresses
import Mathlib.Logic.Function.Basic

/-!
# Network commands

The bridge is driven by `ip` and `iptables`, which are programs of their own: what
they make of the arguments they are given is a parameter (`NetTools`), and what
is documented of the commands of this program are named hypotheses on it
(`NetTools.Documented`). `runSilent` runs one command and notes what went wrong in
a buffer of 256 bytes.
-/

namespace ContainerSim.Network

open Lib ContainerSim.Runtime

/-- `BRIDGE_NAME`, `BRIDGE_IP`, `BRIDGE_PREFIX`. -/
def bridgeName : Bytes := bytes "csbr0"
def bridgeIp : Bytes := bytes "172.17.0.1"
def bridgePrefix : Nat := 16

/-- The name `bridge_setup_veth` gives to the container's end. -/
def peerVeth (id : Bytes) : Bytes := snprintfStr 16 (bytes "csp" ++ idSuffix id)

/-! ## The commands -/

/-- `-A` and `-D`. -/
inductive RuleOp where
  | append | delete
  deriving DecidableEq

def RuleOp.flag : RuleOp → Bytes
  | .append => bytes "-A"
  | .delete => bytes "-D"

def RuleOp.on : RuleOp → List (List Bytes) → List Bytes → List (List Bytes)
  | .append, rules, rule => rule :: rules
  | .delete, rules, rule => rules.erase rule

theorem RuleOp.count_on {op : RuleOp} {rules : List (List Bytes)} {rule other : List Bytes}
    (hne : rule ≠ other) : (op.on rules rule).count other = rules.count other := by
  cases op with
  | append => exact List.count_cons_of_ne hne
  | delete => exact List.count_erase_of_ne hne.symm

inductive NetCommand where
  | linkAddBridge
  | addrAdd
  | linkSetUp (dev : Bytes)
  | linkAddVeth (host peer : Bytes)
  | linkSetMaster (dev : Bytes)
  | linkSetNetns (dev : Bytes) (pid : Int)
  | linkDelete (dev : Bytes)
  | masquerade (op : RuleOp)
  | dnat (op : RuleOp) (pm : PortMapping) (ip : Bytes)
  deriving DecidableEq

/-- A port's rule, as it stands behind `-A` and `-D`. -/
def dnatRule (pm : PortMapping) (ip : Bytes) : List Bytes :=
  [bytes "PREROUTING", bytes "-p", pm.proto, bytes "--dport",
    snprintfStr 8 (fmtNat pm.hostPort.toNat), bytes "-j", bytes "DNAT", bytes "--to-destination",
    snprintfStr 32 (ip ++ bytes ":" ++ fmtNat pm.containerPort.toNat)]

/-- The `argv` the source builds, without the final NULL. -/
def NetCommand.argv : NetCommand → List Bytes
  | .linkAddBridge => [bytes "ip", bytes "link", bytes "add", bridgeName, bytes "type",
      bytes "bridge"]
  | .addrAdd => [bytes "ip", bytes "addr", bytes "add",
      bridgeIp ++ bytes "/" ++ fmtNat bridgePrefix, bytes "dev", bridgeName]
  | .linkSetUp dev => [bytes "ip", bytes "link", bytes "set", dev, bytes "up"]
  | .linkAddVeth host peer => [bytes "ip", bytes "link", bytes "add", host, bytes "type",
      bytes "veth", bytes "peer", bytes "name", peer]
  | .linkSetMaster dev => [bytes "ip", bytes "link", bytes "set", dev, bytes "master", bridgeName]
  | .linkSetNetns dev pid => [bytes "ip", bytes "link", bytes "set", dev, bytes "netns",
      snprintfStr 16 (fmtInt pid)]
  | .linkDelete dev => [bytes "ip", bytes "link", bytes "delete", dev]
  | .masquerade op => [bytes "iptables", bytes "-t", bytes "nat", op.flag, bytes "POSTROUTING",
      bytes "-s", bytes "172.17.0.0/16", bytes "!", bytes "-o", bridgeName, bytes "-j",
      bytes "MASQUERADE"]
  | .dnat op pm ip => bytes "iptables" :: bytes "-t" :: bytes "nat" :: op.flag :: dnatRule pm ip

/-- The names the program gives to devices of the host: the bridge's, and those
of the host's ends of veths. -/
def Named (dev : Bytes) : Prop := dev = bridgeName ∨ ∃ n, dev = hostVeth (containerId n)

/-- The devices a command is about bear the names the program gives. -/
def NetCommand.Made : NetCommand → Prop
  | .linkSetUp dev | .linkDelete dev => Named dev
  | .linkAddVeth host peer =>
    ∃ n, host = hostVeth (containerId n) ∧ peer = peerVeth (containerId n)
  | .linkSetMaster dev => ∃ n, dev = hostVeth (containerId n)
  | .linkSetNetns dev _ => ∃ n, dev = peerVeth (containerId n)
  | .linkAddBridge | .addrAdd | .masquerade _ | .dnat _ _ _ => True

/-- A command makes, changes or removes the host's device of this name. -/
def NetCommand.Touches (dev : Bytes) : NetCommand → Prop
  | .linkAddBridge => dev = bridgeName
  | .linkSetUp d | .linkDelete d | .linkAddVeth d _ => dev = d
  | _ => False

def NetCommand.IsDnat : NetCommand → Prop
  | .dnat _ _ _ => True
  | _ => False

/-- A rule as the manager publishes ports: of TCP or UDP, to an address of its
pool. -/
def Published (pm : PortMapping) (ip : Bytes) : Prop :=
  (pm.proto = bytes "tcp" ∨ pm.proto = bytes "udp") ∧
    ∃ n : Int, 2 ≤ n ∧ n ≤ 254 ∧ ip = bridgeAddress n

/-! ## The tools -/

/-- The network of a host, as `η`, with the tools that change it. -/
structure NetTools (η : Type) where
  /-- what the program `argv[0]` makes of the network; `none` is its refusal -/
  exec : List Bytes → η → Option η
  /-- `SIOCGIFFLAGS`: whether there is a device of this name, and its `IFF_UP` -/
  link : η → Bytes → Option Bool
  /-- how many times the rule of a port is installed -/
  rules : η → PortMapping → Bytes → Nat
  /-- `/proc/sys/net/ipv4/ip_forward` -/
  forward : η → Bool
  setForward : η → η
  /-- What bears one of the program's names is of the program's making: `csbr0` a
  bridge, the host's end of a veth a veth whose other end is not so named. -/
  sound : η → Prop

section

variable {η : Type}

def NetTools.apply (T : NetTools η) (cmd : NetCommand) (h : η) : Option η := T.exec cmd.argv h

/-- What `ip-link(8)`, `ip-address(8)` and `iptables(8)` say of the commands. -/
structure NetTools.Documented (T : NetTools η) : Prop where
  sound_apply : ∀ {cmd h h'}, cmd.Made → T.sound h → T.apply cmd h = some h' → T.sound h'
  /-- a command leaves the devices it does not name alone -/
  link_apply : ∀ {cmd h h' dev}, cmd.Made → T.sound h → Named dev → ¬ cmd.Touches dev →
    T.apply cmd h = some h' → T.link h' dev = T.link h dev
  rules_apply : ∀ {cmd h h'}, ¬ cmd.IsDnat → T.apply cmd h = some h' →
    ∀ pm ip, T.rules h' pm ip = T.rules h pm ip
  /-- there is one device of a name -/
  addBridge_taken : ∀ {h}, T.link h bridgeName ≠ none → T.apply .linkAddBridge h = none
  /-- a new bridge is down and takes an address -/
  addBridge : ∀ {h}, T.sound h → T.link h bridgeName = none →
    ∃ h', T.apply .linkAddBridge h = some h' ∧ T.link h' bridgeName = some false ∧
      T.apply .addrAdd h' ≠ none
  setUp : ∀ {h}, T.link h bridgeName ≠ none →
    ∃ h', T.apply (.linkSetUp bridgeName) h = some h' ∧ T.link h' bridgeName = some true
  delete : ∀ {h dev}, Named dev → T.sound h → T.link h dev ≠ none →
    ∃ h', T.apply (.linkDelete dev) h = some h' ∧ T.link h' dev = none
  delete_missing : ∀ {h dev}, Named dev → T.link h dev = none →
    T.apply (.linkDelete dev) h = none
  /-- `-A` adds the rule once, if it accepts it -/
  append : ∀ {h h' pm ip}, Published pm ip → T.apply (.dnat .append pm ip) h = some h' →
    ∀ pm' ip', Published pm' ip' →
      T.rules h' pm' ip' = T.rules h pm' ip' + if pm' = pm ∧ ip' = ip then 1 else 0
  /-- `-D` removes it once -/
  remove : ∀ {h pm ip}, Published pm ip → T.rules h pm ip ≠ 0 →
    ∃ h', T.apply (.dnat .delete pm ip) h = some h' ∧ ∀ pm' ip', Published pm' ip' →
      T.rules h' pm' ip' = T.rules h pm' ip' - if pm' = pm ∧ ip' = ip then 1 else 0
  remove_missing : ∀ {h pm ip}, Published pm ip → T.rules h pm ip = 0 →
    T.apply (.dnat .delete pm ip) h = none
  sound_forward : ∀ {h}, T.sound h → T.sound (T.setForward h)
  link_forward : ∀ h dev, T.link (T.setForward h) dev = T.link h dev
  rules_forward : ∀ h pm ip, T.rules (T.setForward h) pm ip = T.rules h pm ip

/-! ## Running one -/

/-- The host and `g_last_error`. -/
structure NetState (η : Type) where
  host : η
  lastError : Bytes

/-- `set_last_error`, with the text formatted. -/
def NetState.setLastError (s : NetState η) (text : Bytes) : NetState η :=
  { s with lastError := snprintfStr 256 text }

/-- `bridge_clear_last_error`. -/
def NetState.clearLastError (s : NetState η) : NetState η := { s with lastError := [] }

/-- The loop of `format_command`, from what is in the buffer at `off`. -/
def formatArgs (bufSize : Nat) : List Bytes → Bool → Bytes → Bytes
  | [], _, buf => buf
  | arg :: args, first, buf =>
    if buf.length + 1 < bufSize then
      let piece := (if first then [] else bytes " ") ++ arg
      -- the cut text stays in the buffer and ends the loop
      if piece.length ≥ bufSize - buf.length then buf ++ snprintfStr (bufSize - buf.length) piece
      else formatArgs bufSize args false (buf ++ piece)
    else buf

/-- `format_command`. -/
def formatCommand (bufSize : Nat) (argv : List Bytes) : Bytes := formatArgs bufSize argv true []

/-- What becomes of a command: the fork fails, the wait is interrupted or the tool
killed (with the command done or not), the tool is not there or fails by itself,
or it does what it can and exits with `refused` when it cannot. -/
inductive CommandOutcome where
  | forkFails (error : Bytes)
  | waitFails (error : Bytes) (done : Bool)
  | notFound
  | exits (code : Nat)
  | signaled (sig : Nat) (done : Bool)
  | runs (refused : Nat)

/-- `run_silent`. -/
def runSilent (T : NetTools η) (o : CommandOutcome) (cmd : NetCommand) (step : Bytes)
    (s : NetState η) : NetState η × Int :=
  let commandBuf := formatCommand 192 cmd.argv
  match o with
  | .forkFails error => (s.setLastError (step ++ bytes " failed before exec: " ++ error), -1)
  | .waitFails error done =>
    let host := if done then (T.apply cmd s.host).getD s.host else s.host
    ({ s with host }.setLastError (step ++ bytes " failed while waiting: " ++ error), -1)
  | .signaled sig done =>
    let host := if done then (T.apply cmd s.host).getD s.host else s.host
    ({ s with host }.setLastError (step ++ bytes " failed: `" ++ commandBuf ++
      bytes "` terminated by signal " ++ fmtNat sig), -1)
  | .notFound =>
    (s.setLastError (step ++ bytes " failed: command not found while running `" ++ commandBuf ++
      bytes "`"), -1)
  | .exits code => (s.setLastError (step ++ bytes " failed: `" ++ commandBuf ++
      bytes "` exited with status " ++ fmtNat code), -1)
  | .runs refused =>
    match T.apply cmd s.host with
    | some host => ({ s with host }, 0)
    | none => (s.setLastError (step ++ bytes " failed: `" ++ commandBuf ++
        bytes "` exited with status " ++ fmtNat refused), -1)

end

/-! ## A plain host -/

/-- A host whose devices are known by their names and whose rules are the words
they were given with. -/
structure HostNet where
  link : Bytes → Option Bool
  /-- the bridge has its address -/
  addr : Bool
  rules : List (List Bytes)
  forward : Bool

namespace HostNet

/-- No device of the program, no rule, nothing forwarded. -/
def clean : HostNet := { link := fun _ => none, addr := false, rules := [], forward := false }

def put (h : HostNet) (dev : Bytes) (flags : Option Bool) : HostNet :=
  { h with link := Function.update h.link dev flags }

def linkAddBridge (h : HostNet) (dev : Bytes) : Option HostNet :=
  if h.link dev = none then some ({ h with addr := false }.put dev (some false)) else none

def addrAdd (h : HostNet) (dev : Bytes) : Option HostNet :=
  if h.link dev ≠ none ∧ h.addr = false then some { h with addr := true } else none

def linkSetUp (h : HostNet) (dev : Bytes) : Option HostNet :=
  if h.link dev = none then none else some (h.put dev (some true))

def linkAddVeth (h : HostNet) (host peer : Bytes) : Option HostNet :=
  if h.link host = none ∧ h.link peer = none then
    some ((h.put peer (some false)).put host (some false))
  else none

def linkSetMaster (h : HostNet) (dev master : Bytes) : Option HostNet :=
  if h.link dev = none ∨ h.link master = none then none else some h

/-- A device that is deleted, or that goes to another namespace. -/
def linkRemove (h : HostNet) (dev : Bytes) : Option HostNet :=
  if h.link dev = none then none else some (h.put dev none)

def iptables (h : HostNet) (op : Bytes) (rule : List Bytes) : Option HostNet :=
  if op = bytes "-A" then some { h with rules := rule :: h.rules }
  else if rule ∈ h.rules then some { h with rules := h.rules.erase rule }
  else none

/-- The tools, as far as the program uses them. -/
def exec : List Bytes → HostNet → Option HostNet
  | [_, _, _, dev], h => h.linkRemove dev
  | [_, _, _, dev, _], h => h.linkSetUp dev
  | [_, _, _, dev, word, last], h =>
    if word = bytes "type" then h.linkAddBridge dev
    else if word = bytes "dev" then h.addrAdd last
    else if word = bytes "master" then h.linkSetMaster dev last
    else h.linkRemove dev
  | [_, _, _, host, _, _, _, _, peer], h => h.linkAddVeth host peer
  | _ :: _ :: _ :: op :: rule, h => h.iptables op rule
  | _, _ => none

/-- The tools of a plain host. -/
def tools : NetTools HostNet where
  exec := exec
  link := HostNet.link
  rules h pm ip := h.rules.count (dnatRule pm ip)
  forward := HostNet.forward
  setForward h := { h with forward := true }
  sound _ := True

@[simp] theorem put_link (h : HostNet) (dev : Bytes) (flags : Option Bool) :
    (h.put dev flags).link dev = flags := Function.update_self _ _ _

theorem put_link_of_ne {h : HostNet} {dev d : Bytes} (hne : dev ≠ d) (flags : Option Bool) :
    (h.put d flags).link dev = h.link dev := Function.update_of_ne hne _ _

end HostNet

/-- The words of a published rule say which it is. -/
theorem dnatRule_inj {pm pm' : PortMapping} {ip ip' : Bytes} (h : Published pm ip)
    (h' : Published pm' ip') (heq : dnatRule pm ip = dnatRule pm' ip') : pm = pm' ∧ ip = ip' := by
  have hport : ∀ p : UInt16, (fmtNat p.toNat).length ≤ 5 := fun p =>
    fmtNat_length_le (by omega) (Nat.lt_of_lt_of_le p.toNat_lt (by omega))
  have hdest : ∀ {p : UInt16} {n : Int}, 2 ≤ n → n ≤ 254 →
      (snprintfStr 32 (bridgeAddress n ++ bytes ":" ++ fmtNat p.toNat)).drop
        (bytes "172.17.0.").length = fmtInt n ++ 58 :: fmtNat p.toNat := by
    intro p n h2 h254
    have hfits : (bridgeAddress n).length ≤ 15 := by
      rw [← snprintfStr_bridgeAddress h2 h254]
      exact snprintfStr_length_le 16 _
    have hport := hport p
    have hcolon : (bytes ":").length = 1 := rfl
    rw [snprintfStr_eq_self (by simp only [List.length_append]; omega), bridgeAddress,
      List.append_assoc, List.append_assoc, List.drop_left]
    rfl
  have hnodigit : ∀ rest, NoDigit 10 (58 :: rest) := NoDigit.cons (by decide)
  obtain ⟨-, n, h2, h254, rfl⟩ := h
  obtain ⟨-, n', h2', h254', rfl⟩ := h'
  simp only [dnatRule, List.cons.injEq, true_and, and_true] at heq
  obtain ⟨hproto, hhost, hto⟩ := heq
  have hto := congrArg (List.drop (bytes "172.17.0.").length) hto
  rw [hdest h2 h254, hdest h2' h254'] at hto
  -- the number before the colon ends there
  have hscan := scanInt_fmtInt n (hnodigit (fmtNat pm.containerPort.toNat))
  rw [hto, scanInt_fmtInt n' (hnodigit _), Option.some.injEq, Prod.mk.injEq] at hscan
  obtain ⟨rfl, hrest⟩ := hscan
  rw [snprintfStr_eq_self ((hport _).trans (by omega)),
    snprintfStr_eq_self ((hport _).trans (by omega))] at hhost
  have hnum : Function.Injective fmtNat :=
    Function.LeftInverse.injective (readDigits_fmtBase (by omega) (by omega))
  have hcontainer := hnum (List.cons.inj hrest).2
  have hhost := hnum hhost
  refine ⟨?_, rfl⟩
  cases pm
  cases pm'
  simp only [PortMapping.mk.injEq]
  exact ⟨UInt16.toNat_inj.mp hhost, (UInt16.toNat_inj.mp hcontainer).symm, hproto⟩

theorem dnatRule_eq_iff {pm pm' : PortMapping} {ip ip' : Bytes} (h : Published pm ip)
    (h' : Published pm' ip') : dnatRule pm ip = dnatRule pm' ip' ↔ pm' = pm ∧ ip' = ip := by
  constructor
  · intro heq
    obtain ⟨rfl, rfl⟩ := dnatRule_inj h h' heq
    exact ⟨rfl, rfl⟩
  · rintro ⟨rfl, rfl⟩
    rfl

theorem hostVeth_ne_bridgeName (id : Bytes) : hostVeth id ≠ bridgeName := by
  intro h
  have hhead := congrArg List.head? h
  simp [hostVeth, snprintfStr, bytes, bridgeName] at hhead

/-- The container's end bears no name of the host's. -/
theorem not_named_peerVeth (id : Bytes) : ¬ Named (peerVeth id) := by
  rintro (h | ⟨n, h⟩)
  · have hthird := congrArg (fun l : Bytes => l[2]?) h
    simp [peerVeth, snprintfStr, bytes, bridgeName] at hthird
  · have hhead := congrArg List.head? h
    simp [peerVeth, hostVeth, snprintfStr, bytes] at hhead

namespace HostNet

/-- A host behind a command it has taken. -/
def after (h : HostNet) (cmd : NetCommand) : HostNet :=
  match cmd with
  | .linkAddBridge => { h with addr := false }.put bridgeName (some false)
  | .addrAdd => { h with addr := true }
  | .linkSetUp dev => h.put dev (some true)
  | .linkAddVeth host peer => (h.put peer (some false)).put host (some false)
  | .linkSetMaster _ => h
  | .linkSetNetns dev _ | .linkDelete dev => h.put dev none
  | .masquerade op => { h with rules := op.on h.rules (cmd.argv.drop 4) }
  | .dnat op pm ip => { h with rules := op.on h.rules (dnatRule pm ip) }

theorem iptables_eq {h h' : HostNet} {op : RuleOp} {rule : List Bytes}
    (hs : h.iptables op.flag rule = some h') : h' = { h with rules := op.on h.rules rule } := by
  cases op with
  | append =>
    rw [iptables, if_pos (by rfl)] at hs
    exact (Option.some.inj hs).symm
  | delete =>
    rw [iptables, if_neg (by decide +kernel)] at hs
    exact (Option.some.inj (Option.ite_none_right_eq_some.mp hs).2).symm

theorem tools_apply_eq {cmd : NetCommand} {h h' : HostNet} (hs : tools.apply cmd h = some h') :
    h' = h.after cmd := by
  cases cmd with
  | linkAddBridge =>
    change h.linkAddBridge bridgeName = some h' at hs
    exact (Option.some.inj (Option.ite_none_right_eq_some.mp hs).2).symm
  | addrAdd =>
    change h.addrAdd bridgeName = some h' at hs
    exact (Option.some.inj (Option.ite_none_right_eq_some.mp hs).2).symm
  | linkSetUp dev =>
    change h.linkSetUp dev = some h' at hs
    exact (Option.some.inj (Option.ite_none_left_eq_some.mp hs).2).symm
  | linkAddVeth host peer =>
    change h.linkAddVeth host peer = some h' at hs
    exact (Option.some.inj (Option.ite_none_right_eq_some.mp hs).2).symm
  | linkSetMaster dev =>
    change h.linkSetMaster dev bridgeName = some h' at hs
    exact (Option.some.inj (Option.ite_none_left_eq_some.mp hs).2).symm
  | linkSetNetns dev pid =>
    change h.linkRemove dev = some h' at hs
    exact (Option.some.inj (Option.ite_none_left_eq_some.mp hs).2).symm
  | linkDelete dev =>
    change h.linkRemove dev = some h' at hs
    exact (Option.some.inj (Option.ite_none_left_eq_some.mp hs).2).symm
  | masquerade op => exact iptables_eq (show h.iptables op.flag _ = _ from hs)
  | dnat op pm ip => exact iptables_eq (show h.iptables op.flag _ = _ from hs)

theorem tools_link_apply {cmd : NetCommand} {h h' : HostNet} {dev : Bytes} (hmade : cmd.Made)
    (hnamed : Named dev) (htouch : ¬ cmd.Touches dev) (hs : tools.apply cmd h = some h') :
    h'.link dev = h.link dev := by
  -- no device the code looks for carries the name of a peer
  have hpeer : ∀ n, dev ≠ peerVeth (containerId n) :=
    fun n hdev => not_named_peerVeth (containerId n) (hdev ▸ hnamed)
  rw [tools_apply_eq hs]
  cases cmd with
  | linkAddBridge | linkSetUp d | linkDelete d => exact put_link_of_ne htouch _
  | linkAddVeth host peer =>
    obtain ⟨n, -, rfl⟩ := hmade
    exact (put_link_of_ne htouch _).trans (put_link_of_ne (hpeer n) _)
  | linkSetNetns d pid =>
    obtain ⟨n, rfl⟩ := hmade
    exact put_link_of_ne (hpeer n) _
  | addrAdd | linkSetMaster d | masquerade op | dnat op pm ip => rfl

theorem tools_rules_apply {cmd : NetCommand} {h h' : HostNet} (hcmd : ¬ cmd.IsDnat)
    (hs : tools.apply cmd h = some h') (pm : PortMapping) (ip : Bytes) :
    h'.rules.count (dnatRule pm ip) = h.rules.count (dnatRule pm ip) := by
  rw [tools_apply_eq hs]
  cases cmd with
  | masquerade op =>
    -- the masquerade rule is in another chain
    have hchain : bytes "POSTROUTING" ≠ bytes "PREROUTING" := by decide +kernel
    exact RuleOp.count_on fun hrule => hchain (List.cons.inj hrule).1
  | dnat op pm ip => exact absurd trivial hcmd
  | linkAddBridge | addrAdd | linkSetUp d | linkAddVeth d peer | linkSetMaster d
  | linkSetNetns d pid | linkDelete d => rfl

end HostNet

theorem HostNet.tools_documented : HostNet.tools.Documented where
  sound_apply _ _ _ := trivial
  link_apply hmade _ hnamed htouch hs := tools_link_apply hmade hnamed htouch hs
  rules_apply := tools_rules_apply
  addBridge_taken := fun hlink => if_neg hlink
  addBridge := by
    intro h _ hlink
    have hnew : ({ h with addr := false }.put bridgeName (some false)).link bridgeName =
        some false := put_link _ _ _
    refine ⟨_, if_pos hlink, hnew, ?_⟩
    have hadd :
        ({ h with addr := false }.put bridgeName (some false)).addrAdd bridgeName ≠ none := by
      rw [addrAdd, if_pos ⟨by rw [hnew]; simp, rfl⟩]
      simp
    exact hadd
  setUp := fun {h} hlink => ⟨_, if_neg hlink, h.put_link bridgeName _⟩
  delete := fun {h dev} _ _ hlink => ⟨_, if_neg hlink, h.put_link dev _⟩
  delete_missing := fun _ hlink => if_pos hlink
  append := by
    intro h h' pm ip hpub hs pm' ip' hpub'
    have hs : some { h with rules := dnatRule pm ip :: h.rules } = some h' := hs
    cases hs
    show (dnatRule pm ip :: h.rules).count (dnatRule pm' ip') = _
    rw [List.count_cons, beq_eq_decide]
    simp only [decide_eq_true_eq, dnatRule_eq_iff hpub hpub']
    rfl
  remove := by
    intro h pm ip hpub hrule
    have hmem : dnatRule pm ip ∈ h.rules := List.count_pos_iff.mp (Nat.pos_of_ne_zero hrule)
    refine ⟨{ h with rules := h.rules.erase (dnatRule pm ip) }, if_pos hmem, ?_⟩
    intro pm' ip' hpub'
    show (h.rules.erase (dnatRule pm ip)).count (dnatRule pm' ip') = _
    rw [List.count_erase, beq_eq_decide]
    simp only [decide_eq_true_eq, dnatRule_eq_iff hpub hpub']
    rfl
  remove_missing := fun _ hrule => if_neg (List.count_eq_zero.mp hrule)
  sound_forward _ := trivial
  link_forward _ _ := rfl
  rules_forward _ _ _ := rfl

end ContainerSim.Network
