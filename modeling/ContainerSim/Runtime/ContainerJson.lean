import ContainerSim.Lib.JsonUnique
import ContainerSim.Runtime.Metadata
import ContainerSim.Web.Escape

/-!
# The containers in the API

`container_json_all`, `container_network_json` and `container_inspect_json`.
The two lists keep 512 and 256 bytes in reserve, which is less than a record can
take once its fields are escaped; the record of `container_inspect_json` always
fits the 4096 bytes of the web server.
-/

namespace ContainerSim.Runtime

open Lib ContainerSim.Web

/-- A record with the field of it that the manager does not read. -/
structure ApiContainer where
  record : Container
  networkError : Bytes

/-- What the C types promise of a record. -/
structure FieldsFit (c : Container) : Prop where
  id : c.id.length < idLen
  name : c.name.length < nameLen
  hostname : c.hostname.length < hostnameLen
  rootfs : c.rootfs.length < rootfsLen
  commandLine : c.commandLine.length < commandLen
  logPath : c.logPath.length < logPathLen
  imageRef : c.imageRef.length < imageRefLen
  ipAddress : c.ipAddress.length < 16
  vethHost : c.vethHost.length < 16
  pid : -2 ^ 31 ≤ c.pid ∧ c.pid < 2 ^ 31
  exitCode : -2 ^ 31 ≤ c.exitCode ∧ c.exitCode < 2 ^ 31

/-- `format_uptime`. -/
def formatUptime (seconds : Int) (size : Nat) : Bytes :=
  snprintfStr size
    (if seconds ≤ 0 then bytes "-"
    else if seconds < 60 then fmtInt seconds ++ bytes "s"
    else if seconds < 3600 then fmtInt (seconds / 60) ++ bytes "m" ++ fmtInt (seconds % 60) ++ bytes "s"
    else fmtInt (seconds / 3600) ++ bytes "h" ++ fmtInt (seconds % 3600 / 60) ++ bytes "m")

/-- `network_profile`. -/
def networkProfile : Bytes := bytes "loopback up (netns)"

/-- `describe_container_network`. -/
def describeContainerNetwork (bridgeUp : Bool) (a : ApiContainer) (size : Nat) : Bytes :=
  snprintfStr size
    (if a.record.ipAddress ≠ [] then networkProfile ++ bytes " + bridge csbr0"
    else if a.networkError ≠ [] then networkProfile ++ bytes " (" ++ a.networkError ++ bytes ")"
    else if bridgeUp then
      networkProfile ++ bytes " (bridge attach unavailable; run with network admin privileges)"
    else networkProfile ++ bytes " (bridge down; run 'net init' as root)")

/-- `ports_buf`. -/
def portsText (c : Container) : Bytes :=
  if 0 < c.portMaps.length then bridgeSerializePortMaps c.portMaps 128 else []

/-- `started_buf` and `stopped_buf`. -/
def timeText (clock : Clock 32) (t : Int) : Bytes := if t > 0 then clock.text t else bytes "-"

/-- `uptime_buf`. -/
def uptimeText (now : Int) (c : Container) : Bytes :=
  if c.state = .running ∧ c.startedAt > 0 then formatUptime (now - c.startedAt) 24
  else if c.startedAt > 0 ∧ c.stoppedAt > 0 then formatUptime (c.stoppedAt - c.startedAt) 24
  else bytes "-"

/-- `exit_buf`. -/
def exitText (c : Container) : Bytes :=
  if c.state = .stopped ∧ c.exitCode ≥ 0 then snprintfStr 16 (fmtInt c.exitCode) else bytes "-"

/-! ## The list of containers -/

section
variable (clock : Clock 32) (now : Int) (bridgeUp : Bool)

def containerMembers (a : ApiContainer) : List (String × Bytes) :=
  let c := a.record
  [("id", escaped (idLen * 2) c.id),
    ("name", escaped (nameLen * 2) c.name),
    ("hostname", escaped (hostnameLen * 2) c.hostname),
    ("state", escaped 16 (stateToString c.state)),
    ("pid", fmtInt c.pid),
    ("ip", escaped 32 c.ipAddress),
    ("ports", escaped 256 (portsText c)),
    ("uptime", escaped 48 (uptimeText now c)),
    ("started_at", escaped 64 (timeText clock c.startedAt)),
    ("exit_code", escaped 32 (exitText c)),
    ("command", escaped (commandLen * 2) c.commandLine),
    ("image", escaped (imageRefLen * 2) c.imageRef),
    ("rootfs", escaped (rootfsLen * 2) c.rootfs),
    ("log_path", escaped (logPathLen * 2) c.logPath),
    ("network_note", escaped 320 (describeContainerNetwork bridgeUp a 160))]

def containerText (a : ApiContainer) : Bytes := Json.object (containerMembers clock now bridgeUp a)

/-- The text of `container_json_all`. -/
def writeContainers (list : List ApiContainer) (buf : Bytes) : OutBuf :=
  OutBuf.writeList [91] [93] 512 (fun a => some (containerText clock now bridgeUp a)) list buf

/-- `container_json_all`: the buffer and the result. -/
def containerJsonAll (list : List ApiContainer) (buf : Bytes) : Bytes × Int :=
  if buf.length ≤ 2 then (buf, -1)
  else
    let o := writeContainers clock now bridgeUp list buf
    (o.mem, o.written)

end

/-! ## The network -/

def networkMembers (c : Container) : List (String × Bytes) :=
  [("id", escaped (idLen * 2) c.id),
    ("name", escaped (nameLen * 2) c.name),
    ("state", Json.quoted (stateToString c.state)),
    ("ip", Json.quoted c.ipAddress),
    ("veth_host", Json.quoted c.vethHost),
    ("ports", Json.quoted (portsText c))]

def networkText (c : Container) : Bytes := Json.object (networkMembers c)

/-- The loop of `container_network_json` passes over records without a network. -/
def networkEntry (c : Container) : Option Bytes :=
  if c.ipAddress = [] ∧ c.vethHost = [] then none else some (networkText c)

def networkOpening (bridgeUp : Bool) : Bytes :=
  bytes "\x7b\"bridge_up\":" ++ Json.boolText bridgeUp ++
    bytes ",\"bridge_ip\":\"172.17.0.1\",\"containers\":["

/-- The text of `container_network_json`. -/
def writeNetwork (bridgeUp : Bool) (list : List Container) (buf : Bytes) : OutBuf :=
  OutBuf.writeList (networkOpening bridgeUp) (bytes "]\x7d") 256 networkEntry list buf

/-- `container_network_json`: the buffer and the result. -/
def containerNetworkJson (bridgeUp : Bool) (list : List Container) (buf : Bytes) : Bytes × Int :=
  if buf.length ≤ 2 then (buf, -1)
  else
    let o := writeNetwork bridgeUp list buf
    (o.mem, o.written)

/-! ## One container -/

def inspectMembers (clock : Clock 32) (c : Container) : List (String × Bytes) :=
  [("id", escaped (idLen * 2) c.id),
    ("name", escaped (nameLen * 2) c.name),
    ("hostname", escaped (hostnameLen * 2) c.hostname),
    ("state", Json.quoted (stateToString c.state)),
    ("pid", fmtInt c.pid),
    ("command", escaped (commandLen * 2) c.commandLine),
    ("image", escaped (imageRefLen * 2) c.imageRef),
    ("rootfs", escaped (rootfsLen * 2) c.rootfs),
    ("log_path", escaped (logPathLen * 2) c.logPath),
    ("started_at", Json.quoted (timeText clock c.startedAt)),
    ("stopped_at", Json.quoted (timeText clock c.stoppedAt)),
    ("exit_code", fmtInt c.exitCode),
    ("ip", escaped 32 c.ipAddress),
    ("ports", escaped 256 (portsText c)),
    ("veth_host", Json.quoted c.vethHost),
    ("cpu_seconds", fmtNat c.resourceLimits.cpuSeconds.toNat),
    ("memory_mb", fmtNat c.resourceLimits.memoryMb.toNat),
    ("max_processes", fmtNat c.resourceLimits.maxProcesses.toNat),
    ("privileged", Json.boolText (c.security.privileged ≠ 0)),
    ("readonly_rootfs", Json.boolText (c.security.readonlyRootfs ≠ 0)),
    ("seccomp", Json.boolText (c.security.seccompEnabled ≠ 0)),
    ("cap_keep", Json.quoted (bytes "0x" ++ fmtHex c.security.capKeep))]

/-- `container_inspect_json`: the manager after the poll, the buffer and the result. -/
def containerInspectJson (clock : Clock 32) (o : PollOutcome) (id : Bytes) (m : Manager)
    (buf : Bytes) : Manager × Bytes × Int :=
  if buf.length ≤ 2 then (m, buf, -1)
  else
    let m := pollStates o m
    match findContainer m.list id with
    | none => (m, buf, -1)
    | some c =>
      let out := OutBuf.snprintf { mem := buf, written := 0 } (Json.object (inspectMembers clock c))
      (m, out.mem, out.written)

/-! ## What the texts stand for -/

/-- The object of a record in the list. -/
def containerValue (clock : Clock 32) (now : Int) (bridgeUp : Bool) (a : ApiContainer) :
    Json.Value :=
  let c := a.record
  .obj [(bytes "id", .str (visible c.id)),
    (bytes "name", .str (visible c.name)),
    (bytes "hostname", .str (visible c.hostname)),
    (bytes "state", .str (stateToString c.state)),
    (bytes "pid", .num (fmtInt c.pid)),
    (bytes "ip", .str (visible c.ipAddress)),
    (bytes "ports", .str (visible (portsText c))),
    (bytes "uptime", .str (visible (uptimeText now c))),
    (bytes "started_at", .str (visible (timeText clock c.startedAt))),
    (bytes "exit_code", .str (visible (exitText c))),
    (bytes "command", .str (visible c.commandLine)),
    (bytes "image", .str (visible c.imageRef)),
    (bytes "rootfs", .str (visible c.rootfs)),
    (bytes "log_path", .str (visible c.logPath)),
    (bytes "network_note", .str (visible (describeContainerNetwork bridgeUp a 160)))]

/-- The object of a record on its own. -/
def inspectValue (clock : Clock 32) (c : Container) : Json.Value :=
  .obj [(bytes "id", .str (visible c.id)),
    (bytes "name", .str (visible c.name)),
    (bytes "hostname", .str (visible c.hostname)),
    (bytes "state", .str (stateToString c.state)),
    (bytes "pid", .num (fmtInt c.pid)),
    (bytes "command", .str (visible c.commandLine)),
    (bytes "image", .str (visible c.imageRef)),
    (bytes "rootfs", .str (visible c.rootfs)),
    (bytes "log_path", .str (visible c.logPath)),
    (bytes "started_at", .str (timeText clock c.startedAt)),
    (bytes "stopped_at", .str (timeText clock c.stoppedAt)),
    (bytes "exit_code", .num (fmtInt c.exitCode)),
    (bytes "ip", .str (visible c.ipAddress)),
    (bytes "ports", .str (visible (portsText c))),
    (bytes "veth_host", .str c.vethHost),
    (bytes "cpu_seconds", .num (fmtNat c.resourceLimits.cpuSeconds.toNat)),
    (bytes "memory_mb", .num (fmtNat c.resourceLimits.memoryMb.toNat)),
    (bytes "max_processes", .num (fmtNat c.resourceLimits.maxProcesses.toNat)),
    (bytes "privileged", .bool (c.security.privileged ≠ 0)),
    (bytes "readonly_rootfs", .bool (c.security.readonlyRootfs ≠ 0)),
    (bytes "seccomp", .bool (c.security.seccompEnabled ≠ 0)),
    (bytes "cap_keep", .str (bytes "0x" ++ fmtHex c.security.capKeep))]

theorem stateToString_spec (st : ContainerState) :
    Json.Plain (stateToString st) ∧ (stateToString st).length ≤ 7 := by
  cases st <;> decide

theorem length_portsText (c : Container) : (portsText c).length < 128 := by
  unfold portsText
  split
  · exact Nat.lt_succ_of_le (snprintfStr_length_le 128 _)
  · decide

theorem length_uptimeText (now : Int) (c : Container) : (uptimeText now c).length < 24 := by
  unfold uptimeText
  split
  · exact Nat.lt_succ_of_le (snprintfStr_length_le 24 _)
  · split
    · exact Nat.lt_succ_of_le (snprintfStr_length_le 24 _)
    · decide

theorem length_exitText (c : Container) : (exitText c).length < 16 := by
  unfold exitText
  split
  · exact Nat.lt_succ_of_le (snprintfStr_length_le 16 _)
  · decide

theorem timeText_spec (clock : Clock 32) (t : Int) :
    (timeText clock t).length < 32 ∧ Json.Plain (timeText clock t) := by
  unfold timeText
  split
  · exact ⟨clock.length_lt t, clock.plain t⟩
  · decide

theorem denotes_container {clock : Clock 32} {now : Int} {bridgeUp : Bool} {a : ApiContainer}
    (h : FieldsFit a.record) :
    Json.Denotes (containerValue clock now bridgeUp a) (containerText clock now bridgeUp a) := by
  obtain ⟨hid, hname, hhost, hrootfs, hcommand, hlog, himage, hip, -, -, -⟩ := h
  obtain ⟨hstate, hstateLen⟩ := stateToString_spec a.record.state
  have hports := length_portsText a.record
  have huptime := length_uptimeText now a.record
  have hstarted := (timeText_spec clock a.record.startedAt).1
  have hexit := length_exitText a.record
  have hnote : (describeContainerNetwork bridgeUp a 160).length ≤ 159 := snprintfStr_length_le 160 _
  refine Json.denotes_object ?_
  refine .cons (Json.memberOf (by decide) (denotes_escaped (by omega))) ?_
  refine .cons (Json.memberOf (by decide) (denotes_escaped (by omega))) ?_
  refine .cons (Json.memberOf (by decide) (denotes_escaped (by omega))) ?_
  refine .cons (Json.memberOf (by decide) ?_) ?_
  · rw [escaped_plain hstate (by omega)]
    exact .str hstate.chars
  refine .cons (Json.memberOf (by decide) (.num (numberText_fmtInt _))) ?_
  refine .cons (Json.memberOf (by decide) (denotes_escaped (by omega))) ?_
  refine .cons (Json.memberOf (by decide) (denotes_escaped (by omega))) ?_
  refine .cons (Json.memberOf (by decide) (denotes_escaped (by omega))) ?_
  refine .cons (Json.memberOf (by decide) (denotes_escaped (by omega))) ?_
  refine .cons (Json.memberOf (by decide) (denotes_escaped (by omega))) ?_
  refine .cons (Json.memberOf (by decide) (denotes_escaped (by omega))) ?_
  refine .cons (Json.memberOf (by decide) (denotes_escaped (by omega))) ?_
  refine .cons (Json.memberOf (by decide) (denotes_escaped (by omega))) ?_
  refine .cons (Json.memberOf (by decide) (denotes_escaped (by omega))) ?_
  exact .cons (Json.memberOf (by decide) (denotes_escaped (by omega))) .nil

/-! ## When the lists fit -/

/-- Whether the records that are begun fit a buffer of `len` bytes: an entry
that starts before the last 512 bytes ends before the last one. -/
def ContainersFit (clock : Clock 32) (now : Int) (bridgeUp : Bool) (len : Nat)
    (list : List ApiContainer) : Prop :=
  OutBuf.Fits [91] [93] 512 len (list.map (containerText clock now bridgeUp))

theorem writeContainers_iff {clock : Clock 32} {now : Int} {bridgeUp : Bool}
    {list : List ApiContainer} (h : ∀ a ∈ list, FieldsFit a.record) (buf : Bytes) :
    ((writeContainers clock now bridgeUp list buf).written < buf.length ∧
        Json.WellFormed ((writeContainers clock now bridgeUp list buf).mem.take
          (writeContainers clock now bridgeUp list buf).written)) ↔
      ContainersFit clock now bridgeUp buf.length list := by
  have htexts : list.filterMap (fun a => some (containerText clock now bridgeUp a)) =
      list.map (containerText clock now bridgeUp) := congrFun List.filterMap_eq_map _
  have hclosed : ∀ k, Json.WellFormed
      (OutBuf.body [91] ((list.map (containerText clock now bridgeUp)).take k) ++ [93]) := by
    intro k
    rw [body_array]
    have hentries : ∀ t ∈ (list.map (containerText clock now bridgeUp)).take k,
        ∃ v, Json.Denotes v t := by
      intro t ht
      obtain ⟨a, ha, rfl⟩ := List.mem_map.mp (List.mem_of_mem_take ht)
      exact ⟨_, denotes_container (h a ha)⟩
    obtain ⟨v, hv⟩ := Json.exists_denotes_array hentries
    exact ⟨v, hv.document⟩
  have hiff := @OutBuf.writeList_iff _ [91] [93] 512 buf.length
    (fun a => some (containerText clock now bridgeUp a)) list buf Json.WellFormed rfl
  rw [htexts] at hiff
  exact hiff (fun k _ => hclosed k)
    fun k _ => Json.not_wellFormed_of_close (hclosed k) (by simp) (by simp)

/-- No string of the record that `container_network_json` prints as it is needs
an escape. -/
structure NetworkPlain (c : Container) : Prop where
  ip : Json.Plain c.ipAddress
  veth : Json.Plain c.vethHost
  ports : Json.Plain (portsText c)

/-- Whether the records that are begun fit a buffer of `len` bytes: the opening
text does, and an entry that starts before the last 256 bytes ends before the
last two. -/
def NetworkFits (bridgeUp : Bool) (len : Nat) (list : List Container) : Prop :=
  OutBuf.Fits (networkOpening bridgeUp) (bytes "]\x7d") 256 len (list.filterMap networkEntry)

/-- The records with a network. -/
def networked (list : List Container) : List Container :=
  list.filter fun c => !(c.ipAddress = [] ∧ c.vethHost = [])

theorem filterMap_networkEntry (list : List Container) :
    list.filterMap networkEntry = (networked list).map networkText := by
  induction list with
  | nil => rfl
  | cons c cs ih =>
    rw [List.filterMap_cons, ih, networkEntry, networked, networked, List.filter_cons]
    by_cases hnone : c.ipAddress = [] ∧ c.vethHost = []
    · simp [hnone]
    · simp [hnone]

/-- No string of a record that is begun needs an escape where it gets none. -/
def PlainBegun (bridgeUp : Bool) (len : Nat) (list : List Container) : Prop :=
  ∀ pre c post, networked list = pre ++ c :: post →
    (OutBuf.body (networkOpening bridgeUp) (pre.map networkText)).length + 256 < len →
      NetworkPlain c

/-- The records with a network that are begun are the first `k`. -/
def NetworkBegun (bridgeUp : Bool) (len : Nat) (list : List Container) (k : Nat) : Prop :=
  OutBuf.Begins (networkOpening bridgeUp) 256 len ((networked list).map networkText) k

theorem PlainBegun.take {bridgeUp : Bool} {len k : Nat} {list : List Container}
    (h : PlainBegun bridgeUp len list)
    (hk : OutBuf.Begun (networkOpening bridgeUp) 256 len
      (((networked list).map networkText).take k)) :
    ∀ c ∈ (networked list).take k, NetworkPlain c := by
  intro c hc
  obtain ⟨pre, post, hsplit⟩ := List.append_of_mem hc
  refine h pre c (post ++ (networked list).drop k) ?_ (hk _ (networkText c) (post.map networkText) ?_)
  · rw [← List.cons_append, ← List.append_assoc, ← hsplit, List.take_append_drop]
  · rw [← List.map_take, hsplit, List.map_append, List.map_cons]

theorem plainBegun_iff {bridgeUp : Bool} {len k : Nat} {list : List Container}
    (hk : NetworkBegun bridgeUp len list k) :
    PlainBegun bridgeUp len list ↔ ∀ c ∈ (networked list).take k, NetworkPlain c := by
  refine ⟨fun h => h.take hk.begun, fun h pre c post hsplit hguard => h c ?_⟩
  have hlt := OutBuf.lt_of_stopped hk.stop
    (by rw [hsplit, List.map_append, List.map_cons]) hguard
  rw [List.length_map] at hlt
  rw [hsplit, List.take_append, List.take_of_length_le (Nat.le_of_lt hlt)]
  obtain ⟨n, hn⟩ : ∃ n, k - pre.length = n + 1 := ⟨k - pre.length - 1, by omega⟩
  rw [hn, List.take_succ_cons]
  exact List.mem_append_right _ List.mem_cons_self

def networkTop (bridgeUp : Bool) (ts : List Bytes) : List (String × Bytes) :=
  [("bridge_up", Json.boolText bridgeUp), ("bridge_ip", Json.quoted (bytes "172.17.0.1")),
    ("containers", Json.array ts)]

theorem body_network (bridgeUp : Bool) (ts : List Bytes) :
    OutBuf.body (networkOpening bridgeUp) ts ++ bytes "]\x7d" =
      Json.object (networkTop bridgeUp ts) := by
  have hbody := body_object [("bridge_up", Json.boolText bridgeUp),
    ("bridge_ip", Json.quoted (bytes "172.17.0.1"))] "containers" ts
  have hopening : networkOpening bridgeUp =
      123 :: (([("bridge_up", Json.boolText bridgeUp),
          ("bridge_ip", Json.quoted (bytes "172.17.0.1"))].map Json.member).flatMap (· ++ [44]) ++
        (Json.quoted (bytes "containers") ++ [58, 91])) := by
    cases bridgeUp with
    | true => decide
    | false => decide
  rw [hopening]
  exact hbody

/-- The object of a record in the network. -/
def networkValue (c : Container) : Json.Value :=
  .obj [(bytes "id", .str (visible c.id)),
    (bytes "name", .str (visible c.name)),
    (bytes "state", .str (stateToString c.state)),
    (bytes "ip", .str c.ipAddress),
    (bytes "veth_host", .str c.vethHost),
    (bytes "ports", .str (portsText c))]

/-- What the answer stands for if it shows these records. -/
def networkAnswer (bridgeUp : Bool) (list : List Container) : Json.Value :=
  .obj [(bytes "bridge_up", .bool bridgeUp), (bytes "bridge_ip", .str (bytes "172.17.0.1")),
    (bytes "containers", .arr (list.map networkValue))]

theorem exactMembers_network {c : Container} (h : FieldsFit c) :
    List.Forall₂ Json.ExactMember
      [(bytes "id", .str (visible c.id)),
        (bytes "name", .str (visible c.name)),
        (bytes "state", .str (stateToString c.state)),
        (bytes "ip", .str c.ipAddress),
        (bytes "veth_host", .str c.vethHost),
        (bytes "ports", .str (portsText c))] (networkMembers c) := by
  have hid := h.id
  have hname := h.name
  have hescaped : ∀ {dstSize : Nat} {src : Bytes}, 2 * src.length < dstSize →
      Json.Exact (.str (visible src)) (escaped dstSize src) := by
    intro dstSize src hfits
    rw [escaped_eq hfits]
    exact (chars_escape src).exactText
  refine .cons ⟨rfl, hescaped (by omega)⟩ ?_
  refine .cons ⟨rfl, hescaped (by omega)⟩ ?_
  refine .cons ⟨rfl, Json.exact_str _⟩ ?_
  refine .cons ⟨rfl, Json.exact_str _⟩ ?_
  refine .cons ⟨rfl, Json.exact_str _⟩ ?_
  exact .cons ⟨rfl, Json.exact_str _⟩ .nil

theorem denotes_network_iff {c : Container} (h : FieldsFit c) :
    Json.Denotes (networkValue c) (networkText c) ↔ NetworkPlain c := by
  constructor
  · intro hdenotes
    have hmembers := (Json.denotes_object_iff (exactMembers_network h)).mp hdenotes
    obtain ⟨-, hmembers⟩ := List.forall₂_cons.mp hmembers
    obtain ⟨-, hmembers⟩ := List.forall₂_cons.mp hmembers
    obtain ⟨-, hmembers⟩ := List.forall₂_cons.mp hmembers
    obtain ⟨hip, hmembers⟩ := List.forall₂_cons.mp hmembers
    obtain ⟨hveth, hmembers⟩ := List.forall₂_cons.mp hmembers
    obtain ⟨hports, -⟩ := List.forall₂_cons.mp hmembers
    exact ⟨Json.denotes_quoted_iff.mp hip.value, Json.denotes_quoted_iff.mp hveth.value,
      Json.denotes_quoted_iff.mp hports.value⟩
  · intro hplain
    have hid := h.id
    have hname := h.name
    refine Json.denotes_object ?_
    refine .cons (Json.memberOf (by decide) (denotes_escaped (by omega))) ?_
    refine .cons (Json.memberOf (by decide) (denotes_escaped (by omega))) ?_
    refine .cons (Json.memberOf (by decide) (.str (stateToString_spec _).1.chars)) ?_
    refine .cons (Json.memberOf (by decide) (.str hplain.ip.chars)) ?_
    refine .cons (Json.memberOf (by decide) (.str hplain.veth.chars)) ?_
    exact .cons (Json.memberOf (by decide) (.str hplain.ports.chars)) .nil

section
variable {bridgeUp : Bool} {l : List Container} (hfit : ∀ c ∈ l, FieldsFit c)
include hfit

theorem exactMembers_answer :
    List.Forall₂ Json.ExactMember
      [(bytes "bridge_up", .bool bridgeUp), (bytes "bridge_ip", .str (bytes "172.17.0.1")),
        (bytes "containers", .arr (l.map networkValue))]
      (networkTop bridgeUp (l.map networkText)) := by
  have harray : Json.Exact (.arr (l.map networkValue)) (Json.array (l.map networkText)) := by
    have h := Json.exact_array (l := l)
      (fun c hc => Json.exact_object (exactMembers_network (hfit c hc))) l.length
    rwa [List.take_length] at h
  exact .cons ⟨rfl, Json.exact_bool _⟩ (.cons ⟨rfl, Json.exact_str _⟩ (.cons ⟨rfl, harray⟩ .nil))

/-- The closed text of these records stands for them exactly if they are plain. -/
theorem document_network_iff :
    Json.Document (networkAnswer bridgeUp l)
        (OutBuf.body (networkOpening bridgeUp) (l.map networkText) ++ bytes "]\x7d") ↔
      ∀ c ∈ l, NetworkPlain c := by
  rw [body_network]
  have hall : (∀ c ∈ l, NetworkPlain c) ↔
      Json.Denotes (.arr (l.map networkValue)) (Json.array (l.map networkText)) := by
    have harray := @Json.denotes_array_iff _ networkValue networkText l
      (fun c hc => Json.exact_object (exactMembers_network (hfit c hc))) l.length
    rw [List.take_length] at harray
    rw [harray]
    refine ⟨fun h => ⟨rfl, fun c hc => ?_⟩, fun h c hc => ?_⟩
    · exact (denotes_network_iff (hfit c hc)).mpr (h c hc)
    · exact (denotes_network_iff (hfit c hc)).mp (h.2 c hc)
  rw [hall]
  constructor
  · intro hdoc
    have hdenotes := (Json.exact_object (exactMembers_answer hfit)).document hdoc
    have hmembers := (Json.denotes_object_iff (exactMembers_answer hfit)).mp hdenotes
    obtain ⟨-, hmembers⟩ := List.forall₂_cons.mp hmembers
    obtain ⟨-, hmembers⟩ := List.forall₂_cons.mp hmembers
    exact (List.forall₂_cons.mp hmembers).1.value
  · intro harray
    have hip : Json.Plain (bytes "172.17.0.1") := by decide
    refine Json.Denotes.document (Json.denotes_object ?_)
    refine .cons (Json.memberOf (by decide) (Json.denotes_boolText _)) ?_
    refine .cons (Json.memberOf (by decide) (.str hip.chars)) ?_
    exact .cons (Json.memberOf (by decide) harray) .nil

/-- Without its end it does not stand for them. -/
theorem not_document_network :
    ¬ Json.Document (networkAnswer bridgeUp l)
      (OutBuf.body (networkOpening bridgeUp) (l.map networkText)) := by
  have hexact : Json.Exact (networkAnswer bridgeUp l)
      (OutBuf.body (networkOpening bridgeUp) (l.map networkText) ++ bytes "]\x7d") := by
    rw [body_network]
    exact Json.exact_object (exactMembers_answer hfit)
  exact hexact.not_document (by decide)

end

section
variable {bridgeUp : Bool} {list : List Container} (hfit : ∀ c ∈ list, FieldsFit c) (buf : Bytes)
include hfit

theorem writeNetwork_iff (hplain : PlainBegun bridgeUp buf.length list) :
    ((writeNetwork bridgeUp list buf).written < buf.length ∧
        Json.WellFormed ((writeNetwork bridgeUp list buf).mem.take
          (writeNetwork bridgeUp list buf).written)) ↔
      NetworkFits bridgeUp buf.length list := by
  have hiff := @OutBuf.writeList_iff _ (networkOpening bridgeUp) (bytes "]\x7d") 256 buf.length
    networkEntry list buf Json.WellFormed rfl
  rw [filterMap_networkEntry] at hiff
  rw [NetworkFits, filterMap_networkEntry]
  have hclosed : ∀ k, OutBuf.Begun (networkOpening bridgeUp) 256 buf.length
      (((networked list).map networkText).take k) →
      Json.WellFormed (OutBuf.body (networkOpening bridgeUp)
        (((networked list).map networkText).take k) ++ bytes "]\x7d") := by
    intro k hk
    have hsub : ∀ c ∈ (networked list).take k, FieldsFit c :=
      fun c hc => hfit c (List.mem_filter.mp (List.mem_of_mem_take hc)).1
    rw [← List.map_take]
    exact ⟨_, (document_network_iff hsub).mpr (hplain.take hk)⟩
  refine hiff hclosed fun k hk => ?_
  refine Json.not_wellFormed_of_close (hclosed k hk) (by decide) fun c hc => ?_
  rw [show bytes "]\x7d" = [93, 125] from rfl] at hc
  simpa using hc

/-- With the records begun in the place of any well-formed text. -/
theorem writeNetwork_exact {k : Nat} (hk : NetworkBegun bridgeUp buf.length list k) :
    ((writeNetwork bridgeUp list buf).written < buf.length ∧
        Json.Document (networkAnswer bridgeUp ((networked list).take k))
          ((writeNetwork bridgeUp list buf).mem.take (writeNetwork bridgeUp list buf).written)) ↔
      NetworkFits bridgeUp buf.length list ∧ PlainBegun bridgeUp buf.length list := by
  have hsub : ∀ c ∈ (networked list).take k, FieldsFit c :=
    fun c hc => hfit c (List.mem_filter.mp (List.mem_of_mem_take hc)).1
  have hiff := @OutBuf.writeList_begins_iff _ (networkOpening bridgeUp) (bytes "]\x7d") 256
    buf.length networkEntry list buf
    (Json.Document (networkAnswer bridgeUp ((networked list).take k)))
    (PlainBegun bridgeUp buf.length list) k rfl
  rw [filterMap_networkEntry, ← List.map_take] at hiff
  rw [NetworkFits, filterMap_networkEntry]
  refine hiff hk (by decide) ?_ (not_document_network hsub)
  rw [document_network_iff hsub, plainBegun_iff hk]

end

/-- What an answer is to be: a count inside the buffer, and in front of it a text
of this kind. -/
def Answers (answer : Bytes × Int) (len : Nat) (Good : Bytes → Prop) : Prop :=
  0 ≤ answer.2 ∧ answer.2 < len ∧ Good (answer.1.take answer.2.toNat)

theorem answers_iff {o : OutBuf} {len : Nat} {Good : Bytes → Prop} :
    Answers (o.mem, o.written) len Good ↔ o.written < len ∧ Good (o.mem.take o.written) := by
  simp only [Answers, Int.natCast_nonneg, true_and, Int.ofNat_lt, Int.toNat_natCast]

/-- The result of `container_json_all` is inside the buffer and well-formed
exactly if the records that are begun fit. So is that of `container_network_json`
if no string begun that it prints as it is needs an escape; and it stands for the
records begun exactly if they fit and none does. -/
theorem container_json_iff {clock : Clock 32} {now : Int} {bridgeUp : Bool}
    {list : List ApiContainer} {buf : Bytes} (hfit : ∀ a ∈ list, FieldsFit a.record)
    (hlen : 2 < buf.length) :
    let records := list.map (·.record)
    (Answers (containerJsonAll clock now bridgeUp list buf) buf.length Json.WellFormed ↔
      ContainersFit clock now bridgeUp buf.length list) ∧
    (PlainBegun bridgeUp buf.length records →
      (Answers (containerNetworkJson bridgeUp records buf) buf.length Json.WellFormed ↔
        NetworkFits bridgeUp buf.length records)) ∧
    ∃ k, NetworkBegun bridgeUp buf.length records k ∧
      (Answers (containerNetworkJson bridgeUp records buf) buf.length
          (Json.Document (networkAnswer bridgeUp ((networked records).take k))) ↔
        NetworkFits bridgeUp buf.length records ∧ PlainBegun bridgeUp buf.length records) := by
  intro records
  have hrecords : ∀ c ∈ records, FieldsFit c := List.forall_mem_map.mpr hfit
  have hguard := Nat.not_le.mpr hlen
  refine ⟨?_, fun hplain => ?_, ?_⟩
  · rw [← writeContainers_iff hfit buf, containerJsonAll, if_neg hguard]
    exact answers_iff
  · rw [← writeNetwork_iff hrecords buf hplain, containerNetworkJson, if_neg hguard]
    exact answers_iff
  · obtain ⟨k, hk⟩ := OutBuf.exists_begins (networkOpening bridgeUp) 256 buf.length
      ((networked records).map networkText)
    refine ⟨k, hk, ?_⟩
    rw [← writeNetwork_exact hrecords buf hk, containerNetworkJson, if_neg hguard]
    exact answers_iff

def shortRecord : Container where
  ptr := 1
  id := bytes "container-0001"
  name := bytes "web"
  pid := 7
  hostname := bytes "web"
  rootfs := bytes "./rootfs"
  commandLine := bytes "sleep 5"
  logPath := []
  imageRef := []
  resourceLimits := ⟨30, 256, 32⟩
  ipAddress := bytes "172.17.0.2"
  vethHost := bytes "veth0001"
  portMaps := []
  security := securityConfigDefault
  state := .running
  startedAt := 0
  stoppedAt := 0
  exitCode := -1
  oomKillCount := 0

/-- Records with short strings, in the buffer of the web server. -/
theorem container_json_short :
    let list : List ApiContainer := List.replicate 1000 ⟨shortRecord, []⟩
    let records := list.map (·.record)
    ∃ buf : Bytes, buf.length = 262144 ∧
      Answers (containerJsonAll epochClock 0 true list buf) buf.length Json.WellFormed ∧
      Answers (containerNetworkJson true records buf) buf.length Json.WellFormed ∧
      ∃ k, NetworkBegun true buf.length records k ∧
        Answers (containerNetworkJson true records buf) buf.length
          (Json.Document (networkAnswer true ((networked records).take k))) := by
  intro list records
  obtain ⟨buf, hbuf⟩ : ∃ buf : Bytes, buf.length = 262144 :=
    ⟨List.replicate 262144 0, List.length_replicate⟩
  have heq : ∀ a ∈ list, a = ⟨shortRecord, []⟩ := fun a ha => List.eq_of_mem_replicate ha
  have hrecords : ∀ c ∈ records, c = shortRecord := by
    intro c hc
    obtain ⟨a, ha, rfl⟩ := List.mem_map.mp hc
    rw [heq a ha]
  have hfit : ∀ a ∈ list, FieldsFit a.record := by
    intro a ha
    rw [heq a ha]
    constructor
    all_goals decide
  have hplain : PlainBegun true buf.length records := by
    intro pre c post hsplit _
    have hc : c ∈ networked records := hsplit ▸ List.mem_append_right _ List.mem_cons_self
    rw [hrecords c (List.mem_filter.mp hc).1]
    exact ⟨by decide, by decide, by decide⟩
  -- an entry takes less than 256 bytes
  have hfits : NetworkFits true buf.length records := by
    rw [hbuf]
    refine OutBuf.fits_of_le (by decide) fun t ht => ?_
    obtain ⟨c, hc, hentry⟩ := List.mem_filterMap.mp ht
    rw [hrecords c hc] at hentry
    have hlen : ∀ t, networkEntry shortRecord = some t → 1 + t.length + 2 ≤ 256 := by
      decide +kernel
    exact hlen t hentry
  obtain ⟨hall, hnetwork, k, hk, hexact⟩ :=
    @container_json_iff epochClock 0 true list buf hfit (by omega)
  refine ⟨buf, hbuf, hall.mpr ?_, (hnetwork hplain).mpr hfits, k, hk, hexact.mpr ⟨hfits, hplain⟩⟩
  rw [hbuf]
  refine OutBuf.fits_of_le (by decide) fun t ht => ?_
  obtain ⟨a, ha, rfl⟩ := List.mem_map.mp ht
  rw [heq a ha]
  decide +kernel

/-- A record that takes 1827 bytes. -/
def longRecord : Container :=
  { shortRecord with
    rootfs := List.replicate 511 34
    commandLine := List.replicate 255 34
    ipAddress := []
    vethHost := []
    pid := -1
    state := .created }

theorem length_longRecord :
    (containerText epochClock 0 true ⟨longRecord, []⟩).length = 1827 := by
  have hrootfs : (escaped (rootfsLen * 2) longRecord.rootfs).length = 1024 :=
    @length_escaped_quotes (rootfsLen * 2) 511 (by decide)
  have hcommand : (escaped (commandLen * 2) longRecord.commandLine).length = 512 :=
    @length_escaped_quotes (commandLen * 2) 255 (by decide)
  have hne : containerMembers epochClock 0 true ⟨longRecord, []⟩ ≠ [] := List.cons_ne_nil _ _
  rw [containerText, Json.length_object hne]
  simp only [containerMembers, List.map_cons, List.map_nil, List.sum_cons, List.sum_nil]
  rw [hrootfs, hcommand]
  decide +kernel

/-- One record with a network, in a buffer that has room for another. -/
theorem answers_single {c : Container} {buf : Bytes} {Good : Bytes → Prop}
    (hentry : networkEntry c = some (networkText c))
    (hroom : (networkOpening true).length + (networkText c).length + 256 < buf.length) :
    Answers (containerNetworkJson true [c] buf) buf.length Good ↔
      Good (Json.object (networkTop true [networkText c])) := by
  have hentries : [c].filterMap networkEntry = [networkText c] := by
    rw [List.filterMap_cons, hentry, List.filterMap_nil]
  have hbody : OutBuf.body (networkOpening true) [networkText c] =
      networkOpening true ++ networkText c := by
    rw [OutBuf.body, List.intercalate_singleton]
  have hwhole : OutBuf.Whole (networkOpening true) (bytes "]\x7d") 256 buf.length
      [networkText c] := by
    refine OutBuf.whole_singleton (by omega) ?_
    have htail : (bytes "]\x7d").length = 2 := rfl
    omega
  rw [containerNetworkJson, if_neg (by omega), answers_iff, writeNetwork]
  have hfits := hwhole.fits
  rw [← hentries] at hfits
  obtain ⟨k, hheld, -, hend⟩ := @OutBuf.writeList_of_fits _ (networkOpening true) (bytes "]\x7d")
    256 buf.length networkEntry [c] buf rfl hfits
  rw [hentries] at hheld hend
  rw [hwhole.begun.take_eq hend, body_network] at hheld
  rw [hheld.take]
  exact ⟨fun h => h.2, fun h => ⟨hheld.lt, h⟩⟩

/-- A record whose port map was given as `80:80/"`. -/
def quoteRecord : Container :=
  { shortRecord with portMaps := bridgeParsePortMaps (bytes "80:80/\"") 8 }

/-- The quote leaves the rest of the text inside a string. -/
theorem not_wellFormed_quoteRecord :
    ¬ Json.WellFormed (Json.object (networkTop true [networkText quoteRecord])) := by
  intro h
  have hbalanced := h.balanced 0
  revert hbalanced
  decide +kernel

/-- A record with an address that makes a member of its own. -/
def memberRecord : Container := { shortRecord with ipAddress := bytes "a\",\"x\":\"b" }

theorem denotes_strings {ms : List (String × Bytes)}
    (h : ∀ m ∈ ms, Json.Plain (bytes m.1) ∧ Json.Plain m.2) :
    Json.Denotes (.obj (ms.map fun m => (bytes m.1, .str m.2)))
      (Json.object (ms.map fun m => (m.1, Json.quoted m.2))) := by
  refine Json.denotes_object ?_
  rw [List.forall₂_map_left_iff, List.forall₂_map_right_iff, List.forall₂_same]
  exact fun m hm => Json.memberOf (h m hm).1 (.str (h m hm).2.chars)

/-- By accident a text can be well-formed with a string in it that needs escapes,
so the converse is about what the text stands for. -/
theorem wellFormed_memberRecord :
    ¬ NetworkPlain memberRecord ∧
      Json.WellFormed (Json.object (networkTop true [networkText memberRecord])) := by
  refine ⟨fun h => absurd h.ip (by decide), ?_⟩
  let ms : List (String × Bytes) :=
    [("id", bytes "container-0001"), ("name", bytes "web"), ("state", bytes "RUNNING"),
      ("ip", bytes "a"), ("x", bytes "b"), ("veth_host", bytes "veth0001"), ("ports", [])]
  have htext : networkText memberRecord = Json.object (ms.map fun m => (m.1, Json.quoted m.2)) := by
    decide +kernel
  have hmembers : ∀ m ∈ ms, Json.Plain (bytes m.1) ∧ Json.Plain m.2 := by decide
  have hentry : ∀ t ∈ [networkText memberRecord], ∃ v, Json.Denotes v t := by
    intro t ht
    rw [List.mem_singleton.mp ht, htext]
    exact ⟨_, denotes_strings hmembers⟩
  obtain ⟨v, hv⟩ := Json.exists_denotes_array hentry
  have hip : Json.Plain (bytes "172.17.0.1") := by decide
  have hobject : Json.Denotes
      (.obj [(bytes "bridge_up", .bool true), (bytes "bridge_ip", .str (bytes "172.17.0.1")),
        (bytes "containers", v)]) (Json.object (networkTop true [networkText memberRecord])) :=
    Json.denotes_object (.cons (Json.memberOf (by decide) (Json.denotes_boolText _))
      (.cons (Json.memberOf (by decide) (.str hip.chars))
      (.cons (Json.memberOf (by decide) hv) .nil)))
  exact ⟨_, hobject.document⟩

/-- With records whose rootfs and command are all quotes, the 144th entry
overruns the buffer of the web server, and a quote in a port map breaks the text
of the network. -/
theorem not_container_json :
    (¬ ∀ (clock : Clock 32) (now : Int) (bridgeUp : Bool) (list : List ApiContainer) (buf : Bytes),
      (∀ a ∈ list, FieldsFit a.record) → 2 < buf.length →
        Answers (containerJsonAll clock now bridgeUp list buf) buf.length Json.WellFormed) ∧
    ¬ ∀ (bridgeUp : Bool) (list : List Container) (buf : Bytes),
      (∀ c ∈ list, FieldsFit c) → 2 < buf.length →
        Answers (containerNetworkJson bridgeUp list buf) buf.length Json.WellFormed := by
  constructor
  · intro hclaim
    obtain ⟨buf, hlen⟩ : ∃ buf : Bytes, buf.length = 262144 :=
      ⟨List.replicate 262144 0, List.length_replicate⟩
    have hbuf : 2 < buf.length := by omega
    have hfit : ∀ a ∈ List.replicate 144 (ApiContainer.mk longRecord []), FieldsFit a.record := by
      intro a ha
      rw [List.eq_of_mem_replicate ha]
      constructor
      all_goals decide +kernel
    have hresult := hclaim epochClock 0 true _ buf hfit hbuf
    rw [containerJsonAll, if_neg (Nat.not_le.mpr hbuf), answers_iff, writeContainers_iff hfit, hlen,
      ContainersFit, List.map_replicate] at hresult
    -- 143 entries do not fit in front of the last
    refine @OutBuf.not_fits_replicate [91] [93] 512 262144 _ 142 0 ?_ ?_ hresult
    · rw [length_longRecord]
      decide
    · rw [length_longRecord]
      decide
  · intro hclaim
    obtain ⟨buf, hlen⟩ : ∃ buf : Bytes, buf.length = 4096 :=
      ⟨List.replicate 4096 0, List.length_replicate⟩
    have hfit : ∀ c ∈ [quoteRecord], FieldsFit c := by
      intro c hc
      rw [List.mem_singleton.mp hc]
      constructor
      all_goals decide
    have hroom : (networkOpening true).length + (networkText quoteRecord).length + 256 < 4096 := by
      decide +kernel
    have hgood := hclaim true [quoteRecord] buf hfit (by omega)
    rw [answers_single (by decide +kernel) (by omega)] at hgood
    exact not_wellFormed_quoteRecord hgood

/-! ## The answer for one container -/

theorem length_fmtInt_int {i : Int} (h : -2 ^ 31 ≤ i ∧ i < 2 ^ 31) : (fmtInt i).length ≤ 11 :=
  @length_fmtInt_le i 10 (by omega) (by omega)

theorem length_fmtNat_uint (n : UInt32) : (fmtNat n.toNat).length ≤ 10 := by
  have hlt := n.toNat_lt
  exact fmtNat_length_le (by omega) (by omega)

theorem length_boolText (b : Bool) : (Json.boolText b).length ≤ 5 := by
  cases b <;> decide

theorem fmtHex_spec (n : UInt64) : Json.Plain (fmtHex n) ∧ (fmtHex n).length ≤ 16 := by
  refine ⟨?_, fmtBase_length_le (by omega) (by omega) ?_⟩
  · exact Json.plain_of_isDigit (fmtBase_isDigit (by omega) (by omega) n.toNat)
  · have hlt := n.toNat_lt
    omega

def inspectKeys : List String :=
  ["id", "name", "hostname", "state", "pid", "command", "image", "rootfs", "log_path", "started_at",
    "stopped_at", "exit_code", "ip", "ports", "veth_host", "cpu_seconds", "memory_mb",
    "max_processes", "privileged", "readonly_rootfs", "seccomp", "cap_keep"]

/-- The text of a record is within the buffer of the web server. -/
theorem length_inspect {clock : Clock 32} {c : Container} (h : FieldsFit c) :
    (Json.object (inspectMembers clock c)).length < 4096 := by
  have hkeys : (inspectMembers clock c).map Prod.fst = inspectKeys := rfl
  -- the names of the members with quotes, colons and commas
  have hsum : (inspectKeys.map fun k => (bytes k).length + 4).sum = 254 := by decide
  have hne : inspectMembers clock c ≠ [] := List.cons_ne_nil _ _
  have hfield : ∀ (dstSize : Nat) (src : Bytes), 0 < dstSize →
      (escaped dstSize src).length ≤ dstSize + 1 := fun _ src hpos => length_escaped_le hpos src
  have hid := hfield (idLen * 2) c.id (by decide)
  have hname := hfield (nameLen * 2) c.name (by decide)
  have hhostname := hfield (hostnameLen * 2) c.hostname (by decide)
  have hcommand := hfield (commandLen * 2) c.commandLine (by decide)
  have himage := hfield (imageRefLen * 2) c.imageRef (by decide)
  have hrootfs := hfield (rootfsLen * 2) c.rootfs (by decide)
  have hlog := hfield (logPathLen * 2) c.logPath (by decide)
  have hip := hfield 32 c.ipAddress (by decide)
  have hports := hfield 256 (portsText c) (by decide)
  have hstate := (stateToString_spec c.state).2
  have hstarted := (timeText_spec clock c.startedAt).1
  have hstopped := (timeText_spec clock c.stoppedAt).1
  have hpid := length_fmtInt_int h.pid
  have hexit := length_fmtInt_int h.exitCode
  have hveth := h.vethHost
  have hcpu := length_fmtNat_uint c.resourceLimits.cpuSeconds
  have hmemory := length_fmtNat_uint c.resourceLimits.memoryMb
  have hprocesses := length_fmtNat_uint c.resourceLimits.maxProcesses
  have hprivileged := length_boolText (c.security.privileged ≠ 0)
  have hreadonly := length_boolText (c.security.readonlyRootfs ≠ 0)
  have hseccomp := length_boolText (c.security.seccompEnabled ≠ 0)
  have hcap := (fmtHex_spec c.security.capKeep).2
  have hprefix : (bytes "0x").length = 2 := rfl
  rw [Json.length_object hne, hkeys, hsum]
  simp only [inspectMembers, List.map_cons, List.map_nil, List.sum_cons, List.sum_nil,
    Json.length_quoted, List.length_append]
  unfold idLen nameLen hostnameLen commandLen imageRefLen rootfsLen logPathLen at *
  omega

theorem denotes_inspect {clock : Clock 32} {c : Container} (h : FieldsFit c)
    (hveth : Json.Plain c.vethHost) :
    Json.Denotes (inspectValue clock c) (Json.object (inspectMembers clock c)) := by
  obtain ⟨hid, hname, hhost, hrootfs, hcommand, hlog, himage, hip, -, -, -⟩ := h
  have hports := length_portsText c
  have hcap : Json.Plain (bytes "0x" ++ fmtHex c.security.capKeep) := by
    intro d hd
    rcases List.mem_append.mp hd with hd | hd
    · exact (show Json.Plain (bytes "0x") by decide) d hd
    · exact (fmtHex_spec c.security.capKeep).1 d hd
  refine Json.denotes_object ?_
  refine .cons (Json.memberOf (by decide) (denotes_escaped (by omega))) ?_
  refine .cons (Json.memberOf (by decide) (denotes_escaped (by omega))) ?_
  refine .cons (Json.memberOf (by decide) (denotes_escaped (by omega))) ?_
  refine .cons (Json.memberOf (by decide) (.str (stateToString_spec _).1.chars)) ?_
  refine .cons (Json.memberOf (by decide) (.num (numberText_fmtInt _))) ?_
  refine .cons (Json.memberOf (by decide) (denotes_escaped (by omega))) ?_
  refine .cons (Json.memberOf (by decide) (denotes_escaped (by omega))) ?_
  refine .cons (Json.memberOf (by decide) (denotes_escaped (by omega))) ?_
  refine .cons (Json.memberOf (by decide) (denotes_escaped (by omega))) ?_
  refine .cons (Json.memberOf (by decide) (.str (timeText_spec clock _).2.chars)) ?_
  refine .cons (Json.memberOf (by decide) (.str (timeText_spec clock _).2.chars)) ?_
  refine .cons (Json.memberOf (by decide) (.num (numberText_fmtInt _))) ?_
  refine .cons (Json.memberOf (by decide) (denotes_escaped (by omega))) ?_
  refine .cons (Json.memberOf (by decide) (denotes_escaped (by omega))) ?_
  refine .cons (Json.memberOf (by decide) (.str hveth.chars)) ?_
  refine .cons (Json.memberOf (by decide) (.num (numberText_fmtNat _))) ?_
  refine .cons (Json.memberOf (by decide) (.num (numberText_fmtNat _))) ?_
  refine .cons (Json.memberOf (by decide) (.num (numberText_fmtNat _))) ?_
  refine .cons (Json.memberOf (by decide) (Json.denotes_boolText _)) ?_
  refine .cons (Json.memberOf (by decide) (Json.denotes_boolText _)) ?_
  refine .cons (Json.memberOf (by decide) (Json.denotes_boolText _)) ?_
  exact .cons (Json.memberOf (by decide) (.str hcap.chars)) .nil

/-- A record that is found is answered in full: the result is below the size of
the buffer, and what is read from the text is the object of the record, with its
strings as they are but for control characters. -/
theorem inspect_json_fits {clock : Clock 32} {o : PollOutcome} {id : Bytes} {m : Manager}
    {c : Container} {buf : Bytes} (hfound : findContainer (pollStates o m).list id = some c)
    (hfit : FieldsFit c) (hveth : Json.Plain c.vethHost) (hbuf : buf.length = 4096) :
    let result := (containerInspectJson clock o id m buf).2
    0 ≤ result.2 ∧ result.2 < 4096 ∧
      ∀ v, Json.Document v (result.1.take result.2.toNat) ↔ v = inspectValue clock c := by
  intro result
  have hlen := @length_inspect clock c hfit
  have hresult : result =
      ((OutBuf.snprintf { mem := buf, written := 0 } (Json.object (inspectMembers clock c))).mem,
        ((OutBuf.snprintf { mem := buf, written := 0 }
          (Json.object (inspectMembers clock c))).written : Int)) := by
    show (containerInspectJson clock o id m buf).2 = _
    rw [containerInspectJson, if_neg (by omega)]
    simp only [hfound]
  have hholds : OutBuf.Holds
      (OutBuf.snprintf { mem := buf, written := 0 } (Json.object (inspectMembers clock c))) 4096
      (Json.object (inspectMembers clock c)) := by
    refine OutBuf.snprintf_fits (t := []) (m := buf) hbuf ?_
    rwa [List.length_nil, Nat.zero_add]
  rw [hresult]
  refine ⟨Int.natCast_nonneg _, Int.ofNat_lt.mpr hholds.lt, ?_⟩
  rw [Int.toNat_natCast, hholds.take]
  exact (denotes_inspect hfit hveth).document.iff

/-- A record whose name and command need escapes. -/
theorem inspect_json_quotes :
    let c : Container :=
      { ptr := 1, id := bytes "container-0001", name := bytes "a\"b", pid := -1
        hostname := bytes "h\\", rootfs := bytes "./rootfs", commandLine := bytes "echo\t\"x\"\n"
        logPath := [], imageRef := [], resourceLimits := ⟨30, 256, 32⟩, ipAddress := [], vethHost := []
        portMaps := [], security := securityConfigDefault, state := .created, startedAt := 0
        stoppedAt := 0, exitCode := -1, oomKillCount := 0 }
    ∃ buf : Bytes, buf.length = 4096 ∧
      let result := (containerInspectJson epochClock .quiet c.id { Manager.init with list := [c] } buf).2
      0 ≤ result.2 ∧ result.2 < 4096 ∧
        ∀ v, Json.Document v (result.1.take result.2.toNat) ↔ v = inspectValue epochClock c := by
  intro c
  obtain ⟨buf, hbuf⟩ : ∃ buf : Bytes, buf.length = 4096 :=
    ⟨List.replicate 4096 0, List.length_replicate⟩
  have hfit : FieldsFit c := by
    constructor
    all_goals decide
  exact ⟨buf, hbuf, inspect_json_fits rfl hfit (by decide) hbuf⟩

end ContainerSim.Runtime
