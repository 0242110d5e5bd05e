import ContainerSim.Orch.Json
import ContainerSim.Orch.System

/-!
# From the file to the spec

`parse_service` and `orch_parse_spec`. Every string of a service is cut to its
array, at most 8 dependencies and 32 services are kept, and the fields of a
health check are clamped to their ranges.
-/

namespace ContainerSim.Orch

open Lib

/-- What reading the spec file gives. -/
inductive SpecFile where
  | missing (strerror : Bytes)
  | unreadable
  | content (text : Bytes)

inductive SpecError where
  | cannotOpen (strerror : Bytes)
  | readError
  | empty
  | json (err : Bytes)
  | noServices
  deriving DecidableEq, Repr

/-- The line printed for an error. -/
def SpecError.text (path : Bytes) : SpecError → Bytes
  | .cannotOpen strerror =>
    bytes "[orch] cannot open spec '" ++ path ++ bytes "': " ++ strerror ++ bytes "\n\n"
  | .readError => bytes "[orch] error reading spec '" ++ path ++ bytes "'\n\n"
  | .empty => bytes "[orch] spec '" ++ path ++ bytes "' is empty\n\n"
  | .json err =>
    bytes "[orch] JSON parse error: " ++
      (if err ≠ [] then err else bytes "root must be an object") ++ bytes "\n\n"
  | .noServices => bytes "[orch] spec missing 'services' object\n\n"

def clamp (low high x : Int) : Int := if x < low then low else if x > high then high else x

section
variable (toInt : Bytes → Int)

/-- A string member, `""` when there is none. -/
def strMember (obj : JNode) (key : Bytes) : Bytes := ((jpGet obj key).bind jpStr).getD []

def intMember (obj : JNode) (key : Bytes) (default : Int) : Int :=
  jpInt toInt (jpGet obj key) default

/-- The health check of a service; one without a command is not enabled. -/
def parseHealth (sobj : JNode) : HealthCheck :=
  match jpGet sobj (bytes "health_check") with
  | some (.obj kv) =>
    let hc := JNode.obj kv
    let exec := strMember hc (bytes "exec")
    if exec = [] then Service.zero.health
    else
      { exec := snprintfStr cmdLen exec, enabled := true
        intervalMs := clamp 100 300000 (intMember toInt hc (bytes "interval_ms") 5000)
        timeoutMs := clamp 100 60000 (intMember toInt hc (bytes "timeout_ms") 1000)
        retries := clamp 1 100 (intMember toInt hc (bytes "retries") 3)
        startPeriodMs := clamp 0 300000 (intMember toInt hc (bytes "start_period_ms") 1000) }
  | _ => Service.zero.health

def parseRestart (sobj : JNode) : RestartPolicy :=
  match (jpGet sobj (bytes "restart")).bind jpStr with
  | some rp =>
    if rp = bytes "always" then .always
    else if rp = bytes "on-failure" then .onFailure
    else .never
  | none => .never

/-- The strings of the `depends_on` array, all of them. -/
def dependsOnOf (sobj : JNode) : List Bytes :=
  match jpGet sobj (bytes "depends_on") with
  | some (.arr v) => v.filterMap jpStr
  | _ => []

/-- `parse_service`. -/
def parseService (sobj : JNode) (name : Bytes) : Service :=
  { Service.zero with
    name := snprintfStr svcNameLen name
    image := snprintfStr imgLen (strMember sobj (bytes "image"))
    command := snprintfStr cmdLen (strMember sobj (bytes "command"))
    restart := parseRestart sobj
    maxRestarts := clamp 0 1000 (intMember toInt sobj (bytes "max_restarts") 0)
    deps := ((dependsOnOf sobj).take maxDeps).map (snprintfStr svcNameLen)
    health := parseHealth toInt sobj }

/-- `orch_parse_spec`; `toInt` is `(int)atof(buf)`. -/
def orchParseSpec (path : Bytes) : SpecFile → Except SpecError OrchestratorSpec
  | .missing strerror => .error (.cannotOpen strerror)
  | .unreadable => .error .readError
  | .content text =>
    let fbuf := text.take (64 * 1024 - 1)
    if fbuf = [] then .error .empty
    else
      match jpParseValue jpMaxDepth (.init fbuf) with
      | (_, some (.obj kv)) =>
        let root := JNode.obj kv
        match jpGet root (bytes "services") with
        | some (.obj svcs) =>
          .ok
            { specPath := snprintfStr 256 path
              name := snprintfStr svcNameLen
                (((jpGet root (bytes "name")).bind jpStr).getD (bytes "unnamed"))
              services := (svcs.take maxServices).map fun m => parseService toInt m.2 m.1 }
        | _ => .error .noServices
      | (p, _) => .error (.json p.err)

end

/-! ## What every parsed spec satisfies -/

theorem clamp_spec {low high : Int} (h : low ≤ high) (x : Int) :
    low ≤ clamp low high x ∧ clamp low high x ≤ high := by
  unfold clamp
  split
  · exact ⟨Int.le_refl _, h⟩
  split
  · exact ⟨h, Int.le_refl _⟩
  · omega

theorem orchParseSpec_services {toInt : Bytes → Int} {path : Bytes} {file : SpecFile}
    {spec : OrchestratorSpec} (h : orchParseSpec toInt path file = .ok spec) :
    ∃ svcs : List (Bytes × JNode),
      spec.services = (svcs.take maxServices).map fun m => parseService toInt m.2 m.1 := by
  cases file with
  | missing strerror => cases h
  | unreadable => cases h
  | content text =>
    unfold orchParseSpec at h
    simp only at h
    split at h
    · cases h
    split at h
    · split at h
      · cases h
        exact ⟨_, rfl⟩
      · cases h
    · cases h

/-- Nothing of the runtime fields is set by the parser. -/
theorem orchParseSpec_fresh {toInt : Bytes → Int} {path : Bytes} {file : SpecFile}
    {spec : OrchestratorSpec} (h : orchParseSpec toInt path file = .ok spec) : spec.Fresh := by
  obtain ⟨svcs, hsvcs⟩ := orchParseSpec_services h
  intro svc hsvc
  rw [hsvcs] at hsvc
  obtain ⟨m, -, rfl⟩ := List.mem_map.mp hsvc
  exact ⟨rfl, rfl, rfl, rfl, rfl, rfl⟩

/-- The ranges that the parser enforces. -/
structure Service.InRange (svc : Service) : Prop where
  maxRestarts : 0 ≤ svc.maxRestarts ∧ svc.maxRestarts ≤ 1000
  retries : svc.health.enabled = true → 1 ≤ svc.health.retries ∧ svc.health.retries ≤ 100
  exec : svc.health.enabled = true → svc.health.exec ≠ []
  deps : svc.deps.length ≤ maxDeps

theorem parseService_inRange (toInt : Bytes → Int) (sobj : JNode) (name : Bytes) :
    (parseService toInt sobj name).InRange := by
  have hhealth : (parseHealth toInt sobj).enabled = true →
      (1 ≤ (parseHealth toInt sobj).retries ∧ (parseHealth toInt sobj).retries ≤ 100) ∧
      (parseHealth toInt sobj).exec ≠ [] := by
    unfold parseHealth
    split
    · simp only
      split
      · exact nofun
      · rename_i hexec
        refine fun _ => ⟨clamp_spec (by omega) _, fun hcut => hexec ?_⟩
        have hlen := congrArg List.length hcut
        rw [snprintfStr, List.length_take] at hlen
        simp only [cmdLen, List.length_nil] at hlen
        exact List.length_eq_zero_iff.mp (by omega)
    · exact nofun
  refine ⟨clamp_spec (by omega) _, fun h => (hhealth h).1, fun h => (hhealth h).2, ?_⟩
  show (((dependsOnOf sobj).take maxDeps).map _).length ≤ maxDeps
  rw [List.length_map]
  exact List.length_take_le _ _

theorem orchParseSpec_inRange {toInt : Bytes → Int} {path : Bytes} {file : SpecFile}
    {spec : OrchestratorSpec} (h : orchParseSpec toInt path file = .ok spec) :
    ∀ svc ∈ spec.services, svc.InRange := by
  obtain ⟨svcs, hsvcs⟩ := orchParseSpec_services h
  intro svc hsvc
  rw [hsvcs] at hsvc
  obtain ⟨m, -, rfl⟩ := List.mem_map.mp hsvc
  exact parseService_inRange toInt m.2 m.1

end ContainerSim.Orch
