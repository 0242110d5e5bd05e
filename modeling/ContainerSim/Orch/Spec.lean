import ContainerSim.Lib.Bytes

/-!
# Orchestrator specifications

The data model of `orchestrator.h` and the two static passes over it: name
lookup (`findSvc`), Kahn's algorithm (`topoSort`) and validation
(`orchValidate`). A C array with its fill count is the list of its filled
entries, so `count` is the number of services and `dep_count` the length of
`deps`; `OrchestratorSpec.Fits` states the array capacities.
-/

namespace ContainerSim.Orch

open Lib

def maxServices : Nat := 32
def maxDeps : Nat := 8
def svcNameLen : Nat := 64
def imgLen : Nat := 64
def cmdLen : Nat := 256

inductive RestartPolicy where
  | never | onFailure | always
  deriving DecidableEq, Repr

structure HealthCheck where
  exec : Bytes
  intervalMs : Int
  timeoutMs : Int
  retries : Int
  startPeriodMs : Int
  enabled : Bool
  deriving DecidableEq, Repr

inductive ServiceState where
  | pending | starting | running | healthy | unhealthy | stopped | failed | restarting
  deriving DecidableEq, Repr

/-- One service: what the spec says of it, then the runtime fields the
orchestrator manages. -/
structure Service where
  name : Bytes
  image : Bytes
  command : Bytes
  restart : RestartPolicy
  maxRestarts : Int
  health : HealthCheck
  deps : List Bytes
  containerId : Bytes
  state : ServiceState
  restartCount : Int
  healthFailCount : Int
  startedAt : Int
  lastHealthCheck : Int
  deriving DecidableEq, Repr

/-- The all-zero record `memset` leaves. -/
def Service.zero : Service :=
  { name := [], image := [], command := [], restart := .never, maxRestarts := 0
    health := { exec := [], intervalMs := 0, timeoutMs := 0, retries := 0
                startPeriodMs := 0, enabled := false }
    deps := [], containerId := [], state := .pending, restartCount := 0
    healthFailCount := 0, startedAt := 0, lastHealthCheck := 0 }

structure OrchestratorSpec where
  name : Bytes
  specPath : Bytes
  services : List Service
  deriving DecidableEq, Repr

namespace OrchestratorSpec

/-- `spec->count`. -/
def count (spec : OrchestratorSpec) : Nat := spec.services.length

/-- `spec->services[i].deps[0 .. dep_count)`. -/
def depsOf (spec : OrchestratorSpec) (i : Nat) : List Bytes :=
  ((spec.services[i]?).map Service.deps).getD []

/-- The capacities of the C arrays. -/
def Fits (spec : OrchestratorSpec) : Prop :=
  spec.count ≤ maxServices ∧ ∀ s ∈ spec.services, s.deps.length ≤ maxDeps

instance (spec : OrchestratorSpec) : Decidable spec.Fits := by
  unfold Fits; infer_instance

end OrchestratorSpec

/-- Index of the first service called `name`; `none` stands for `-1`. -/
def findSvc (spec : OrchestratorSpec) (name : Bytes) : Option Nat :=
  spec.services.findIdx? fun s => s.name = name

/-! ## Kahn's algorithm -/

/-- The locals of `topo_sort`. `queue` holds `queue[0 .. qt)` and `order` holds
`order[0 .. cnt)`, so the next writes go to index `queue.length` and
`order.length`. -/
structure Topo where
  indegree : Nat → Int
  queue : List Nat
  qh : Nat
  order : List Nat

/-- `a[i] = v`. -/
def upd (a : Nat → Int) (i : Nat) (v : Int) : Nat → Int :=
  fun k => if k = i then v else a k

/-- Body of the counting loop: one dependency entry of service `i`. -/
def countDep (spec : OrchestratorSpec) (i : Nat) (indegree : Nat → Int) (dep : Bytes) :
    Nat → Int :=
  match findSvc spec dep with
  | some _ => upd indegree i (indegree i + 1)
  | none => indegree

/-- The counting loop over all services. -/
def initIndegree (spec : OrchestratorSpec) : Nat → Int :=
  (List.range spec.count).foldl
    (fun indegree i => (spec.depsOf i).foldl (countDep spec i) indegree) (fun _ => 0)

/-- The locals when the `while` loop is entered. -/
def topoInit (spec : OrchestratorSpec) : Topo :=
  let indegree := initIndegree spec
  { indegree
    queue := (List.range spec.count).foldl
      (fun queue i => if indegree i = 0 then queue ++ [i] else queue) []
    qh := 0
    order := [] }

/-- Innermost loop body: dependency entry `dep` of service `i` is released when
it resolves to `cur`. -/
def relaxDep (spec : OrchestratorSpec) (cur i : Nat) (t : Topo) (dep : Bytes) : Topo :=
  if findSvc spec dep = some cur then
    let d := t.indegree i - 1
    { t with
      indegree := upd t.indegree i d
      queue := if d = 0 then t.queue ++ [i] else t.queue }
  else t

/-- All dependency entries of service `i`. -/
def relaxSvc (spec : OrchestratorSpec) (cur : Nat) (t : Topo) (i : Nat) : Topo :=
  (spec.depsOf i).foldl (relaxDep spec cur i) t

/-- One round of the `while` loop with `cur` at the head of the queue. -/
def topoRound (spec : OrchestratorSpec) (cur : Nat) (t : Topo) : Topo :=
  (List.range spec.count).foldl (relaxSvc spec cur)
    { t with qh := t.qh + 1, order := t.order ++ [cur] }

/-- At most `fuel` rounds of `while (qh < qt)`. -/
def topoLoop (spec : OrchestratorSpec) : Nat → Topo → Topo
  | 0, t => t
  | fuel + 1, t =>
    match t.queue[t.qh]? with
    | some cur => topoLoop spec fuel (topoRound spec cur t)
    | none => t

/-- The locals of `topo_sort` when the loop has ended; no index is queued
twice, so `count` rounds are enough (`topoLoop_exits`). -/
def topoFinal (spec : OrchestratorSpec) : Topo :=
  topoLoop spec spec.count (topoInit spec)

/-- Return value and the filled part of `order`. -/
def topoSort (spec : OrchestratorSpec) : Int × List Nat :=
  let t := topoFinal spec
  (if t.order.length = spec.count then (t.order.length : Int) else -1, t.order)

/-! ## Validation -/

/-- What `orch_validate` can complain about. -/
inductive Diag where
  | missingImage (svc : Bytes)
  | missingCommand (svc : Bytes)
  | unknownDep (svc dep : Bytes)
  | cycle
  deriving DecidableEq, Repr

/-- The line printed for a complaint. -/
def Diag.text : Diag → Bytes
  | .missingImage svc => bytes "[orch] service '" ++ svc ++ bytes "': missing 'image' field\n"
  | .missingCommand svc =>
    bytes "[orch] service '" ++ svc ++ bytes "': missing 'command' field\n"
  | .unknownDep svc dep =>
    bytes "[orch] service '" ++ svc ++ bytes "': unknown dependency '" ++ dep ++ bytes "'\n"
  | .cycle => bytes "[orch] dependency cycle detected\n"

/-- The complaints about one service. -/
def checkService (spec : OrchestratorSpec) (s : Service) : List Diag :=
  (if s.image = [] then [.missingImage s.name] else []) ++
  (if s.command = [] then [.missingCommand s.name] else []) ++
  (s.deps.filter fun d => (findSvc spec d).isNone).map (.unknownDep s.name)

/-- All complaints, in the order they are printed. The cycle check runs only
when there is no other complaint. -/
def validateDiags (spec : OrchestratorSpec) : List Diag :=
  let diags := spec.services.flatMap (checkService spec)
  if diags = [] ∧ (topoSort spec).1 < 0 then diags ++ [.cycle] else diags

/-- `0` when the spec is valid, `-1` otherwise. -/
def orchValidate (spec : OrchestratorSpec) : Int :=
  if validateDiags spec = [] then 0 else -1

end ContainerSim.Orch
