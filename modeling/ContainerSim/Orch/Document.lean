import ContainerSim.Orch.JsonRound
import ContainerSim.Orch.ParseSpec
import ContainerSim.Orch.Writes

/-!
# From the document to the started containers

What `orch_run` starts, and in which order, said of the JSON document in the
spec file. The file goes through the parser, the arrays of `Service` and
`OrchestratorSpec`, the validation and the sort; `DocLimits` says when none of
them drops anything. A document past the limits may be accepted all the same
(`ninth_dependency_dropped`).
-/

namespace ContainerSim.Orch

open Lib ContainerSim.Runtime

/-- The members of the services object. -/
def servicesOf (root : JNode) : List (Bytes × JNode) :=
  match jpGet root (bytes "services") with
  | some (.obj svcs) => svcs
  | _ => []

/-- Member `i` names member `j` in its `depends_on`. -/
def Needs (root : JNode) (i j : Nat) : Prop :=
  ∃ m n, (servicesOf root)[i]? = some m ∧ (servicesOf root)[j]? = some n ∧ n.1 ∈ dependsOnOf m.2

/-- The document fits: the file into `fbuf`, its values into the buffers of the
parser, its services and their dependencies into the arrays of the spec, and
the names can be told apart once they are cut. -/
structure DocLimits (root : JNode) (text : Bytes) : Prop where
  file : text.length ≤ 64 * 1024 - 1
  values : root.Within
  services : (servicesOf root).length ≤ maxServices
  deps : ∀ m ∈ servicesOf root, (dependsOnOf m.2).length ≤ maxDeps
  names : ((servicesOf root).map fun m => snprintfStr svcNameLen m.1).Nodup

section
variable {toInt : Bytes → Int} {path text : Bytes} {root : JNode} {spec : OrchestratorSpec}

/-! ## Nothing is dropped on the way to the spec -/

/-- Each member of the services object is a service of the spec. -/
theorem orchParseSpec_document (hdoc : IsText root text) (hlim : DocLimits root text)
    (hparse : orchParseSpec toInt path (.content text) = .ok spec) :
    spec.services = (servicesOf root).map fun m => parseService toInt m.2 m.1 := by
  unfold orchParseSpec at hparse
  simp only [List.take_of_length_le hlim.file] at hparse
  split at hparse
  · cases hparse
  rcases jpParseValue_text hdoc hlim.values with ⟨q, hq⟩ | ⟨q, hq, -⟩
  · rw [hq] at hparse
    cases root with
    | obj kv =>
      simp only at hparse
      split at hparse
      · rename_i svcs hsvcs
        have hof : servicesOf (.obj kv) = svcs := by rw [servicesOf, hsvcs]
        have hcount : svcs.length ≤ maxServices := hof ▸ hlim.services
        cases hparse
        rw [hof, List.take_of_length_le hcount]
      · cases hparse
    | _ => cases hparse
  · rw [hq] at hparse
    cases hparse

theorem parseService_deps {sobj : JNode} (h : (dependsOnOf sobj).length ≤ maxDeps)
    (name : Bytes) : (parseService toInt sobj name).deps =
      (dependsOnOf sobj).map (snprintfStr svcNameLen) := by
  show ((dependsOnOf sobj).take maxDeps).map _ = _
  rw [List.take_of_length_le h]

variable (hspec : spec.services = (servicesOf root).map fun m => parseService toInt m.2 m.1)
  (hlim : DocLimits root text)
include hspec hlim

theorem depsOf_document {i : Nat} {m : Bytes × JNode} (hm : (servicesOf root)[i]? = some m) :
    spec.depsOf i = (dependsOnOf m.2).map (snprintfStr svcNameLen) := by
  rw [OrchestratorSpec.depsOf, hspec, List.getElem?_map, hm]
  exact parseService_deps (hlim.deps m (List.mem_of_getElem? hm)) m.1

/-- A cut name is found where its member stands. -/
theorem findSvc_document {j : Nat} {n : Bytes × JNode} (hn : (servicesOf root)[j]? = some n) :
    findSvc spec (snprintfStr svcNameLen n.1) = some j := by
  have hfind : findSvc spec (snprintfStr svcNameLen n.1) =
      ((servicesOf root).map fun m => snprintfStr svcNameLen m.1).findIdx?
        fun name => name = snprintfStr svcNameLen n.1 := by
    rw [findSvc, hspec, List.findIdx?_map, List.findIdx?_map]
    rfl
  obtain ⟨hj, hget⟩ := List.getElem?_eq_some_iff.mp hn
  rw [hfind, List.findIdx?_eq_some_iff_getElem]
  refine ⟨by rw [List.length_map]; exact hj, by simp [hget], ?_⟩
  intro k hk
  -- an earlier member of that name would be the same one
  simp only [List.getElem_map, decide_eq_true_eq]
  intro heq
  have hinj := List.nodup_iff_injective_getElem.mp hlim.names
  have hsame := @hinj ⟨k, by rw [List.length_map]; omega⟩ ⟨j, by rw [List.length_map]; exact hj⟩
    (by simp [heq, hget])
  simp only [Fin.mk.injEq] at hsame
  omega

theorem dependsOn_of_needs {i j : Nat} (h : Needs root i j) : DependsOn spec i j := by
  obtain ⟨m, n, hm, hn, hdep⟩ := h
  refine ⟨snprintfStr svcNameLen n.1, ?_, findSvc_document hspec hlim hn⟩
  rw [depsOf_document hspec hlim hm]
  exact List.mem_map_of_mem hdep

/-- Validation finds every name of a dependency among the members. -/
theorem named_of_valid (hvalid : orchValidate spec = 0) {m : Bytes × JNode}
    (hm : m ∈ servicesOf root) {dep : Bytes} (hdep : dep ∈ dependsOnOf m.2) :
    ∃ n ∈ servicesOf root, snprintfStr svcNameLen n.1 = snprintfStr svcNameLen dep := by
  have hsvc : parseService toInt m.2 m.1 ∈ spec.services := by
    rw [hspec]
    exact List.mem_map.mpr ⟨m, hm, rfl⟩
  have hentry : snprintfStr svcNameLen dep ∈ (parseService toInt m.2 m.1).deps := by
    rw [parseService_deps (hlim.deps m hm)]
    exact List.mem_map_of_mem hdep
  obtain ⟨-, hresolved⟩ := orchValidate_ok hvalid
  obtain ⟨j, hj⟩ := Option.isSome_iff_exists.mp ((hresolved _ hsvc).2.2 _ hentry)
  obtain ⟨svc, hmem, hname⟩ : ∃ svc ∈ spec.services, svc.name = snprintfStr svcNameLen dep := by
    obtain ⟨hlt, hname, -⟩ := List.findIdx?_eq_some_iff_getElem.mp hj
    exact ⟨_, List.getElem_mem hlt, of_decide_eq_true hname⟩
  rw [hspec] at hmem
  obtain ⟨n, hn, rfl⟩ := List.mem_map.mp hmem
  exact ⟨n, hn, hname⟩

end

/-! ## What is started -/

theorem parseService_static (toInt : Bytes → Int) (sobj : JNode) (name : Bytes) :
    (parseService toInt sobj name).static = parseService toInt sobj name := rfl

theorem svc_static_congr {s : Sys} {spec : OrchestratorSpec} (h : s.spec.static = spec.static)
    {i : Nat} {svc : Service} (hsvc : spec.services[i]? = some svc) :
    (s.svc i).static = svc.static := by
  have hmap : s.spec.services.map Service.static = spec.services.map Service.static :=
    congrArg OrchestratorSpec.services h
  have hat : (s.spec.services[i]?).map Service.static = some svc.static := by
    rw [← List.getElem?_map, hmap, List.getElem?_map, hsvc]
    rfl
  obtain ⟨svc', hsvc', heq⟩ := Option.map_eq_some_iff.mp hat
  rw [Sys.svc, hsvc']
  exact heq

/-- **Dependency order is honoured from the document to the containers**, for a
document within the limits. While and after `orch_run` works on it, service `i`
of the spec is member `i` of the document, every name in a `depends_on` is the
name of a member, and whatever has been started has been started behind all it
names. The loop cannot block, and behind it each member has been started once. -/
theorem document_order_honoured {toInt : Bytes → Int} {path text : Bytes} {root : JNode}
    {spec : OrchestratorSpec} (hdoc : IsText root text) (hlim : DocLimits root text)
    (hparse : orchParseSpec toInt path (.content text) = .ok spec) (hvalid : orchValidate spec = 0)
    {m : Manager} {as bs : List Action} {s s₁ s' : Sys} (hrun : Runs sysStep (Sys.init m) as s)
    (hdown : s.running = false) (hcall : sysStep s (.run ⟨spec, orchParseSpec_fresh hparse⟩) = some s₁)
    (hrest : Runs sysStep s₁ bs s') (hsame : s'.log.gen = s₁.log.gen) :
    (∀ i svc, (servicesOf root)[i]? = some svc →
      (s'.svc i).static = parseService toInt svc.2 svc.1) ∧
    (∀ svc ∈ servicesOf root, ∀ dep ∈ dependsOnOf svc.2, ∃ n ∈ servicesOf root,
      snprintfStr svcNameLen n.1 = snprintfStr svcNameLen dep) ∧
    s₁.cli.inRun = true ∧
    (s'.cli.inRun = true → ∀ o, ∃ s'', cliStep o s' = some s'' ∧
      s''.cli.remaining < s'.cli.remaining) ∧
    (s'.cli.inRun = false → s'.log.starts.Perm (List.range (servicesOf root).length)) ∧
    ∀ i j, Needs root i j → i ∈ s'.log.starts →
      s'.log.starts.idxOf j < s'.log.starts.idxOf i := by
  have hspec := orchParseSpec_document hdoc hlim hparse
  have hbegin := beginRun_accepts ⟨spec, orchParseSpec_fresh hparse⟩ hvalid hdown
  obtain ⟨hcli, haccepted⟩ := hbegin
  -- the order of starts is an invariant of every run, from before the call on
  have hin₁ : InOrder s₁ := (inOrder_of_runs hrun).step hcall
  have hin : InOrder s' := hrest.invariant (fun _ _ _ h _ hs => h.step hs) hin₁
  obtain ⟨-, rfl⟩ := beginStep_eq_some hcall
  -- and what the document says stays, as no other spec is run
  have hstatic : s'.spec.static = spec.static := by
    rw [(static_of_runs hrest).2 hsame, haccepted]
  refine ⟨?_, ?_, ?_, ?_, ?_, ?_⟩
  · intro i svc hsvc
    have hat : spec.services[i]? = some (parseService toInt svc.2 svc.1) := by
      rw [hspec, List.getElem?_map, hsvc]
      rfl
    rw [svc_static_congr hstatic hat, parseService_static]
  · intro svc hsvc dep hdep
    exact named_of_valid hspec hlim hvalid hsvc hdep
  · rw [hcli]
    rfl
  · intro hloop o
    apply hin.progress
    revert hloop
    cases s'.cli <;> simp [CliPc.inRun, CliPc.monOff]
  · intro hdone
    have hcount : s'.spec.count = (servicesOf root).length := by
      rw [count_congr hstatic, OrchestratorSpec.count, hspec, List.length_map]
    rw [hin.starts_done hdone, ← hcount]
    exact topoSort_perm hin.acyclic
  · intro i j hneeds hi
    apply hin.starts_behind _ hi
    rw [dependsOn_congr hstatic]
    exact dependsOn_of_needs hspec hlim hneeds


/-! ## A document within the limits, and one past them -/

/-- A member of a services object. -/
def docService (name : String) (deps : List String) : Bytes × JNode :=
  (bytes name, .obj
    [(bytes "image", .str (bytes "img")), (bytes "command", .str (bytes "/bin/sh")),
      (bytes "depends_on", .arr (deps.map fun dep => .str (bytes dep)))])

def docOf (services : List (Bytes × JNode)) : JNode := .obj [(bytes "services", .obj services)]

/-- `"web"` needs `"db"`. -/
def pairDoc : JNode := docOf [docService "web" ["db"], docService "db" []]

def pairText : Bytes :=
  ["\x7b\"services\":\x7b", "\"web\":\x7b\"image\":\"img\",", "\"command\":\"/bin/sh\",",
    "\"depends_on\":[\"db\"]\x7d,", "\"db\":\x7b\"image\":\"img\",", "\"command\":\"/bin/sh\",",
    "\"depends_on\":[]\x7d", "\x7d\x7d"].flatMap bytes

def pairSpec : OrchestratorSpec :=
  { name := bytes "unnamed", specPath := bytes "pair.json"
    services :=
      [{ Service.zero with
          name := bytes "web", image := bytes "img", command := bytes "/bin/sh"
          deps := [bytes "db"] },
        { Service.zero with name := bytes "db", image := bytes "img", command := bytes "/bin/sh" }] }

theorem docService_printable (name : String) {deps : List String}
    (h : ∀ dep ∈ deps, (0 : UInt8) ∉ bytes dep) : PrintableAt 3 (docService name deps).2 := by
  intro m hm
  simp only [List.mem_cons, List.not_mem_nil, or_false] at hm
  rcases hm with rfl | rfl | rfl
  · exact ⟨by decide, show (0 : UInt8) ∉ bytes "img" by decide⟩
  · exact ⟨by decide, show (0 : UInt8) ∉ bytes "/bin/sh" by decide⟩
  · refine ⟨show (0 : UInt8) ∉ bytes "depends_on" by decide, ?_⟩
    intro x hx
    obtain ⟨dep, hdep, rfl⟩ := List.mem_map.mp hx
    exact h dep hdep

theorem docOf_text {services : List (Bytes × JNode)}
    (h : ∀ m ∈ services, (0 : UInt8) ∉ m.1 ∧ PrintableAt 3 m.2) :
    IsText (docOf services) (jpPrint (docOf services)) := by
  have hprintable : PrintableAt 5 (docOf services) := by
    intro m hm
    rw [List.mem_singleton.mp hm]
    exact ⟨show (0 : UInt8) ∉ bytes "services" by decide, h⟩
  exact isText_print hprintable

theorem pairDoc_text : IsText pairDoc pairText := by
  have hprint : jpPrint pairDoc = pairText := by decide +kernel
  rw [← hprint]
  apply docOf_text
  intro m hm
  simp only [List.mem_cons, List.not_mem_nil, or_false] at hm
  rcases hm with rfl | rfl
  · exact ⟨by decide, docService_printable "web" (by decide)⟩
  · exact ⟨by decide, docService_printable "db" (by decide)⟩

theorem docService_within {name : String} {deps : List String} (hcount : deps.length ≤ jpMaxArr)
    (hlen : ∀ dep ∈ deps, (bytes dep).length ≤ 510) : (docService name deps).2.Within := by
  refine .obj (by simp [jpMaxObj]) (by simp; decide) ?_
  intro m hm
  simp only [List.mem_cons, List.not_mem_nil, or_false] at hm
  rcases hm with rfl | rfl | rfl
  · exact .str (by decide)
  · exact .str (by decide)
  · refine .arr (by rwa [List.length_map]) ?_
    intro x hx
    obtain ⟨dep, hdep, rfl⟩ := List.mem_map.mp hx
    exact .str (hlen dep hdep)

theorem pairDoc_limits : DocLimits pairDoc pairText where
  file := by decide +kernel
  values := by
    refine .obj (by decide) (by decide) ?_
    intro m hm
    rw [List.mem_singleton.mp hm]
    refine .obj (by decide) (by decide) ?_
    intro m hm
    simp only [List.mem_cons, List.not_mem_nil, or_false] at hm
    rcases hm with rfl | rfl
    · exact docService_within (by decide) (by decide)
    · exact docService_within (by decide) (by decide)
  services := by decide +kernel
  deps := by decide +kernel
  names := by decide +kernel

theorem pairSpec_parsed :
    orchParseSpec (fun _ => 0) (bytes "pair.json") (.content pairText) = .ok pairSpec := by
  decide +kernel

/-- `orch_run` on the pair, from its call to its return: `"db"` is first. -/
theorem document_order_pair :
    ∃ s, Runs sysStep (Sys.init .init)
        (.run ⟨pairSpec, orchParseSpec_fresh pairSpec_parsed⟩ :: cliSteps (.ofNat 100) 8) s ∧
      s.cli = .idle ∧ Needs pairDoc 0 1 ∧ s.log.starts.Perm (List.range 2) ∧
      s.log.starts.idxOf 1 < s.log.starts.idxOf 0 := by
  obtain ⟨s₁, hcall, s, hrest, hgen, hidle, hmem⟩ :
      ∃ s₁, sysStep (Sys.init .init) (.run ⟨pairSpec, orchParseSpec_fresh pairSpec_parsed⟩) = some s₁ ∧
        ∃ s, Runs sysStep s₁ (cliSteps (.ofNat 100) 8) s ∧ s.log.gen = s₁.log.gen ∧
          s.cli = .idle ∧ 0 ∈ s.log.starts := by
    refine ⟨_, rfl, ?_⟩
    exact exists_runOk_of_exec sysStep (fun _ _ => True) _ _
      (fun s => s.log.gen = 1 ∧ s.cli = .idle ∧ 0 ∈ s.log.starts) (by decide +kernel)
  have hneeds : Needs pairDoc 0 1 :=
    ⟨docService "web" ["db"], docService "db" [], rfl, rfl, by decide +kernel⟩
  obtain ⟨-, -, -, -, honce, hbehind⟩ := document_order_honoured pairDoc_text pairDoc_limits
    pairSpec_parsed (by decide +kernel) (.nil (Sys.init .init)) rfl hcall hrest hgen
  exact ⟨s, .cons trivial hcall hrest, hidle, hneeds, honce (by rw [hidle]; rfl),
    hbehind 0 1 hneeds hmem⟩

/-- `"c"` has nine entries, the last one names `"z"`. -/
def crowdedDoc : JNode :=
  docOf [docService "c" ["a", "a", "a", "a", "a", "a", "a", "a", "z"], docService "a" [],
    docService "z" ["a"]]

def crowdedText : Bytes :=
  ["\x7b\"services\":\x7b", "\"c\":\x7b\"image\":\"img\",", "\"command\":\"/bin/sh\",",
    "\"depends_on\":[", "\"a\",\"a\",\"a\",\"a\",", "\"a\",\"a\",\"a\",\"a\",", "\"z\"]\x7d,",
    "\"a\":\x7b\"image\":\"img\",", "\"command\":\"/bin/sh\",", "\"depends_on\":[]\x7d,",
    "\"z\":\x7b\"image\":\"img\",", "\"command\":\"/bin/sh\",", "\"depends_on\":[\"a\"]\x7d",
    "\x7d\x7d"].flatMap bytes

def crowdedSpec : OrchestratorSpec :=
  { name := bytes "unnamed", specPath := bytes "crowded.json"
    services :=
      [{ Service.zero with
          name := bytes "c", image := bytes "img", command := bytes "/bin/sh"
          deps := List.replicate 8 (bytes "a") },
        { Service.zero with name := bytes "a", image := bytes "img", command := bytes "/bin/sh" },
        { Service.zero with
          name := bytes "z", image := bytes "img", command := bytes "/bin/sh"
          deps := [bytes "a"] }] }

/-- The ninth dependency is dropped without a word: `"c"` is started before the
`"z"` it names. -/
theorem ninth_dependency_dropped :
    IsText crowdedDoc crowdedText ∧
    orchParseSpec (fun _ => 0) (bytes "crowded.json") (.content crowdedText) = .ok crowdedSpec ∧
    orchValidate crowdedSpec = 0 ∧ Needs crowdedDoc 0 2 ∧
    ∃ s, Runs sysStep (Sys.init .init)
        (.run ⟨crowdedSpec, by decide⟩ :: cliSteps (.ofNat 100) 11) s ∧
      s.cli = .idle ∧ s.log.starts = [1, 0, 2] ∧
      s.log.starts.idxOf 0 < s.log.starts.idxOf 2 := by
  refine ⟨?_, by decide +kernel, by decide +kernel, ?_, ?_⟩
  · have hprint : jpPrint crowdedDoc = crowdedText := by decide +kernel
    rw [← hprint]
    apply docOf_text
    intro m hm
    simp only [List.mem_cons, List.not_mem_nil, or_false] at hm
    rcases hm with rfl | rfl | rfl
    · exact ⟨by decide, docService_printable "c" (by decide)⟩
    · exact ⟨by decide, docService_printable "a" (by decide)⟩
    · exact ⟨by decide, docService_printable "z" (by decide)⟩
  · exact ⟨_, docService "z" ["a"], rfl, rfl, by decide +kernel⟩
  · exact exists_runOk_of_exec sysStep (fun _ _ => True) _ _
      (fun s => s.cli = .idle ∧ s.log.starts = [1, 0, 2] ∧
        s.log.starts.idxOf 0 < s.log.starts.idxOf 2) (by decide +kernel)

end ContainerSim.Orch
