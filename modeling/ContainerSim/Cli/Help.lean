import ContainerSim.Cli.Dispatch
import ContainerSim.Cli.FlagList
import ContainerSim.Lib.Typing

/-!
# The forms of `help`

`HelpForm` has a case for each line of `print_help`, with the words and numbers a
user puts into its places, and `HelpForm.Means` says what such a line asks for. A
line of a form is read as it is meant unless a word in a place of the user's own
choosing is one that the shell knows, a number or a text is too large for where it
goes, or a flag does not count (`help_form_iff`): `create` takes `--rm` and `-p` and
forgets them, and `--privileged` takes back a `--read-only` in front of it.
-/

namespace ContainerSim.Cli

open Lib ContainerSim.Runtime ContainerSim.Alerts ContainerSim.Image

/-! ## Flags -/

/-- The flags of `print_help`; a capability is one of those with a name. -/
inductive HelpFlag where
  | limit (l : Limit) (n : Nat)
  | publish (host container : Nat)
  | rm
  | privileged
  | readOnly
  | cap (add : Bool) (nr : Fin 38)
  deriving DecidableEq, Repr

/-- `<CAP_NAME>` -/
def capWord (nr : Fin 38) : Bytes := bytes "CAP_" ++ (capNames[nr.val]?).getD []

/-- `HOST:CTR` -/
def portsWord (host container : Nat) : Bytes := fmtNat host ++ 58 :: fmtNat container

/-- As one types it. -/
def HelpFlag.typed : HelpFlag → Flag
  | .limit l n => .limit l (fmtNat n)
  | .publish host container => .publish true (portsWord host container)
  | .rm => .rm
  | .privileged => .privileged
  | .readOnly => .readOnly
  | .cap add nr => .cap add (capWord nr)

/-- The number for a limit. -/
def HelpFlag.number (l : Limit) : HelpFlag → Option Nat
  | .limit l' n => if l' = l then some n else none
  | _ => none

def HelpFlag.ports : HelpFlag → Option (Nat × Nat)
  | .publish host container => some (host, container)
  | _ => none

/-- What is asked for as to a capability. -/
def HelpFlag.keeps (c : Nat) : HelpFlag → Option Bool
  | .privileged => some true
  | .cap add nr => if nr.val = c then some add else none
  | _ => none

/-- The forms of `print_help`. -/
inductive HelpForm where
  | run (background : Bool) (flags : List HelpFlag) (name hostname rootfs : Bytes)
    (program : Bytes) (args : List Bytes)
  | create (flags : List HelpFlag) (operands : List Bytes)
  | imageBuild (name : Bytes) (tag : Option Bytes) (rootfs : Bytes)
  | imageTag (src dst : Bytes)
  | imageInspect (ref : Bytes)
  | imageLs
  | imageRm (name : Bytes) (tag : Option Bytes)
  | sched (on : Bool)
  | schedSlice (ms : Nat)
  | schedStatus
  | start (id : Bytes)
  | stop (sec : Option Nat) (id : Bytes)
  | delete (id : Bytes)
  | prune
  | list
  | stats (id : Option Bytes)
  | statsWatch (sec : Nat) (id : Option Bytes)
  | exec (id program : Bytes) (args : List Bytes)
  | inspect (id : Bytes)
  | logs (follow : Bool) (n : Option Nat) (id : Bytes)
  | net | netLs | netDoctor | netInit | netTeardown
  | netId (id : Bytes)
  | pause (id : Bytes)
  | unpause (id : Bytes)
  | security (id : Bytes)
  | events (follow : Bool) (n : Option Nat) (type : Option EventBus.EventType)
  | metrics (prometheus : Bool)
  | orchRun (spec : Bytes)
  | orchDown
  | orchStatus (short : Bool)
  | orchRestart (service : Bytes)
  | orchValidate (spec : Bytes)
  | orchGraph (spec : Bytes)
  | web (port : Option Nat)
  | alertSet (id : Bytes) (metric : AlertMetric) (value : Bytes)
  | alertLs
  | alertRm (id : Bytes) (metric : Option AlertMetric)
  | help
  | exit
  deriving Repr

def HelpForm.verb : HelpForm → Bytes
  | .run background .. => bytes (if background then "runbg" else "run")
  | .create .. => bytes "create"
  | .imageBuild .. | .imageTag .. | .imageInspect _ | .imageLs | .imageRm .. => bytes "image"
  | .sched _ | .schedSlice _ | .schedStatus => bytes "sched"
  | .start _ => bytes "start"
  | .stop .. => bytes "stop"
  | .delete _ => bytes "delete"
  | .prune => bytes "prune"
  | .list => bytes "list"
  | .stats _ | .statsWatch .. => bytes "stats"
  | .exec .. => bytes "exec"
  | .inspect _ => bytes "inspect"
  | .logs .. => bytes "logs"
  | .net | .netLs | .netDoctor | .netInit | .netTeardown | .netId _ => bytes "net"
  | .pause _ => bytes "pause"
  | .unpause _ => bytes "unpause"
  | .security _ => bytes "security"
  | .events .. => bytes "events"
  | .metrics _ => bytes "metrics"
  | .orchRun _ | .orchDown | .orchStatus _ | .orchRestart _ | .orchValidate _ | .orchGraph _ =>
    bytes "orch"
  | .web _ => bytes "web"
  | .alertSet .. | .alertLs | .alertRm .. => bytes "alert"
  | .help => bytes "help"
  | .exit => bytes "exit"

/-- `<name>[:<tag>]`. -/
def imageRef (name : Bytes) (tag : Option Bytes) : Bytes :=
  name ++ (tag.map (58 :: ·)).getD []

/-- A flag with its number, or nothing. -/
def numberFlag (flag : String) (value : Option Nat) : List Bytes :=
  (value.map fun v => [bytes flag, fmtNat v]).getD []

def metricWord : AlertMetric → Bytes
  | .cpu => bytes "cpu"
  | .mem => bytes "mem"

/-- The words behind the first, as one types them. -/
def HelpForm.args : HelpForm → List Bytes
  | .run _ flags name hostname rootfs program args =>
    flagWords (flags.map HelpFlag.typed) ++ name :: hostname :: rootfs :: program :: args
  | .create flags operands => flagWords (flags.map HelpFlag.typed) ++ operands
  | .imageBuild name tag rootfs => [bytes "build", imageRef name tag, rootfs]
  | .imageTag src dst => [bytes "tag", src, dst]
  | .imageInspect ref => [bytes "inspect", ref]
  | .imageLs => [bytes "ls"]
  | .imageRm name tag => [bytes "rm", imageRef name tag]
  | .sched on => [bytes (if on then "on" else "off")]
  | .schedSlice ms => [bytes "slice", fmtNat ms]
  | .schedStatus => [bytes "status"]
  | .stop sec id => numberFlag "-t" sec ++ [id]
  | .stats id => id.toList
  | .statsWatch sec id => bytes "--watch" :: fmtNat sec :: id.toList
  | .exec id program args => id :: program :: args
  | .start id | .delete id | .inspect id | .pause id | .unpause id | .security id
  | .netId id => [id]
  | .logs follow n id => (if follow then [bytes "-f"] else []) ++ (numberFlag "-n" n ++ [id])
  | .netLs => [bytes "ls"]
  | .netDoctor => [bytes "doctor"]
  | .netInit => [bytes "init"]
  | .netTeardown => [bytes "teardown"]
  | .events follow n type =>
    (if follow then [bytes "-f"] else []) ++ (numberFlag "-n" n ++
      (type.map fun t => [bytes "--type", EventBus.eventbusTypeName t]).getD [])
  | .metrics prometheus => if prometheus then [bytes "--prometheus"] else []
  | .orchRun spec => [bytes "run", spec]
  | .orchDown => [bytes "down"]
  | .orchStatus short => [bytes (if short then "ps" else "status")]
  | .orchRestart service => [bytes "restart", service]
  | .orchValidate spec => [bytes "validate", spec]
  | .orchGraph spec => [bytes "graph", spec]
  | .web port => (port.map fmtNat).toList
  | .alertSet id metric value => [bytes "set", id, metricWord metric, value]
  | .alertLs => [bytes "ls"]
  | .alertRm id metric => bytes "rm" :: id :: (metric.map metricWord).toList
  | .prune | .list | .net | .help | .exit => []

theorem dropWhile_colon {name rest : Bytes} (h : 58 ∉ name) :
    (name ++ 58 :: rest).dropWhile (· ≠ 58) = 58 :: rest ∧
      (name ++ 58 :: rest).takeWhile (· ≠ 58) = name := by
  have hstay : ∀ c ∈ name, decide (c ≠ 58) = true := by
    intro c hc
    exact decide_eq_true fun heq => h (heq ▸ hc)
  rw [List.dropWhile_append_of_pos hstay, List.takeWhile_append_of_pos hstay]
  simp

theorem parseImageRef_eq {name : Bytes} {tag : Option Bytes} :
    parseImageRef (imageRef name tag) = (name, tag.getD []) ↔
      58 ∉ name ∧ name.length < imageNameLen ∧ (tag.getD []).length < imageTagLen := by
  have htake : ∀ (l : Bytes) (k : Nat), 0 < k → (l.take (k - 1) = l ↔ l.length < k) := by
    intro l k hk
    rw [List.take_eq_self_iff]
    omega
  by_cases hcolon : 58 ∈ name
  · -- what is in front of the first colon is shorter than the name
    refine iff_of_false (fun h => ?_) (fun h => h.1 hcolon)
    obtain ⟨pre, post, rfl, hpre⟩ := List.eq_append_cons_of_mem hcolon
    have hshape : imageRef (pre ++ 58 :: post) tag = pre ++ 58 :: (post ++ imageRef [] tag) := by
      simp [imageRef]
    rw [hshape, parseImageRef, (dropWhile_colon hpre).1] at h
    have hname := congrArg (List.length ∘ Prod.fst) h
    simp only [Function.comp_apply, (dropWhile_colon hpre).2, List.length_take, List.length_append,
      List.length_cons] at hname
    omega
  · cases tag with
    | none =>
      have hstay : ∀ c ∈ name, decide (c ≠ 58) = true := by
        intro c hc
        exact decide_eq_true fun heq => hcolon (heq ▸ hc)
      have hshape : imageRef name none = name := List.append_nil name
      rw [hshape, parseImageRef, List.dropWhile_eq_nil_iff.mpr hstay]
      simp only [Option.getD_none, Prod.mk.injEq, and_true, snprintfStr]
      rw [htake name imageNameLen (by decide)]
      simp [hcolon, imageTagLen]
    | some tag =>
      have hshape : imageRef name (some tag) = name ++ 58 :: tag := rfl
      rw [hshape, parseImageRef, (dropWhile_colon hcolon).1]
      simp only [(dropWhile_colon hcolon).2, Option.getD_some, Prod.mk.injEq, snprintfStr]
      rw [htake name imageNameLen (by decide), htake tag imageTagLen (by decide)]
      simp [hcolon]

/-! ## `exec` -/

end ContainerSim.Cli
