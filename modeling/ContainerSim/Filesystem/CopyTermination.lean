import ContainerSim.Filesystem.CopyPath
import ContainerSim.Lib.Chain
import Mathlib.Data.FinEnum
import Mathlib.Data.Set.Finite.List

/-!
# Where copying a host path comes to an end

`copy_path_into_rootfs` follows a symbolic link by calling itself with the path
the link leads to. It neither counts its calls nor remembers its paths; what
bounds it is the length of a path, and a link that leads back to a path already
copied meets no bound.
-/

namespace ContainerSim.Filesystem

open Lib

/-- A link of the host leads from one path to another, and the first has room
behind the rootfs. -/
structure LinksTo (node : Bytes → Node) (rootfs p r : Bytes) : Prop where
  absolute : p.head? = some 47
  length : (rootfs ++ p).length < pathMax
  resolved : ∃ target, node p = .symlink (some target) ∧
    resolveSymlinkTarget p (target.take (pathMax - 1)) pathMax = some r

/-- The calls for the path come to an end with 0 or -1. -/
def Returns (rootfs : Bytes) (hosts : Nat → Host) (hostPath : Bytes) : Prop :=
  ∃ calls ok, (copyPathIntoRootfs rootfs calls hosts hostPath).2 = some ok

section
variable {node : Bytes → Node} {rootfs p r : Bytes}

/-! ## One call -/

theorem length_resolveSymlinkTarget {target : Bytes} {size : Nat}
    (h : resolveSymlinkTarget p target size = some r) : r.length < size := by
  unfold resolveSymlinkTarget at h
  split at h
  · split at h
    · cases h
    · obtain rfl := Option.some.inj h
      omega
  · split at h
    · cases h
    · rename_i parent _
      simp only at h
      by_cases hfull : size ≤ (parent ++ (if parent = [47] then [] else [47]) ++ target).length ∨
          parent.length = 0
      · rw [if_pos hfull] at h
        cases h
      · rw [if_neg hfull] at h
        obtain rfl := Option.some.inj h
        omega

theorem LinksTo.length_lt (h : LinksTo node rootfs p r) : r.length < pathMax := by
  obtain ⟨_, _, hresolved⟩ := h.resolved
  exact length_resolveSymlinkTarget hresolved

/-- A path with a slash has a directory, and its name is shorter. -/
theorem exists_pathDirname {path : Bytes} (hslash : (47 : UInt8) ∈ path)
    (hlen : path.length < pathMax) :
    ∃ dir, pathDirname path pathMax = some dir ∧ dir ≠ [] ∧ dir.length < pathMax := by
  unfold pathDirname
  cases hdrop : path.reverse.dropWhile (· ≠ 47) with
  | nil =>
    have hall := List.dropWhile_eq_nil_iff.mp hdrop 47 (List.mem_reverse.mpr hslash)
    exact absurd hall (by simp)
  | cons slash before =>
    have hbefore : before.length < path.length := by
      have hle := (List.dropWhile_suffix (p := (· ≠ 47)) (l := path.reverse)).length_le
      rw [hdrop, List.length_reverse] at hle
      exact hle
    have hpath : 0 < path.length := by omega
    -- the directory of `/a` is `/`, with its slash
    simp only
    split
    · -- the slash is the first byte
      refine ⟨path.take 1, if_neg (by decide), ?_, ?_⟩
      · exact List.ne_nil_of_length_pos (by rw [List.length_take]; omega)
      · rw [List.length_take]
        omega
    · refine ⟨path.take before.length, if_neg (by omega), ?_, ?_⟩
      · exact List.ne_nil_of_length_pos (by rw [List.length_take]; omega)
      · rw [List.length_take]
        omega

/-- Where every system call succeeds, only a path that is relative or has no room
behind the rootfs is turned away before `lstat`. -/
theorem prepared_willing (habsolute : p.head? = some 47)
    (hlen : (rootfs ++ p).length < pathMax) : Prepared (.willing node) rootfs p := by
  have hslash : (47 : UInt8) ∈ rootfs ++ p :=
    List.mem_append_right _ (List.mem_of_mem_head? habsolute)
  obtain ⟨dir, hdir, hne, hshort⟩ := exists_pathDirname hslash hlen
  refine ⟨habsolute, hlen, dir, hdir, ?_⟩
  unfold mkdirP
  rw [if_neg hne, if_neg (Nat.not_le.mpr hshort)]
  exact List.all_eq_true.mpr fun _ _ => rfl

/-- A call that goes on follows a link of the host. -/
theorem linksTo_of_goesOn {host : Host} (h : (copyOne host rootfs p).2 = .goesOn r) :
    LinksTo host.node rootfs p r := by
  obtain ⟨target, hlinked, hresolved⟩ := copyOne_goesOn_iff.mp h
  exact ⟨hlinked.prepared.absolute, hlinked.prepared.length, target, hlinked.node, hresolved⟩

theorem goesOn_of_linksTo (h : LinksTo node rootfs p r) :
    (copyOne (.willing node) rootfs p).2 = .goesOn r := by
  obtain ⟨target, hnode, hresolved⟩ := h.resolved
  exact copyOne_goesOn_iff.mpr
    ⟨target, ⟨prepared_willing h.absolute h.length, hnode, rfl, rfl⟩, hresolved⟩

/-! ## The calls one after another -/

theorem copyPath_result (calls : Nat) (hosts : Nat → Host) :
    (copyPathIntoRootfs rootfs (calls + 1) hosts p).2 =
      match (copyOne (hosts 0) rootfs p).2 with
      | .returns ok => some ok
      | .goesOn r => (copyPathIntoRootfs rootfs calls (fun i => hosts (i + 1)) r).2 := by
  rw [copyPathIntoRootfs]
  cases hone : copyOne (hosts 0) rootfs p with
  | mk writes next =>
    cases next with
    | returns ok => rfl
    | goesOn r => rfl

/-- Where the links end, so do the calls, whichever system calls fail. -/
theorem returns_of_acc {hosts : Nat → Host}
    (hacc : Acc (fun r p => LinksTo node rootfs p r) p) (hnode : ∀ i, (hosts i).node = node) :
    Returns rootfs hosts p := by
  induction hacc generalizing hosts with
  | intro p _ ih =>
    cases hnext : (copyOne (hosts 0) rootfs p).2 with
    | returns ok =>
      -- a failed system call ends here too
      refine ⟨1, ok, ?_⟩
      rw [copyPath_result, hnext]
    | goesOn r =>
      have hlink : LinksTo node rootfs p r := by
        have hlink := linksTo_of_goesOn hnext
        rwa [hnode 0] at hlink
      have hlater : Returns rootfs (fun i => hosts (i + 1)) r :=
        ih r hlink fun i => hnode (i + 1)
      obtain ⟨calls, ok, hok⟩ := hlater
      refine ⟨calls + 1, ok, ?_⟩
      rw [copyPath_result, hnext]
      exact hok

/-- Where the links go round and every system call succeeds, no number of calls
is enough. -/
theorem not_returns_of_circles (h : Circles (LinksTo node rootfs) p) (calls : Nat) :
    (copyPathIntoRootfs rootfs calls (fun _ => .willing node) p).2 = none := by
  induction calls generalizing p with
  | zero => rfl
  | succ calls ih =>
    obtain ⟨r, hlink, hcircles⟩ := h.step
    rw [copyPath_result, goesOn_of_linksTo hlink]
    exact ih hcircles

/-- Copying a host path returns, whichever system calls fail on the way, exactly
if the links it goes through never lead back to a path they have passed. -/
theorem copy_terminates_iff :
    (∀ hosts : Nat → Host, (∀ i, (hosts i).node = node) → Returns rootfs hosts p) ↔
      ¬ ∃ q, Relation.ReflTransGen (LinksTo node rootfs) p q ∧
        Relation.TransGen (LinksTo node rootfs) q q := by
  have hfinite : {q : Bytes | q.length < pathMax}.Finite := List.finite_length_lt UInt8 pathMax
  have hplaces : ∀ p r, LinksTo node rootfs p r → r ∈ {q : Bytes | q.length < pathMax} :=
    fun _ _ hlink => hlink.length_lt
  constructor
  · -- with every system call succeeding, the links alone decide
    intro hreturns hcircles
    obtain ⟨calls, ok, hok⟩ := hreturns (fun _ => .willing node) fun _ => rfl
    rw [not_returns_of_circles hcircles calls] at hok
    cases hok
  · intro hnone hosts hnode
    exact returns_of_acc ((acc_iff_not_circles hfinite hplaces).mpr hnone) hnode

end

/-- `/bin/sh` is a link to itself, and there is nothing else. -/
def loopNode (path : Bytes) : Node :=
  if path = bytes "/bin/sh" then .symlink (some (bytes "sh")) else .missing

/-- The link that leads to itself is followed for ever. -/
theorem not_copy_terminates :
    ¬ ∀ (node : Bytes → Node) (rootfs hostPath : Bytes), {p | node p ≠ .missing}.Finite →
      ∀ hosts : Nat → Host, (∀ i, (hosts i).node = node) → Returns rootfs hosts hostPath := by
  intro hclaim
  have hfinite : {p | loopNode p ≠ .missing}.Finite := by
    refine (Set.finite_singleton (bytes "/bin/sh")).subset fun p hp => ?_
    by_contra hne
    exact hp (if_neg hne)
  have hloop : LinksTo loopNode (bytes "/srv/rootfs") (bytes "/bin/sh") (bytes "/bin/sh") :=
    ⟨by decide, by decide, bytes "sh", if_pos rfl, by decide⟩
  obtain ⟨calls, ok, hok⟩ := hclaim loopNode (bytes "/srv/rootfs") (bytes "/bin/sh") hfinite
    (fun _ => .willing loopNode) fun _ => rfl
  rw [not_returns_of_circles (.of_loop hloop) calls] at hok
  cases hok

end ContainerSim.Filesystem
