import ContainerSim.Lib.LexPath

/-!
# Copying host files into a rootfs

`copy_path_into_rootfs` copies a path of the host and, where it is a symbolic
link, goes on with the path the link leads to. The destination is the rootfs
with the path behind it, and the path is not normalised: a `..` too many stays
at `/` on the host but leads out of the rootfs.
-/

namespace ContainerSim.Filesystem

open Lib

/-- `PATH_MAX`. -/
def pathMax : Nat := 4096

/-- What `lstat` and `readlink` say of a path of the host. -/
inductive Node where
  | missing
  | symlink (target : Option Bytes)
  | regular
  | other
  deriving DecidableEq, Repr

/-- The host at the time of a call and whether its system calls succeed. -/
structure Host where
  node : Bytes → Node
  /-- `ensure_directory` -/
  ensure : Bytes → Bool
  /-- `unlink`, or there is nothing to remove -/
  unlink : Bytes → Bool
  symlink : Bytes → Bool
  /-- `stat` and `open` of a source -/
  openSrc : Bytes → Bool
  /-- `open` of a destination with `O_CREAT | O_TRUNC` -/
  openDst : Bytes → Bool
  /-- `copy_file_contents` and the two `close` -/
  copy : Bytes → Bool

/-- What is done to a destination. -/
inductive Write where
  | symlink (target dst : Bytes)
  | truncate (dst : Bytes)
  deriving DecidableEq, Repr

def Write.dst : Write → Bytes
  | .symlink _ dst => dst
  | .truncate dst => dst

/-! ## Paths -/

/-- `path_dirname`. -/
def pathDirname (path : Bytes) (bufferSize : Nat) : Option Bytes :=
  match path.reverse.dropWhile (· ≠ 47) with
  | [] => none
  | _ :: before =>
    let length := if before.length = 0 then 1 else before.length
    if bufferSize ≤ length then none else some (path.take length)

/-- `resolve_symlink_target`. -/
def resolveSymlinkTarget (linkPath target : Bytes) (resolvedSize : Nat) : Option Bytes :=
  if target.head? = some 47 then
    if resolvedSize ≤ target.length then none else some target
  else
    match pathDirname linkPath pathMax with
    | none => none
    | some parent =>
      let slash := if parent = [47] then [] else [47]
      let resolved := parent ++ slash ++ target
      if resolvedSize ≤ resolved.length ∨ parent.length = 0 then none else some resolved

/-- The directories `mkdir_p` goes through. -/
def mkdirPaths (path : Bytes) : List Bytes :=
  let buffer := if 1 < path.length ∧ path.getLast? = some 47 then path.dropLast else path
  ((List.range buffer.length).filter fun i => 0 < i ∧ buffer[i]? = some 47).map (buffer.take ·) ++
    [buffer]

section
variable (host : Host)

/-- `mkdir_p`. -/
def mkdirP (path : Bytes) : Bool :=
  if path = [] then false
  else if pathMax ≤ path.length then false
  else (mkdirPaths path).all host.ensure

/-! ## Copying -/

/-- `copy_symlink`: what is written, and whether it returns 0. -/
def copySymlink (target dst : Bytes) : List Write × Bool :=
  if !host.unlink dst then ([], false)
  else if !host.symlink dst then ([], false)
  else ([.symlink target dst], true)

/-- `copy_regular_file`. -/
def copyRegularFile (src dst : Bytes) : List Write × Bool :=
  if !host.openSrc src then ([], false)
  else if !host.openDst dst then ([], false)
  else ([.truncate dst], host.copy dst)

/-- How a call of `copy_path_into_rootfs` ends. -/
inductive Next where
  | returns (ok : Bool)
  | goesOn (resolved : Bytes)
  deriving DecidableEq, Repr

/-- One call of `copy_path_into_rootfs` up to its return or its tail call. -/
def copyOne (rootfs hostPath : Bytes) : List Write × Next :=
  if hostPath.head? ≠ some 47 then ([], .returns false)
  else
    let destination := rootfs ++ hostPath
    if pathMax ≤ destination.length then ([], .returns false)
    else
      match pathDirname destination pathMax with
      | none => ([], .returns false)
      | some destinationDir =>
        if !mkdirP host destinationDir then ([], .returns false)
        else
          match host.node hostPath with
          | .symlink (some target) =>
            let linkTarget := target.take (pathMax - 1)
            let (writes, ok) := copySymlink host linkTarget destination
            if !ok then (writes, .returns false)
            else
              match resolveSymlinkTarget hostPath linkTarget pathMax with
              | none => (writes, .returns false)
              | some resolved => (writes, .goesOn resolved)
          | .regular =>
            let (writes, ok) := copyRegularFile host hostPath destination
            (writes, .returns ok)
          | .missing | .symlink none | .other => ([], .returns false)

/-- `copy_path_into_rootfs`, for so many calls: what is written, and what it
returns, if it does. `hosts i` is the host as the calls before the `i`-th have
left it. -/
def copyPathIntoRootfs (rootfs : Bytes) :
    Nat → (Nat → Host) → Bytes → List Write × Option Bool
  | 0, _, _ => ([], none)
  | calls + 1, hosts, hostPath =>
    match copyOne (hosts 0) rootfs hostPath with
    | (writes, .returns ok) => (writes, some ok)
    | (writes, .goesOn resolved) =>
      let (writes', result) := copyPathIntoRootfs rootfs calls (fun i => hosts (i + 1)) resolved
      (writes ++ writes', result)

/-! ## The chain of links -/

/-- The call for the path gets as far as `lstat`. -/
structure Prepared (rootfs hostPath : Bytes) : Prop where
  absolute : hostPath.head? = some 47
  length : (rootfs ++ hostPath).length < pathMax
  directory : ∃ dir, pathDirname (rootfs ++ hostPath) pathMax = some dir ∧ mkdirP host dir = true

/-- The path is a link, and it is copied. -/
structure Linked (rootfs hostPath target : Bytes) : Prop where
  prepared : Prepared host rootfs hostPath
  node : host.node hostPath = .symlink (some target)
  unlink : host.unlink (rootfs ++ hostPath) = true
  symlink : host.symlink (rootfs ++ hostPath) = true

/-- The path is a file, and it is copied. -/
structure Filed (rootfs hostPath : Bytes) : Prop where
  prepared : Prepared host rootfs hostPath
  node : host.node hostPath = .regular
  openSrc : host.openSrc hostPath = true
  openDst : host.openDst (rootfs ++ hostPath) = true

/-- The path has a copy in the rootfs. -/
def Copied (rootfs hostPath : Bytes) : Prop :=
  (∃ target, Linked host rootfs hostPath target) ∨ Filed host rootfs hostPath

end

/-- The links that are copied lead from one path to another, where the host is
the one given. -/
inductive LeadsTo (rootfs : Bytes) : (Nat → Host) → Bytes → Host → Bytes → Prop where
  | refl (hosts : Nat → Host) (p : Bytes) : LeadsTo rootfs hosts p (hosts 0) p
  | link {hosts : Nat → Host} {host : Host} {p target r q : Bytes} :
      Linked (hosts 0) rootfs p target →
      resolveSymlinkTarget p (target.take (pathMax - 1)) pathMax = some r →
      LeadsTo rootfs (fun i => hosts (i + 1)) r host q → LeadsTo rootfs hosts p host q

section
variable {host : Host} {rootfs : Bytes}

theorem copyOne_of_linked {p target : Bytes} (h : Linked host rootfs p target) :
    copyOne host rootfs p =
      ([.symlink (target.take (pathMax - 1)) (rootfs ++ p)],
        match resolveSymlinkTarget p (target.take (pathMax - 1)) pathMax with
        | none => .returns false
        | some r => .goesOn r) := by
  obtain ⟨⟨habsolute, hlen, dir, hdir, hmkdir⟩, hnode, hunlink, hsymlink⟩ := h
  have hcopy : copySymlink host (target.take (pathMax - 1)) (rootfs ++ p) =
      ([.symlink (target.take (pathMax - 1)) (rootfs ++ p)], true) := by
    rw [copySymlink, hunlink, hsymlink]
    rfl
  unfold copyOne
  rw [if_neg (not_not.mpr habsolute)]
  simp only
  rw [if_neg (Nat.not_le.mpr hlen), hdir]
  simp only
  rw [hmkdir, hnode]
  simp only [hcopy, Bool.not_true, Bool.false_eq_true, if_false]
  split
  · rfl
  · rfl

theorem copyOne_of_filed {p : Bytes} (h : Filed host rootfs p) :
    copyOne host rootfs p = ([.truncate (rootfs ++ p)], .returns (host.copy (rootfs ++ p))) := by
  obtain ⟨⟨habsolute, hlen, dir, hdir, hmkdir⟩, hnode, hsrc, hdst⟩ := h
  have hcopy : copyRegularFile host p (rootfs ++ p) =
      ([.truncate (rootfs ++ p)], host.copy (rootfs ++ p)) := by
    rw [copyRegularFile, hsrc, hdst]
    rfl
  unfold copyOne
  rw [if_neg (not_not.mpr habsolute)]
  simp only
  rw [if_neg (Nat.not_le.mpr hlen), hdir]
  simp only
  rw [hmkdir, hnode]
  simp only [hcopy, Bool.not_true, Bool.false_eq_true, if_false]

/-- A path that is not copied writes nothing and ends the chain. -/
theorem copyOne_of_not_copied {p : Bytes} (h : ¬ Copied host rootfs p) :
    ∃ ok, copyOne host rootfs p = ([], .returns ok) := by
  unfold copyOne
  split
  · exact ⟨false, rfl⟩
  · rename_i habsolute
    simp only
    split
    · exact ⟨false, rfl⟩
    · rename_i hlen
      split
      · exact ⟨false, rfl⟩
      · rename_i dir hdir
        split
        · exact ⟨false, rfl⟩
        · rename_i hmkdir
          have hprepared : Prepared host rootfs p :=
            ⟨not_not.mp habsolute, Nat.not_le.mp hlen, dir, hdir, by simpa using hmkdir⟩
          split
          · -- a link: `unlink` or `symlink` fails
            rename_i target hnode
            have hfails : copySymlink host (target.take (pathMax - 1)) (rootfs ++ p) = ([], false) := by
              unfold copySymlink
              split
              · rfl
              · rename_i hunlink
                split
                · rfl
                · rename_i hsymlink
                  exact absurd (.inl ⟨target, hprepared, hnode, by simpa using hunlink,
                    by simpa using hsymlink⟩) h
            rw [hfails]
            exact ⟨false, rfl⟩
          · -- a file: one of its two `open` fails
            rename_i hnode
            have hfails : copyRegularFile host p (rootfs ++ p) = ([], false) := by
              unfold copyRegularFile
              split
              · rfl
              · rename_i hsrc
                split
                · rfl
                · rename_i hdst
                  exact absurd (.inr ⟨hprepared, hnode, by simpa using hsrc, by simpa using hdst⟩) h
            rw [hfails]
            exact ⟨false, rfl⟩
          all_goals exact ⟨false, rfl⟩

/-- What one call writes is at its path behind the rootfs. -/
theorem copyOne_writes {p : Bytes} {w : Write} (hw : w ∈ (copyOne host rootfs p).1) :
    Copied host rootfs p ∧ w.dst = rootfs ++ p := by
  by_cases hcopied : Copied host rootfs p
  · refine ⟨hcopied, ?_⟩
    rcases hcopied with ⟨target, hlinked⟩ | hfiled
    · rw [copyOne_of_linked hlinked] at hw
      rw [List.mem_singleton.mp hw]
      rfl
    · rw [copyOne_of_filed hfiled] at hw
      rw [List.mem_singleton.mp hw]
      rfl
  · obtain ⟨ok, hnone⟩ := copyOne_of_not_copied hcopied
    rw [hnone] at hw
    cases hw

theorem exists_write_of_copied {p : Bytes} (h : Copied host rootfs p) :
    ∃ w ∈ (copyOne host rootfs p).1, w.dst = rootfs ++ p := by
  rcases h with ⟨target, hlinked⟩ | hfiled
  · rw [copyOne_of_linked hlinked]
    exact ⟨_, List.mem_singleton_self _, rfl⟩
  · rw [copyOne_of_filed hfiled]
    exact ⟨_, List.mem_singleton_self _, rfl⟩

/-- One call goes on exactly where the link leads. -/
theorem copyOne_goesOn_iff {p r : Bytes} :
    (copyOne host rootfs p).2 = .goesOn r ↔
      ∃ target, Linked host rootfs p target ∧
        resolveSymlinkTarget p (target.take (pathMax - 1)) pathMax = some r := by
  constructor
  · intro h
    by_cases hcopied : Copied host rootfs p
    · rcases hcopied with ⟨target, hlinked⟩ | hfiled
      · refine ⟨target, hlinked, ?_⟩
        rw [copyOne_of_linked hlinked] at h
        cases hresolve : resolveSymlinkTarget p (target.take (pathMax - 1)) pathMax with
        | none =>
          rw [hresolve] at h
          cases h
        | some r' =>
          rw [hresolve] at h
          cases h
          rfl
      · rw [copyOne_of_filed hfiled] at h
        cases h
    · obtain ⟨ok, hnone⟩ := copyOne_of_not_copied hcopied
      rw [hnone] at h
      cases h
  · rintro ⟨target, hlinked, hresolve⟩
    rw [copyOne_of_linked hlinked, hresolve]

theorem copyPath_succ (calls : Nat) (hosts : Nat → Host) (p : Bytes) :
    (copyPathIntoRootfs rootfs (calls + 1) hosts p).1 =
      (copyOne (hosts 0) rootfs p).1 ++
        match (copyOne (hosts 0) rootfs p).2 with
        | .returns _ => []
        | .goesOn r => (copyPathIntoRootfs rootfs calls (fun i => hosts (i + 1)) r).1 := by
  rw [copyPathIntoRootfs]
  cases hone : copyOne (hosts 0) rootfs p with
  | mk writes next =>
    cases next with
    | returns ok => exact (List.append_nil _).symm
    | goesOn r => rfl

/-- The destinations are the paths of the chain that are copied, behind the rootfs. -/
theorem destination_iff {hosts : Nat → Host} {p d : Bytes} :
    (∃ calls, ∃ w ∈ (copyPathIntoRootfs rootfs calls hosts p).1, w.dst = d) ↔
      ∃ host q, LeadsTo rootfs hosts p host q ∧ Copied host rootfs q ∧ d = rootfs ++ q := by
  constructor
  · rintro ⟨calls, w, hw, rfl⟩
    induction calls generalizing hosts p with
    | zero => cases hw
    | succ calls ih =>
      rw [copyPath_succ] at hw
      rcases List.mem_append.mp hw with hw | hw
      · obtain ⟨hcopied, hdst⟩ := copyOne_writes hw
        exact ⟨hosts 0, p, .refl hosts p, hcopied, hdst⟩
      · -- the chain goes on only where a link has been resolved
        cases hnext : (copyOne (hosts 0) rootfs p).2 with
        | returns ok =>
          rw [hnext] at hw
          cases hw
        | goesOn r =>
          rw [hnext] at hw
          obtain ⟨target, hlinked, hresolve⟩ := copyOne_goesOn_iff.mp hnext
          obtain ⟨host, q, hchain, hcopied, hdst⟩ := ih hw
          exact ⟨host, q, .link hlinked hresolve hchain, hcopied, hdst⟩
  · rintro ⟨host, q, hchain, hcopied, rfl⟩
    induction hchain with
    | refl hosts p =>
      obtain ⟨w, hw, hdst⟩ := exists_write_of_copied hcopied
      refine ⟨1, w, ?_, hdst⟩
      rw [copyPath_succ]
      exact List.mem_append_left _ hw
    | @link hosts host p target r q hlinked hresolve _ ih =>
      obtain ⟨calls, w, hw, hdst⟩ := ih hcopied
      refine ⟨calls + 1, w, ?_, hdst⟩
      rw [copyPath_succ, copyOne_goesOn_iff.mpr ⟨target, hlinked, hresolve⟩]
      exact List.mem_append_right _ hw

/-- The path does not leave the rootfs, which is no empty path: its `..`
outnumber the names before them nowhere, or it comes back through the names of
the rootfs it has left. -/
def Stays (rootfs path : Bytes) : Prop :=
  let root := LexPath.ofPath rootfs
  let inside := (LexPath.origin false).walk (path.splitOn 47)
  rootfs ≠ [] ∧ (inside.ups ≤ root.names.length ∨ root.absolute = true) ∧
    root.names.drop (root.names.length - inside.ups) <+: inside.names

theorem Copied.absolute {p : Bytes} (h : Copied host rootfs p) : p.head? = some 47 := by
  rcases h with ⟨target, hlinked⟩ | hfiled
  · exact hlinked.prepared.absolute
  · exact hfiled.prepared.absolute

/-- Every destination is in the rootfs exactly if every path of the chain that
is copied stays there. -/
theorem copies_stay_iff {hosts : Nat → Host} {hostPath : Bytes} :
    (∀ calls, ∀ w ∈ (copyPathIntoRootfs rootfs calls hosts hostPath).1,
        (LexPath.ofPath rootfs).Under (LexPath.ofPath w.dst)) ↔
      ∀ host q, LeadsTo rootfs hosts hostPath host q → Copied host rootfs q → Stays rootfs q := by
  have hunder : ∀ {host : Host} {q : Bytes}, Copied host rootfs q →
      ((LexPath.ofPath rootfs).Under (LexPath.ofPath (rootfs ++ q)) ↔ Stays rootfs q) := by
    intro host q hcopied
    by_cases hrootfs : rootfs = []
    · -- the destination is the absolute path itself
      subst hrootfs
      refine iff_of_false (fun hin => ?_) fun hstays => hstays.1 rfl
      have habsolute : (LexPath.ofPath q).absolute = decide (q.head? = some 47) :=
        LexPath.walk_absolute _ _
      rw [hcopied.absolute] at habsolute
      exact absurd (habsolute.symm.trans hin.absolute) (by decide)
    · rw [LexPath.ofPath_append hrootfs hcopied.absolute, LexPath.under_walk_iff]
      exact ⟨fun hin => ⟨hrootfs, hin⟩, fun hstays => hstays.2⟩
  constructor
  · intro h host q hchain hcopied
    obtain ⟨calls, w, hw, hdst⟩ := destination_iff.mpr ⟨host, q, hchain, hcopied, rfl⟩
    have hin := h calls w hw
    rw [hdst] at hin
    exact (hunder hcopied).mp hin
  · intro h calls w hw
    obtain ⟨host, q, hchain, hcopied, hdst⟩ := destination_iff.mp ⟨calls, w, hw, rfl⟩
    rw [hdst]
    exact (hunder hcopied).mpr (h host q hchain hcopied)

end

/-- A host on which every call succeeds. -/
def Host.willing (node : Bytes → Node) : Host where
  node := node
  ensure := fun _ => true
  unlink := fun _ => true
  symlink := fun _ => true
  openSrc := fun _ => true
  openDst := fun _ => true
  copy := fun _ => true

/-- `/bin/sh` is a link to `dash`. -/
def shellHost : Host := .willing fun path =>
  if path = bytes "/bin/sh" then .symlink (some (bytes "dash"))
  else if path = bytes "/bin/dash" then .regular
  else .missing

theorem shell_stays :
    bytes "/srv/rootfs" ≠ [] ∧
      ∀ calls, ∀ w ∈ (copyPathIntoRootfs (bytes "/srv/rootfs") calls (fun _ => shellHost)
          (bytes "/bin/sh")).1,
        (LexPath.ofPath (bytes "/srv/rootfs")).Under (LexPath.ofPath w.dst) := by
  have hrootfs : bytes "/srv/rootfs" ≠ [] := by decide
  refine ⟨hrootfs, copies_stay_iff.mpr fun _ q hchain _ => ?_⟩
  have hsh : Stays (bytes "/srv/rootfs") (bytes "/bin/sh") :=
    ⟨hrootfs, by decide +kernel, by decide +kernel⟩
  have hdash : Stays (bytes "/srv/rootfs") (bytes "/bin/dash") :=
    ⟨hrootfs, by decide +kernel, by decide +kernel⟩
  cases hchain with
  | refl => exact hsh
  | @link _ _ _ target r _ hlinked hresolve hchain =>
    have htarget : shellHost.node (bytes "/bin/sh") = .symlink (some (bytes "dash")) := by decide
    obtain rfl := Option.some.inj (Node.symlink.inj (htarget.symm.trans hlinked.node))
    have hdest : resolveSymlinkTarget (bytes "/bin/sh") ((bytes "dash").take (pathMax - 1)) pathMax =
        some (bytes "/bin/dash") := by decide
    obtain rfl := Option.some.inj (hdest.symm.trans hresolve)
    cases hchain with
    | refl => exact hdash
    | link hlinked _ _ =>
      have hfile : shellHost.node (bytes "/bin/dash") = .regular := by decide
      exact absurd (hfile.symm.trans hlinked.node) (by simp)

/-- `/bin/sh` is a link with one `..` more than it needs. -/
def deepHost : Host := .willing fun path =>
  if path = bytes "/bin/sh" then .symlink (some (bytes "../../usr/bin/dash"))
  else if path = bytes "/bin/../../usr/bin/dash" ∨ path = bytes "/usr/bin/dash" then .regular
  else .missing

/-- The file behind the link is written beside the rootfs. -/
theorem not_copies_stay :
    ¬ ∀ (hosts : Nat → Host) (rootfs hostPath : Bytes), rootfs ≠ [] → hostPath.head? = some 47 →
      ∀ calls, ∀ w ∈ (copyPathIntoRootfs rootfs calls hosts hostPath).1,
        (LexPath.ofPath rootfs).Under (LexPath.ofPath w.dst) := by
  intro hclaim
  have hwrites : (copyPathIntoRootfs (bytes "/srv/c1/rootfs") 2 (fun _ => deepHost)
        (bytes "/bin/sh")).1 =
      [.symlink (bytes "../../usr/bin/dash") (bytes "/srv/c1/rootfs/bin/sh"),
        .truncate (bytes "/srv/c1/rootfs/bin/../../usr/bin/dash")] := by decide +kernel
  have hunder := hclaim (fun _ => deepHost) (bytes "/srv/c1/rootfs") (bytes "/bin/sh") (by decide)
    (by decide) 2 (.truncate (bytes "/srv/c1/rootfs/bin/../../usr/bin/dash"))
    (by rw [hwrites]; simp)
  have houtside : ¬ (LexPath.ofPath (bytes "/srv/c1/rootfs")).names <+:
      (LexPath.ofPath (bytes "/srv/c1/rootfs/bin/../../usr/bin/dash")).names := by decide +kernel
  exact houtside hunder.names

end ContainerSim.Filesystem
