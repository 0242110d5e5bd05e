import ContainerSim.Filesystem.CopyPath
import ContainerSim.Lib.Jail

/-!
# Moving into the root file system

`filesystem_isolate_rootfs` tries `pivot_root` and falls back to `chroot`. Both
give the process the same root directory. They differ in what is above it:
`pivot_root` puts the root file system at the top of the mount namespace,
`chroot` leaves the host's file system there (`isolate_view`).
-/

namespace ContainerSim.Filesystem

open Lib

def EPERM : Nat := 1
def EINVAL : Nat := 22
def ENAMETOOLONG : Nat := 36

/-- `OLD_ROOT_DIR`. -/
def oldRootDir : Bytes := bytes ".old_root"

/-! ## Where a process is -/

/-- What is at the top of a mount namespace. -/
inductive Top where
  | host
  | rootfs
  deriving DecidableEq

/-- The directories of a process, from the top of its mount namespace. -/
structure View where
  top : Top
  jail : Jail Bytes
  /-- the host's file system is still mounted below the top -/
  oldRoot : Bool
  deriving DecidableEq

/-- The components of a path, without the empty ones and `.`. -/
def components (path : Bytes) : List (Component Bytes) :=
  (if path.head? = some 47 then [.slash] else []) ++
    ((path.splitOn 47).filter fun c => c ≠ [] ∧ c ≠ [46]).map fun c =>
      if c = [46, 46] then .up else .name c

namespace View

/-- A `chdir` that works: the directories on the way are there. -/
def chdir (path : Bytes) (v : View) : View :=
  { v with jail := { v.jail with
      cwd := (v.jail.resolve (fun _ => true) (components path)).getD v.jail.cwd } }

/-- `chroot(".")`. -/
def chrootHere (v : View) : View := { v with jail := { v.jail with root := v.jail.cwd } }

/-- `pivot_root(".", ".old_root")`: the working directory becomes the top. -/
def pivotRoot (v : View) : View :=
  { v with top := .rootfs, jail := ⟨[], []⟩, oldRoot := true }

/-- `umount2` of the old root. -/
def detach (v : View) : View := { v with oldRoot := false }

/-- The child of `clone`, in the working directory of its parent. -/
def start (cwd : List Bytes) : View := { top := .host, jail := ⟨[], cwd⟩, oldRoot := false }

end View

/-! ## The calls -/

/-- A chain of calls, each with its answer, `none` for success, and its effect;
the first that fails ends the chain with its `errno`. -/
def runCalls : List (Option Nat × (View → View)) → View → View × Option Nat
  | [], v => (v, none)
  | (some errno, _) :: _, v => (v, some errno)
  | (none, effect) :: calls, v => runCalls calls (effect v)

/-- `path_join`. -/
def pathJoin (bufferSize : Nat) (left right : Bytes) : Option Bytes :=
  let path := left ++ [47] ++ right
  if path.length ≥ bufferSize then none else some path

/-- Answers for one `enter_root_with_pivot_root`. -/
structure PivotOutcome where
  bind : Option Nat
  mkdir : Option Nat
  chdir : Option Nat
  pivotRoot : Option Nat
  chdirRoot : Option Nat
  umount : Option Nat
  rmdir : Option Nat

/-- `enter_root_with_pivot_root`. -/
def enterRootWithPivotRoot (o : PivotOutcome) (rootfs : Bytes) : View → View × Option Nat :=
  let joined := if pathJoin pathMax rootfs oldRootDir = none then some ENAMETOOLONG else none
  runCalls
    [(o.bind, id), (joined, id), (o.mkdir, id), (o.chdir, View.chdir rootfs),
      (o.pivotRoot, View.pivotRoot), (o.chdirRoot, View.chdir [47]), (o.umount, View.detach),
      (o.rmdir, id)]

/-- Answers for one `enter_root_with_chroot`. -/
structure ChrootOutcome where
  chdir : Option Nat
  chroot : Option Nat
  chdirRoot : Option Nat

/-- `enter_root_with_chroot`. -/
def enterRootWithChroot (o : ChrootOutcome) (rootfs : Bytes) : View → View × Option Nat :=
  runCalls
    [(o.chdir, View.chdir rootfs), (o.chroot, View.chrootHere), (o.chdirRoot, View.chdir [47])]

/-- Answers for one `filesystem_isolate_rootfs`. -/
structure IsolateOutcome where
  makePrivate : Option Nat
  pivot : PivotOutcome
  chroot : ChrootOutcome
  proc : Option Nat

/-- Its last call, `mount` of `/proc`. -/
def mountProc (o : IsolateOutcome) (v : View) : View × Option Nat :=
  match o.proc with
  | none => (v, none)
  | some errno => if errno ≠ EPERM then (v, some errno) else (v, none)

/-- `filesystem_isolate_rootfs`: where the process is then, and the `errno` if it
returns -1. -/
def filesystemIsolateRootfs (o : IsolateOutcome) (rootfs : Option Bytes) (v : View) :
    View × Option Nat :=
  match rootfs with
  | none | some [] => (v, some EINVAL)
  | some rootfs =>
    let blocked := o.makePrivate.filter (· ≠ EPERM)
    match blocked with
    | some errno => (v, some errno)
    | none =>
      match enterRootWithPivotRoot o.pivot rootfs v with
      | (v, none) => mountProc o v
      | (v, some errno) =>
        if errno ≠ EPERM ∧ errno ≠ EINVAL then (v, some errno)
        else
          match enterRootWithChroot o.chroot rootfs v with
          | (v, some errno) => (v, some errno)
          | (v, none) => mountProc o v

/-! ## Where that leads -/

/-- A path as `realpath` gives it: absolute and without `..`. -/
structure RealPath (path : Bytes) : Prop where
  absolute : path.head? = some 47
  noUp : [46, 46] ∉ path.splitOn 47

instance (path : Bytes) : Decidable (RealPath path) :=
  decidable_of_iff (path.head? = some 47 ∧ [46, 46] ∉ path.splitOn 47)
    ⟨fun h => ⟨h.1, h.2⟩, fun h => ⟨h.absolute, h.noUp⟩⟩

/-- The names on a path. -/
def namesOf (path : Bytes) : List Bytes := (path.splitOn 47).filter fun c => c ≠ [] ∧ c ≠ [46]

theorem components_real {path : Bytes} (h : RealPath path) :
    components path = .slash :: (namesOf path).map .name := by
  unfold components namesOf
  rw [if_pos h.absolute, List.singleton_append]
  congr 1
  refine List.map_congr_left fun c hc => if_neg ?_
  rintro rfl
  exact h.noUp (List.mem_of_mem_filter hc)

theorem foldlM_names (root dir names : List Bytes) :
    (names.map Component.name).foldlM (lookupComponent (fun _ => true) root) dir =
      some (dir ++ names) := by
  induction names generalizing dir with
  | nil => simp
  | cons n names ih =>
    rw [List.map_cons, List.foldlM_cons]
    show Option.bind (some (dir ++ [n])) _ = _
    rw [Option.bind_some, ih, List.append_assoc, List.singleton_append]

@[simp] theorem View.chdir_root (v : View) :
    v.chdir [47] = { v with jail := { v.jail with cwd := v.jail.root } } := rfl

theorem View.chdir_real {path : Bytes} (h : RealPath path) (v : View) :
    v.chdir path = { v with jail := { v.jail with cwd := v.jail.root ++ namesOf path } } := by
  have hresolve : v.jail.resolve (fun _ => true) (components path) =
      some (v.jail.root ++ namesOf path) := by
    rw [components_real h]
    exact foldlM_names v.jail.root v.jail.root (namesOf path)
  rw [View.chdir, hresolve, Option.getD_some]

/-- The calls behind `pivot_root` fail with neither `EPERM` nor `EINVAL`: the old
root is a mount of the process's own namespace, and its directory is empty. -/
structure IsolateOutcome.Settled (o : IsolateOutcome) : Prop where
  chdirRoot : o.pivot.chdirRoot ≠ some EPERM ∧ o.pivot.chdirRoot ≠ some EINVAL
  umount : o.pivot.umount ≠ some EPERM ∧ o.pivot.umount ≠ some EINVAL
  rmdir : o.pivot.rmdir ≠ some EPERM ∧ o.pivot.rmdir ≠ some EINVAL

/-- `enter_root_with_pivot_root` works, fails before the root has moved, or fails
behind that. -/
theorem enterRootWithPivotRoot_cases (o : PivotOutcome) (rootfs : Bytes) (v : View) :
    enterRootWithPivotRoot o rootfs v =
      ({ top := .rootfs, jail := ⟨[], []⟩, oldRoot := false }, none) ∨
    (∃ errno cwd, enterRootWithPivotRoot o rootfs v =
      ({ v with jail := { v.jail with cwd } }, some errno)) ∨
    ∃ errno, (enterRootWithPivotRoot o rootfs v).2 = some errno ∧
      (o.chdirRoot = some errno ∨ o.umount = some errno ∨ o.rmdir = some errno) := by
  unfold enterRootWithPivotRoot
  cases o.bind with
  | some e => exact .inr (.inl ⟨e, v.jail.cwd, rfl⟩)
  | none =>
    by_cases hjoin : pathJoin pathMax rootfs oldRootDir = none
    · rw [if_pos hjoin]
      exact .inr (.inl ⟨ENAMETOOLONG, v.jail.cwd, rfl⟩)
    · rw [if_neg hjoin]
      cases o.mkdir with
      | some e => exact .inr (.inl ⟨e, v.jail.cwd, rfl⟩)
      | none =>
        cases o.chdir with
        | some e => exact .inr (.inl ⟨e, v.jail.cwd, rfl⟩)
        | none =>
          cases o.pivotRoot with
          | some e => exact .inr (.inl ⟨e, _, rfl⟩)
          | none =>
            -- the root has moved
            cases o.chdirRoot with
            | some e => exact .inr (.inr ⟨e, rfl, .inl rfl⟩)
            | none =>
              cases o.umount with
              | some e => exact .inr (.inr ⟨e, rfl, .inr (.inl rfl)⟩)
              | none =>
                cases o.rmdir with
                | some e => exact .inr (.inr ⟨e, rfl, .inr (.inr rfl)⟩)
                | none => exact .inl rfl

theorem enterRootWithChroot_none {o : ChrootOutcome} {rootfs : Bytes} (h : RealPath rootfs)
    {v : View} (hok : (enterRootWithChroot o rootfs v).2 = none) :
    (enterRootWithChroot o rootfs v).1 = { v with jail :=
      ⟨v.jail.root ++ namesOf rootfs, v.jail.root ++ namesOf rootfs⟩ } := by
  unfold enterRootWithChroot at hok ⊢
  cases hchdir : o.chdir with
  | some e =>
    rw [hchdir] at hok
    cases hok
  | none =>
    cases hchroot : o.chroot with
    | some e =>
      rw [hchdir, hchroot] at hok
      cases hok
    | none =>
      cases hchdirRoot : o.chdirRoot with
      | some e =>
        rw [hchdir, hchroot, hchdirRoot] at hok
        cases hok
      | none =>
        show ((v.chdir rootfs).chrootHere).chdir [47] = _
        rw [View.chdir_root, View.chrootHere, View.chdir_real h]

theorem mountProc_view (o : IsolateOutcome) (v : View) : (mountProc o v).1 = v := by
  unfold mountProc
  cases o.proc with
  | none => rfl
  | some e => by_cases he : e = EPERM <;> simp [he]

/-- `pivot_root` and what is around it work. -/
def IsolateOutcome.Pivots (o : IsolateOutcome) (rootfs : Bytes) (cwd : List Bytes) : Prop :=
  (enterRootWithPivotRoot o.pivot rootfs (.start cwd)).2 = none

instance (o : IsolateOutcome) (rootfs : Bytes) (cwd : List Bytes) :
    Decidable (o.Pivots rootfs cwd) := by
  unfold IsolateOutcome.Pivots
  infer_instance

/-- Where `filesystem_isolate_rootfs` leaves a process when it returns 0. -/
def isolated (pivots : Prop) [Decidable pivots] (rootfs : Bytes) : View :=
  if pivots then { top := .rootfs, jail := ⟨[], []⟩, oldRoot := false }
  else { top := .host, jail := ⟨namesOf rootfs, namesOf rootfs⟩, oldRoot := false }

/-- **Where isolation leads**: the root file system becomes the top, or the host's
stays there and the root directory is below it. -/
theorem isolate_view {o : IsolateOutcome} (hsettled : o.Settled) {rootfs : Bytes}
    (h : RealPath rootfs) {cwd : List Bytes}
    (hok : (filesystemIsolateRootfs o (some rootfs) (.start cwd)).2 = none) :
    (filesystemIsolateRootfs o (some rootfs) (.start cwd)).1 =
      isolated (o.Pivots rootfs cwd) rootfs := by
  have hne : rootfs ≠ [] := by
    rintro rfl
    cases h.absolute
  obtain ⟨b, bs, rfl⟩ := List.exists_cons_of_ne_nil hne
  unfold filesystemIsolateRootfs at hok ⊢
  simp only at hok ⊢
  -- only EPERM is tolerated of the first call
  cases hblocked : o.makePrivate.filter (· ≠ EPERM) with
  | some e =>
    rw [hblocked] at hok
    cases hok
  | none =>
    rw [hblocked] at hok
    simp only at hok ⊢
    rcases enterRootWithPivotRoot_cases o.pivot (b :: bs) (.start cwd) with
      hpivot | ⟨e, cwd', hpivot⟩ | ⟨e, he, hlate⟩
    · have hpivots : o.Pivots (b :: bs) cwd := by rw [IsolateOutcome.Pivots, hpivot]
      simp only [hpivot, mountProc_view, isolated, hpivots, if_true]
    · have hpivots : ¬ o.Pivots (b :: bs) cwd := by simp [IsolateOutcome.Pivots, hpivot]
      simp only [hpivot] at hok ⊢
      split at hok
      · cases hok
      · -- the fall-back for EPERM and EINVAL: `chroot` from where the process is
        rename_i hfallback
        rw [if_neg hfallback]
        cases hchroot : enterRootWithChroot o.chroot (b :: bs)
            { View.start cwd with jail := { (View.start cwd).jail with cwd := cwd' } } with
        | mk v answer =>
          rw [hchroot] at hok
          cases answer with
          | some e => cases hok
          | none =>
            have hview := enterRootWithChroot_none h (congrArg Prod.snd hchroot)
            rw [hchroot] at hview
            simp only at hview
            simp only [mountProc_view, isolated, hpivots, if_false, hview, View.start,
              List.nil_append]
    · -- `pivot_root` has worked and a call behind it has not
      exfalso
      cases hr : enterRootWithPivotRoot o.pivot (b :: bs) (.start cwd) with
      | mk v answer =>
        rw [hr] at he hok
        simp only at he
        subst he
        simp only at hok
        split at hok
        · cases hok
        · rename_i hfallback
          rw [not_and_or, not_not, not_not] at hfallback
          rcases hlate with hlate | hlate | hlate
          · rcases hfallback with rfl | rfl
            · exact hsettled.chdirRoot.1 hlate
            · exact hsettled.chdirRoot.2 hlate
          · rcases hfallback with rfl | rfl
            · exact hsettled.umount.1 hlate
            · exact hsettled.umount.2 hlate
          · rcases hfallback with rfl | rfl
            · exact hsettled.rmdir.1 hlate
            · exact hsettled.rmdir.2 hlate

end ContainerSim.Filesystem
