import ContainerSim.Lib.Run

/-!
# Root directories

A process has a root directory and a working directory in a tree. `..` does not
lead above the root, and `chroot` moves the root but leaves the working directory
where it is. A process that must not call it stays below its root
(`Jail.Inside.step`); one that may, and has a directory to move the root to, gets
to the top of the tree (`breakOut_runs`).
-/

namespace ContainerSim.Lib

/-- What a path is made of: a leading `/`, `..`, and names. -/
inductive Component (ν : Type*) where
  | slash
  | up
  | name (n : ν)
  deriving DecidableEq

/-- The root and the working directory of a process, both from the top of the
tree. -/
structure Jail (ν : Type*) where
  root : List ν
  cwd : List ν
  deriving DecidableEq

inductive JailAct (ν : Type*) where
  | chdir (path : List (Component ν))
  | chroot (path : List (Component ν))

variable {ν : Type*} [DecidableEq ν] {dirs : List ν → Bool} {mayChroot : Bool}

/-- The next component of a path, looked up from the directory `dir`. -/
def lookupComponent (dirs : List ν → Bool) (root dir : List ν) : Component ν → Option (List ν)
  | .slash => some root
  | .up => some (if dir = root then dir else dir.dropLast)
  | .name n => if dirs (dir ++ [n]) then some (dir ++ [n]) else none

/-- The directory a path leads to. -/
def Jail.resolve (dirs : List ν → Bool) (j : Jail ν) (path : List (Component ν)) :
    Option (List ν) :=
  path.foldlM (lookupComponent dirs j.root) j.cwd

/-- One call; `none` is a call that fails. -/
def jailStep (mayChroot : Bool) (dirs : List ν → Bool) (j : Jail ν) : JailAct ν → Option (Jail ν)
  | .chdir path => (j.resolve dirs path).map fun dir => { j with cwd := dir }
  | .chroot path =>
    if mayChroot then (j.resolve dirs path).map fun dir => { j with root := dir } else none

/-! ## Staying -/

/-- The process is below its root. -/
def Jail.Inside (root : List ν) (j : Jail ν) : Prop :=
  j.root = root ∧ root <+: j.cwd

theorem lookupComponent_below {root dir dir' : List ν} {c : Component ν} (hdir : root <+: dir)
    (h : lookupComponent dirs root dir c = some dir') : root <+: dir' := by
  cases c with
  | slash =>
    cases h
    exact List.prefix_refl root
  | up =>
    cases h
    split
    · exact hdir
    · rename_i hne
      obtain ⟨names, rfl⟩ := hdir
      have hnames : names ≠ [] := by
        rintro rfl
        exact hne (List.append_nil root)
      rw [List.dropLast_append_of_ne_nil hnames]
      exact List.prefix_append root _
  | name n =>
    simp only [lookupComponent, Option.ite_none_right_eq_some, Option.some.injEq] at h
    rw [← h.2]
    exact hdir.trans (List.prefix_append dir [n])

theorem foldlM_lookup_below {root dir dir' : List ν} {path : List (Component ν)}
    (hdir : root <+: dir) (h : path.foldlM (lookupComponent dirs root) dir = some dir') :
    root <+: dir' := by
  induction path generalizing dir with
  | nil =>
    cases h
    exact hdir
  | cons c path ih =>
    rw [List.foldlM_cons] at h
    obtain ⟨next, hnext, hrest⟩ := Option.bind_eq_some_iff.mp h
    exact ih (lookupComponent_below hdir hnext) hrest

theorem Jail.Inside.step {root : List ν} {j j' : Jail ν} {a : JailAct ν} (h : j.Inside root)
    (hs : jailStep false dirs j a = some j') : j'.Inside root := by
  cases a with
  | chdir path =>
    obtain ⟨dir, hdir, rfl⟩ := Option.map_eq_some_iff.mp hs
    refine ⟨h.1, ?_⟩
    rw [Jail.resolve, h.1] at hdir
    exact foldlM_lookup_below h.2 hdir
  | chroot path => cases hs

/-! ## Getting out -/

/-- `..` from a place that the root is not above. -/
theorem resolve_ups {root : List ν} (k : Nat) {cwd : List ν} (h : ¬ root <+: cwd) :
    (⟨root, cwd⟩ : Jail ν).resolve dirs (List.replicate k .up) =
      some (cwd.take (cwd.length - k)) := by
  induction k generalizing cwd with
  | zero =>
    show some cwd = _
    simp
  | succ k ih =>
    have hne : cwd ≠ root := by
      rintro rfl
      exact h (List.prefix_refl cwd)
    have hparent : ¬ root <+: cwd.dropLast := fun hp => h (hp.trans (List.dropLast_prefix cwd))
    show (some (if cwd = root then cwd else cwd.dropLast)).bind
      (fun dir => (List.replicate k Component.up).foldlM (lookupComponent dirs root) dir) = _
    rw [if_neg hne, Option.bind_some]
    have hrest := ih hparent
    rw [Jail.resolve] at hrest
    rw [hrest, List.dropLast_eq_take, List.take_take, List.length_take]
    congr 2
    omega

/-- Move the root down, climb past it, and move it to where that leads. -/
def breakOut (root : List ν) (name : ν) : List (JailAct ν) :=
  [.chroot [.name name], .chdir (List.replicate root.length .up), .chroot []]

theorem breakOut_runs {root : List ν} {name : ν} (hdir : dirs (root ++ [name]) = true) :
    Runs (jailStep true dirs) ⟨root, root⟩ (breakOut root name) ⟨[], []⟩ := by
  have hdown : jailStep true dirs ⟨root, root⟩ (.chroot [.name name]) =
      some ⟨root ++ [name], root⟩ := by
    simp [jailStep, Jail.resolve, lookupComponent, hdir]
  have hout : ¬ root ++ [name] <+: root := fun h => by
    have hlen := h.length_le
    rw [List.length_append, List.length_singleton] at hlen
    omega
  have hup : jailStep true dirs ⟨root ++ [name], root⟩
      (.chdir (List.replicate root.length .up)) = some ⟨root ++ [name], []⟩ := by
    rw [jailStep, resolve_ups root.length hout, Nat.sub_self]
    rfl
  exact .cons trivial hdown (.cons trivial hup (.cons trivial rfl (.nil _)))

end ContainerSim.Lib
