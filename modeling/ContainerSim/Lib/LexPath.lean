import ContainerSim.Lib.Bytes
import Mathlib.Data.List.Induction

/-!
# Paths without a file system

A path is resolved lexically component by component: nothing and `.` stay, `..`
goes up one directory, a name goes down. A walk from a directory first climbs
as often as its `..` outnumber the names before them and then goes down, so it
ends under the directory exactly if it does not climb or comes down again
through the names it has left (`under_walk_iff`).
-/

namespace ContainerSim.Lib

/-- A resolved path: the names below `/`, or below the directory `ups` levels
above the working directory. -/
structure LexPath where
  absolute : Bool
  ups : Nat
  names : List Bytes
  deriving DecidableEq, Repr

namespace LexPath

/-- `..`, which stays at `/`. -/
def up (p : LexPath) : LexPath :=
  if p.names ≠ [] then { p with names := p.names.dropLast }
  else if p.absolute then p
  else { p with ups := p.ups + 1 }

def enter (p : LexPath) (component : Bytes) : LexPath :=
  if component = [] ∨ component = [46] then p
  else if component = [46, 46] then p.up
  else { p with names := p.names ++ [component] }

def walk (p : LexPath) (components : List Bytes) : LexPath := components.foldl enter p

def origin (absolute : Bool) : LexPath := { absolute, ups := 0, names := [] }

def ofPath (path : Bytes) : LexPath :=
  (origin (path.head? = some 47)).walk (path.splitOn 47)

example : ofPath (bytes "/a/./b//../c") = ⟨true, 0, [bytes "a", bytes "c"]⟩ := by decide +kernel

example : ofPath (bytes "a/../../b") = ⟨false, 1, [bytes "b"]⟩ := by decide +kernel

/-- `..` `k` times. -/
def climb (p : LexPath) (k : Nat) : LexPath :=
  { p with
    ups := if p.absolute then p.ups else p.ups + (k - p.names.length)
    names := p.names.take (p.names.length - k) }

def down (p : LexPath) (names : List Bytes) : LexPath := { p with names := p.names ++ names }

/-- The path is the directory or below it. -/
structure Under (dir p : LexPath) : Prop where
  absolute : p.absolute = dir.absolute
  ups : p.ups = dir.ups
  names : dir.names <+: p.names

theorem climb_zero (p : LexPath) : p.climb 0 = p := by
  obtain ⟨absolute, ups, names⟩ := p
  simp [climb]

theorem up_of_names {p : LexPath} (h : p.names ≠ []) : p.up = { p with names := p.names.dropLast } :=
  if_pos h

theorem up_of_nil {p : LexPath} (h : p.names = []) :
    p.up = { p with ups := if p.absolute then p.ups else p.ups + 1 } := by
  rw [up, if_neg (not_not.mpr h)]
  split
  · rfl
  · rfl

theorem climb_succ (p : LexPath) (k : Nat) : (p.climb k).up = p.climb (k + 1) := by
  by_cases hk : k < p.names.length
  · have hne : (p.climb k).names ≠ [] := by
      show p.names.take (p.names.length - k) ≠ []
      rw [Ne, ← List.length_eq_zero_iff, List.length_take]
      omega
    have hcut : (p.names.take (p.names.length - k)).dropLast =
        p.names.take (p.names.length - (k + 1)) := by
      rw [List.dropLast_eq_take, List.length_take, List.take_take]
      congr 1
      omega
    rw [up_of_names hne, climb, climb, hcut, show k - p.names.length = 0 by omega,
      show k + 1 - p.names.length = 0 by omega]
  · have hnil : p.names.take (p.names.length - k) = [] := by
      rw [show p.names.length - k = 0 by omega, List.take_zero]
    have hnil' : p.names.take (p.names.length - (k + 1)) = [] := by
      rw [show p.names.length - (k + 1) = 0 by omega, List.take_zero]
    rw [up_of_nil hnil, climb, climb, hnil, hnil',
      show k + 1 - p.names.length = k - p.names.length + 1 by omega]
    cases p.absolute with
    | true => rfl
    | false => rfl

theorem up_down (p : LexPath) {names : List Bytes} (h : names ≠ []) :
    (p.down names).up = p.down names.dropLast := by
  have hne : (p.down names).names ≠ [] := List.append_ne_nil_of_right_ne_nil _ h
  rw [up_of_names hne, down, down, List.dropLast_append_of_ne_nil h]

theorem enter_absolute (p : LexPath) (c : Bytes) : (p.enter c).absolute = p.absolute := by
  unfold enter up
  repeat' split
  all_goals rfl

theorem walk_absolute (p : LexPath) (cs : List Bytes) : (p.walk cs).absolute = p.absolute := by
  induction cs generalizing p with
  | nil => rfl
  | cons c cs ih =>
    show ((p.enter c).walk cs).absolute = p.absolute
    rw [ih, enter_absolute]

theorem walk_concat (p : LexPath) (cs : List Bytes) (c : Bytes) :
    p.walk (cs ++ [c]) = (p.walk cs).enter c := by
  rw [walk, List.foldl_concat]
  rfl

/-- One component, entered from the end of a climb and a descent. -/
theorem enter_eq (p : LexPath) {r : LexPath} (hr : r.absolute = false) (c : Bytes) :
    ((p.climb r.ups).down r.names).enter c = (p.climb (r.enter c).ups).down (r.enter c).names := by
  by_cases hstay : c = [] ∨ c = [46]
  · rw [enter, enter, if_pos hstay, if_pos hstay]
  · by_cases hup : c = [46, 46]
    · rw [enter, enter, if_neg hstay, if_neg hstay, if_pos hup, if_pos hup]
      by_cases hnames : r.names = []
      · -- nothing to go up from: the climb gets longer
        rw [up_of_nil hnames, hnames, hr]
        show ((p.climb r.ups).down []).up = (p.climb (r.ups + 1)).down []
        rw [← climb_succ, down, down, List.append_nil, List.append_nil]
      · rw [up_of_names hnames, up_down _ hnames]
    · rw [enter, enter, if_neg hstay, if_neg hstay, if_neg hup, if_neg hup]
      simp only [down, List.append_assoc]

/-- A walk climbs as the walk from nowhere does and goes down its names. -/
theorem walk_eq (p : LexPath) (cs : List Bytes) :
    p.walk cs = (p.climb ((origin false).walk cs).ups).down ((origin false).walk cs).names := by
  induction cs using List.reverseRecOn with
  | nil =>
    show p = (p.climb 0).down []
    rw [climb_zero, down, List.append_nil]
  | append_singleton cs c ih =>
    rw [walk_concat, walk_concat, ih, enter_eq p (walk_absolute _ cs)]

/-- A walk ends under the directory it starts in exactly if it does not climb
past its names (or stays at `/`), and the names it has left come again first. -/
theorem under_walk_iff (p : LexPath) (cs : List Bytes) :
    p.Under (p.walk cs) ↔
      (((origin false).walk cs).ups ≤ p.names.length ∨ p.absolute = true) ∧
        p.names.drop (p.names.length - ((origin false).walk cs).ups) <+:
          ((origin false).walk cs).names := by
  rw [walk_eq]
  generalize ((origin false).walk cs).ups = k
  generalize ((origin false).walk cs).names = names
  have hnames : p.names <+: p.names.take (p.names.length - k) ++ names ↔
      p.names.drop (p.names.length - k) <+: names := by
    conv_lhs => lhs; rw [← List.take_append_drop (p.names.length - k) p.names]
    exact List.prefix_append_right_inj _
  constructor
  · rintro ⟨-, hups, hprefix⟩
    refine ⟨?_, hnames.mp hprefix⟩
    by_contra hnot
    rw [not_or] at hnot
    have hmore : (if p.absolute then p.ups else p.ups + (k - p.names.length)) = p.ups := hups
    rw [if_neg hnot.2] at hmore
    omega
  · rintro ⟨hclimb, hprefix⟩
    refine ⟨rfl, ?_, hnames.mpr hprefix⟩
    show (if p.absolute then p.ups else p.ups + (k - p.names.length)) = p.ups
    split
    · rfl
    · rename_i hrelative
      have hle := hclimb.resolve_right hrelative
      omega

/-- What is put behind a directory is walked from there. -/
theorem ofPath_append {dir path : Bytes} (hdir : dir ≠ []) (hpath : path.head? = some 47) :
    ofPath (dir ++ path) = (ofPath dir).walk (path.splitOn 47) := by
  obtain ⟨c, rest, rfl⟩ := List.exists_cons_of_ne_nil hdir
  cases path with
  | nil => cases hpath
  | cons s tail =>
    obtain rfl := Option.some.inj hpath
    have hsplit : (47 :: tail : Bytes).splitOn 47 = [] :: tail.splitOn 47 :=
      List.splitOn_append_cons_self [] tail
    rw [ofPath, ofPath, List.splitOn_append_cons_self, hsplit]
    show (LexPath.origin (some c = some 47)).walk _ = _
    rw [walk, List.foldl_append]
    rfl

end LexPath

end ContainerSim.Lib
