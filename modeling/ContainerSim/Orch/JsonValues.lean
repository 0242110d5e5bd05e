import ContainerSim.Orch.JsonRound

/-!
# JSON values and their texts

A value of a spec file, apart from how it is written and from how the parser
holds it. The tree that `jp_parse_value` builds stands for a value once `atof`
has been applied to its numbers; a text stands for it if it is a text of the
tree with the numbers printed. Within the bounds of the parser every value has
a text, and from every text of a value the parser gets the value back.
-/

namespace ContainerSim.Orch

open Lib

/-- A JSON value with numbers in `ρ`. -/
inductive JValue (ρ : Type) where
  | null
  | bool (b : Bool)
  | num (x : ρ)
  | str (s : Bytes)
  | arr (v : List (JValue ρ))
  | obj (kv : List (Bytes × JValue ρ))

section
variable {ρ σ : Type}

mutual

/-- Another form of the numbers. -/
def JValue.map (f : ρ → σ) : JValue ρ → JValue σ
  | .null => .null
  | .bool b => .bool b
  | .num x => .num (f x)
  | .str s => .str s
  | .arr v => .arr (mapElems f v)
  | .obj kv => .obj (mapMembers f kv)

def mapElems (f : ρ → σ) : List (JValue ρ) → List (JValue σ)
  | [] => []
  | x :: v => x.map f :: mapElems f v

def mapMembers (f : ρ → σ) : List (Bytes × JValue ρ) → List (Bytes × JValue σ)
  | [] => []
  | (k, x) :: kv => (k, x.map f) :: mapMembers f kv

end

theorem mapElems_eq (f : ρ → σ) (v : List (JValue ρ)) : mapElems f v = v.map (JValue.map f) := by
  induction v with
  | nil => rfl
  | cons x v ih => rw [mapElems, ih, List.map_cons]

theorem mapMembers_eq (f : ρ → σ) (kv : List (Bytes × JValue ρ)) :
    mapMembers f kv = kv.map fun m => (m.1, m.2.map f) := by
  induction kv with
  | nil => rfl
  | cons m kv ih => rw [mapMembers, ih, List.map_cons]

end

mutual

/-- What the tree of the parser stands for; the numbers are the texts of them. -/
def JNode.value : JNode → JValue Bytes
  | .null => .null
  | .bool b => .bool b
  | .num buf => .num buf
  | .str s => .str s
  | .arr v => .arr (valueElems v)
  | .obj kv => .obj (valueMembers kv)

def valueElems : List JNode → List (JValue Bytes)
  | [] => []
  | x :: v => x.value :: valueElems v

def valueMembers : List (Bytes × JNode) → List (Bytes × JValue Bytes)
  | [] => []
  | (k, x) :: kv => (k, x.value) :: valueMembers kv

end

mutual

/-- The tree that stands for a value. -/
def JValue.node : JValue Bytes → JNode
  | .null => .null
  | .bool b => .bool b
  | .num buf => .num buf
  | .str s => .str s
  | .arr v => .arr (nodeElems v)
  | .obj kv => .obj (nodeMembers kv)

def nodeElems : List (JValue Bytes) → List JNode
  | [] => []
  | x :: v => x.node :: nodeElems v

def nodeMembers : List (Bytes × JValue Bytes) → List (Bytes × JNode)
  | [] => []
  | (k, x) :: kv => (k, x.node) :: nodeMembers kv

end

mutual

theorem JValue.value_node : (v : JValue Bytes) → v.node.value = v
  | .null => rfl
  | .bool _ => rfl
  | .num _ => rfl
  | .str _ => rfl
  | .arr v => congrArg JValue.arr (valueElems_nodeElems v)
  | .obj kv => congrArg JValue.obj (valueMembers_nodeMembers kv)

theorem valueElems_nodeElems : (v : List (JValue Bytes)) → valueElems (nodeElems v) = v
  | [] => rfl
  | x :: v => congrArg₂ List.cons x.value_node (valueElems_nodeElems v)

theorem valueMembers_nodeMembers :
    (kv : List (Bytes × JValue Bytes)) → valueMembers (nodeMembers kv) = kv
  | [] => rfl
  | (k, x) :: kv =>
    congrArg₂ List.cons (congrArg (Prod.mk k) x.value_node) (valueMembers_nodeMembers kv)

end

theorem nodeElems_eq (v : List (JValue Bytes)) : nodeElems v = v.map JValue.node := by
  induction v with
  | nil => rfl
  | cons x v ih => rw [nodeElems, ih, List.map_cons]

theorem nodeMembers_eq (kv : List (Bytes × JValue Bytes)) :
    nodeMembers kv = kv.map fun m => (m.1, m.2.node) := by
  induction kv with
  | nil => rfl
  | cons m kv ih => rw [nodeMembers, ih, List.map_cons]

/-! ## The bounds -/

/-- Integers of at most 15 digits. -/
def ShortInt (i : Int) : Prop := i.natAbs < 10 ^ 15

instance (i : Int) : Decidable (ShortInt i) := inferInstanceAs (Decidable (_ < _))

/-- What the parser has room for. -/
inductive JValue.Small : JValue Int → Prop
  | null : Small .null
  | bool (b : Bool) : Small (.bool b)
  | num {i : Int} : ShortInt i → Small (.num i)
  | str {s : Bytes} : s.length ≤ 510 → (0 : UInt8) ∉ s → Small (.str s)
  | arr {v : List (JValue Int)} : v.length ≤ jpMaxArr → (∀ x ∈ v, Small x) → Small (.arr v)
  | obj {kv : List (Bytes × JValue Int)} : kv.length ≤ jpMaxObj →
      (∀ m ∈ kv, m.1.length ≤ 510 ∧ (0 : UInt8) ∉ m.1) → (∀ m ∈ kv, Small m.2) → Small (.obj kv)

/-- The tree of a value whose numbers are printed with `%d`. -/
def JValue.printed (v : JValue Int) : JNode := (v.map fmtInt).node

/-- The text stands for the value. -/
def JValue.Text (v : JValue Int) (text : Bytes) : Prop := ∃ depth, RendersAt depth v.printed text

theorem fmtInt_short {i : Int} (h : ShortInt i) : (fmtInt i).length ≤ 16 := by
  cases i with
  | ofNat n => exact Nat.le_trans (fmtNat_length_le (by decide) h) (by decide)
  | negSucc n => exact Nat.succ_le_succ (fmtNat_length_le (by decide) h)

theorem JValue.Small.within {v : JValue Int} (h : v.Small) : v.printed.Within := by
  induction h with
  | null => exact .null
  | bool b => exact .bool b
  | num hi => exact .num (Nat.le_trans (fmtInt_short hi) (by decide))
  | str hlen _ => exact .str hlen
  | @arr v hlen _ ih =>
    show JNode.Within (.arr (nodeElems (mapElems fmtInt v)))
    rw [mapElems_eq, nodeElems_eq, List.map_map]
    refine .arr ?_ ?_
    · rw [List.length_map]
      exact hlen
    · intro x hx
      obtain ⟨y, hy, rfl⟩ := List.mem_map.mp hx
      exact ih y hy
  | @obj kv hlen hkeys _ ih =>
    show JNode.Within (.obj (nodeMembers (mapMembers fmtInt kv)))
    rw [mapMembers_eq, nodeMembers_eq, List.map_map]
    refine .obj ?_ ?_ ?_
    · rw [List.length_map]
      exact hlen
    · intro m hm
      obtain ⟨y, hy, rfl⟩ := List.mem_map.mp hm
      exact (hkeys y hy).1
    · intro m hm
      obtain ⟨y, hy, rfl⟩ := List.mem_map.mp hm
      exact ih y hy

/-- An `atof` that is exact on short integers reads the printed numbers back. -/
theorem JValue.Small.map_map {ρ : Type} {atof : Bytes → ρ} {toNum : Int → ρ}
    (hexact : ∀ i, ShortInt i → atof (fmtInt i) = toNum i) {v : JValue Int} (h : v.Small) :
    (v.map fmtInt).map atof = v.map toNum := by
  induction h with
  | null => rfl
  | bool b => rfl
  | num hi => exact congrArg JValue.num (hexact _ hi)
  | str _ _ => rfl
  | @arr v _ _ ih =>
    show JValue.arr (mapElems atof (mapElems fmtInt v)) = .arr (mapElems toNum v)
    rw [mapElems_eq, mapElems_eq, mapElems_eq, List.map_map]
    exact congrArg JValue.arr (List.map_congr_left ih)
  | @obj kv _ _ _ ih =>
    show JValue.obj (mapMembers atof (mapMembers fmtInt kv)) = .obj (mapMembers toNum kv)
    rw [mapMembers_eq, mapMembers_eq, mapMembers_eq, List.map_map]
    exact congrArg JValue.obj (List.map_congr_left fun m hm => congrArg (Prod.mk m.1) (ih m hm))

/-! ## Every value has a text -/

/-- What holds at every large depth for each entry does so for all of them at once. -/
theorem exists_bound {α : Type} {P : Nat → α → Prop} (l : List α)
    (h : ∀ x ∈ l, ∃ d, ∀ d' ≥ d, P d' x) : ∃ d, ∀ x ∈ l, ∀ d' ≥ d, P d' x := by
  induction l with
  | nil => exact ⟨0, List.forall_mem_nil _⟩
  | cons a l ih =>
    rw [List.forall_mem_cons] at h
    obtain ⟨⟨d, hd⟩, hl⟩ := h
    obtain ⟨e, he⟩ := ih hl
    refine ⟨max d e, List.forall_mem_cons.mpr ⟨fun d' hd' => ?_, fun x hx d' hd' => ?_⟩⟩
    · exact hd d' (Nat.le_trans (Nat.le_max_left _ _) hd')
    · exact he x hx d' (Nat.le_trans (Nat.le_max_right _ _) hd')

theorem exists_bound_succ {P : Nat → Prop} (d : Nat) (h : ∀ e ≥ d, P (e + 1)) :
    ∃ d, ∀ d' ≥ d, P d' := by
  refine ⟨d + 1, fun d' hd' => ?_⟩
  obtain ⟨e, rfl⟩ := Nat.exists_eq_add_of_le' hd'
  exact h (e + d) (Nat.le_add_left d e)

theorem JValue.Small.printable {v : JValue Int} (h : v.Small) :
    ∃ d, ∀ d' ≥ d, PrintableAt d' v.printed := by
  induction h with
  | null => exact exists_bound_succ 0 fun _ _ => trivial
  | bool b => exact exists_bound_succ 0 fun _ _ => trivial
  | num _ => exact exists_bound_succ 0 fun _ _ => numberText_fmtInt _
  | str _ hnul => exact exists_bound_succ 0 fun _ _ => hnul
  | @arr v _ _ ih =>
    obtain ⟨d, hd⟩ := exists_bound v ih
    refine exists_bound_succ d fun e he => ?_
    show ∀ x ∈ nodeElems (mapElems fmtInt v), PrintableAt e x
    rw [mapElems_eq, nodeElems_eq, List.map_map]
    intro x hx
    obtain ⟨y, hy, rfl⟩ := List.mem_map.mp hx
    exact hd y hy e he
  | @obj kv _ hkeys _ ih =>
    obtain ⟨d, hd⟩ := exists_bound kv ih
    refine exists_bound_succ d fun e he => ?_
    show ∀ m ∈ nodeMembers (mapMembers fmtInt kv), (0 : UInt8) ∉ m.1 ∧ PrintableAt e m.2
    rw [mapMembers_eq, nodeMembers_eq, List.map_map]
    intro m hm
    obtain ⟨y, hy, rfl⟩ := List.mem_map.mp hm
    exact ⟨(hkeys y hy).2, hd y hy e he⟩

/-- What is printed for a value stands for it. -/
theorem JValue.Small.text_print {v : JValue Int} (h : v.Small) : v.Text (jpPrint v.printed) := by
  obtain ⟨d, hd⟩ := h.printable
  exact ⟨d, rendersAt_print (hd d (Nat.le_refl d))⟩

/-! ## The parser inverts printing -/

/-- **The parser inverts JSON printing.** Let the parser stand before a text `t`
of a value within its bounds, behind any blanks and comments, with the text
going on in a way that does not prolong a number (it may end), and with room for
the value in the arena. Then `jp_parse_value` returns a tree that is the value,
with `atof` applied to the numbers, and stops right behind `t`. -/
theorem jpParseValue_inverts {ρ : Type} {atof : Bytes → ρ} {toNum : Int → ρ}
    (hexact : ∀ i, ShortInt i → atof (fmtInt i) = toNum i) {v : JValue Int} (hv : v.Small)
    {t : Bytes} (ht : v.Text t) {p : JP} {b r : Bytes} (hb : Blank b) (hr : Follow r)
    (hp : p.rest = b ++ (t ++ r)) (harena : p.apos + arenaSize v.printed ≤ jpArena) :
    ∃ q node, jpParseValue jpMaxDepth p = (q, some node) ∧
      node.value.map atof = v.map toNum ∧
      q.src = p.src ∧ q.pos = p.pos + b.length + t.length := by
  obtain ⟨depth, htext⟩ := ht
  have hread := jpParseValue_readsIn htext hv.within (Nat.le_max_right jpMaxDepth depth) hb hr hp
  rw [ReadsIn, jpParseValue_depth (Nat.le_max_left jpMaxDepth depth)] at hread
  rcases hread with ⟨q, hq, htook⟩ | ⟨hfull, -⟩
  · refine ⟨q, v.printed, hq, ?_, htook.src, ?_⟩
    · rw [JValue.printed, JValue.value_node]
      exact hv.map_map hexact
    · rw [htook.pos, Nat.add_assoc]
  · omega

/-- `{"n": -7, "a": ["x\n", true, null]}` -/
def smallSpec : JValue Int :=
  .obj [(bytes "n", .num (-7)), (bytes "a", .arr [.str (bytes "x\n"), .bool true, .null])]

theorem smallSpec_small : smallSpec.Small := by
  refine .obj (by decide) (by decide) ?_
  intro m hm
  simp only [List.mem_cons, List.not_mem_nil, or_false] at hm
  rcases hm with rfl | rfl
  · exact .num (by decide)
  · refine .arr (by decide) ?_
    intro x hx
    simp only [List.mem_cons, List.not_mem_nil, or_false] at hx
    rcases hx with rfl | rfl | rfl
    · exact .str (by decide) (by decide)
    · exact .bool true
    · exact .null

theorem jpParseValue_inverts_small :
    ∃ q node, jpParseValue jpMaxDepth
        (.init (bytes " // x\n" ++ jpPrint smallSpec.printed)) = (q, some node) ∧
      node.value.map atoi = smallSpec.map id ∧
      q.pos = 6 + (jpPrint smallSpec.printed).length := by
  have hblank : Blank (32 :: 47 :: 47 :: (bytes " x" ++ 10 :: [])) :=
    .ws (by decide) (.comment (by decide) .nil)
  have hend : Follow [] := fun _ h => by cases h
  have hexact : ∀ i, ShortInt i → atoi (fmtInt i) = id i := fun i _ => atoi_fmtInt i
  obtain ⟨q, node, hq, hvalue, -, hpos⟩ := jpParseValue_inverts hexact smallSpec_small
    smallSpec_small.text_print (p := .init (bytes " // x\n" ++ jpPrint smallSpec.printed))
    hblank hend (by rw [List.append_nil]; rfl) (by decide +kernel)
  refine ⟨q, node, hq, hvalue, hpos.trans ?_⟩
  simp [JP.init, bytes]

end ContainerSim.Orch
