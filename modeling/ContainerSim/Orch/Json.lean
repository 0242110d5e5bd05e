import ContainerSim.Lib.Decimal

/-!
# The JSON parser of the orchestrator

The `jp_*` functions of `orchestrator.c`: recursive descent over a text in
memory, with all nodes in an arena of 128 KB. A parser state is the text, the
read position, the fill of the arena and the last error; a function returns
the state it leaves and its result, `none` for `NULL`.

The recursion is over a bound on the nesting depth. Each level of nesting
takes at least 544 bytes of the arena, so `jpMaxDepth` levels are more than any
text can use (`jpParseValue_depth`).
-/

namespace ContainerSim.Orch

open Lib

def jpArena : Nat := 128 * 1024
def jpMaxObj : Nat := 64
def jpMaxArr : Nat := 64

/-- `sizeof(JNode)` and `sizeof(void *)` on a 64-bit machine. -/
def jnodeSize : Nat := 32
def ptrSize : Nat := 8

/-- A `JNode`. A number is kept as the text that `atof` is applied to. -/
inductive JNode where
  | null
  | bool (b : Bool)
  | num (buf : Bytes)
  | str (s : Bytes)
  | arr (v : List JNode)
  | obj (kv : List (Bytes × JNode))

structure JP where
  src : Bytes
  pos : Nat
  apos : Nat
  err : Bytes
  deriving DecidableEq, Repr

namespace JP

def init (src : Bytes) : JP := { src, pos := 0, apos := 0, err := [] }

/-- The text from the read position on. -/
def rest (p : JP) : Bytes := p.src.drop p.pos

/-- `src[pos]`, or `'\0'` from the end on. -/
def cur (p : JP) : UInt8 := p.rest.headD 0

def advance (p : JP) (n : Nat) : JP := { p with pos := p.pos + n }

/-- `snprintf(p->err, sizeof(p->err), ...)`. -/
def fail (p : JP) (msg : Bytes) : JP := { p with err := snprintfStr 128 (cstr msg) }

end JP

/-- `jp_alloc`, and whether it succeeded. -/
def jpAlloc (sz : Nat) (p : JP) : JP × Bool :=
  let aligned := (sz + 7) / 8 * 8
  if p.apos + aligned > jpArena then (p.fail (bytes "arena exhausted"), false)
  else ({ p with apos := p.apos + aligned }, true)

def isWs (c : UInt8) : Bool := c = 32 || c = 9 || c = 10 || c = 13

/-- How far `jp_skip_ws` goes, inside a `//` comment or outside of one. -/
def wsLength : Bool → Bytes → Nat
  | _, [] => 0
  | true, c :: s => if c = 10 then wsLength false s + 1 else wsLength true s + 1
  | false, c :: s =>
    if isWs c then wsLength false s + 1
    else if c = 47 ∧ s.head? = some 47 then wsLength true s + 1
    else 0

def jpSkipWs (p : JP) : JP := p.advance (wsLength false p.rest)

/-- `jp_peek`. -/
def jpPeek (p : JP) : JP × UInt8 := (jpSkipWs p, (jpSkipWs p).cur)

/-- `jp_consume`. -/
def jpConsume (p : JP) : JP × UInt8 :=
  let p := jpSkipWs p
  if p.pos < p.src.length then (p.advance 1, p.cur) else (p, 0)

/-- `jp_node`. -/
def jpNode (p : JP) : JP × Bool := jpAlloc jnodeSize p

/-- The `switch` on the character behind a backslash. -/
def unescape (c : UInt8) : UInt8 :=
  if c = 110 then 10 else if c = 116 then 9 else if c = 114 then 13 else c

/-- The loop of `jp_raw_string`: at most `n` characters for `tmp`, and how much
text they take. -/
def rawString : Nat → Bytes → Bytes × Nat
  | 0, _ => ([], 0)
  | _ + 1, [] => ([], 0)
  | n + 1, c :: s =>
    if c = 34 then ([], 0)
    else if c = 92 then
      match s with
      | [] => ([], 1)
      | e :: s =>
        let (tmp, k) := rawString n s
        (unescape e :: tmp, k + 2)
    else
      let (tmp, k) := rawString n s
      (c :: tmp, k + 1)

/-- `jp_raw_string`; the result is what a reader of the C string sees. -/
def jpRawString (p : JP) : JP × Option Bytes :=
  let (p, c) := jpConsume p
  if c ≠ 34 then (p.fail (bytes "expected '\"' at pos " ++ fmtNat p.pos), none)
  else
    let (tmp, k) := rawString 510 p.rest
    let p := p.advance k
    let p := if p.cur = 34 then p.advance 1 else p
    let (p, ok) := jpAlloc (tmp.length + 1) p
    (p, if ok then some (cstr tmp) else none)

/-- `jp_parse_string`. -/
def jpParseString (p : JP) : JP × Option JNode :=
  let (p, ok) := jpNode p
  if !ok then (p, none)
  else
    let (p, s) := jpRawString p
    (p, s.map .str)

def isNumChar (c : UInt8) : Bool :=
  (48 ≤ c && c ≤ 57) || c = 45 || c = 43 || c = 46 || c = 101 || c = 69

/-- `jp_parse_number`. -/
def jpParseNumber (p : JP) : JP × Option JNode :=
  let p := jpSkipWs p
  let buf := (p.rest.takeWhile isNumChar).take 63
  let (p, ok) := jpNode (p.advance buf.length)
  (p, if ok then some (.num buf) else none)

/-- `if (jp_peek(p) == c) jp_consume(p);` -/
def jpOptional (c : UInt8) (p : JP) : JP :=
  let (p, d) := jpPeek p
  if d = c then p.advance 1 else p

/-- The loop of `jp_parse_object` and `jp_parse_array`, up to the closing
character, with room for `n` more entries. -/
def jpEntries {α : Type} (entry : JP → JP × Option α) (close : UInt8) :
    Nat → JP → List α → JP × Option (List α)
  | 0, p, acc => (jpSkipWs p, some acc)
  | n + 1, p, acc =>
    let (p, c) := jpPeek p
    if c = close ∨ c = 0 then (p, some acc)
    else
      match entry p with
      | (p, none) => (p, none)
      | (p, some e) => jpEntries entry close n (jpOptional 44 p) (acc ++ [e])

/-- The part of the loop in `jp_parse_object` that reads one member. -/
def jpMember (value : JP → JP × Option JNode) (p : JP) : JP × Option (Bytes × JNode) :=
  match jpRawString p with
  | (p, none) => (p, none)
  | (p, some key) =>
    let (p, colon) := jpConsume p
    if colon ≠ 58 then (p, none)
    else
      let (p, val) := value p
      (p, val.map fun val => (key, val))

/-- `jp_parse_object`. -/
def jpParseObject (value : JP → JP × Option JNode) (p : JP) : JP × Option JNode :=
  let (p, c) := jpConsume p
  if c ≠ 123 then (p.fail (bytes "expected '\x7b'"), none)
  else
    let (p, ok) := jpNode p
    if !ok then (p, none)
    else
      let (p, okKeys) := jpAlloc (jpMaxObj * ptrSize) p
      let (p, okVals) := jpAlloc (jpMaxObj * ptrSize) p
      if !okKeys || !okVals then (p, none)
      else
        match jpEntries (jpMember value) 125 jpMaxObj p [] with
        | (p, none) => (p, none)
        | (p, some kv) => (jpOptional 125 p, some (.obj kv))

/-- `jp_parse_array`. -/
def jpParseArray (value : JP → JP × Option JNode) (p : JP) : JP × Option JNode :=
  let (p, c) := jpConsume p
  if c ≠ 91 then (p.fail (bytes "expected '['"), none)
  else
    let (p, ok) := jpNode p
    if !ok then (p, none)
    else
      let (p, okItems) := jpAlloc (jpMaxArr * ptrSize) p
      if !okItems then (p, none)
      else
        match jpEntries value 93 jpMaxArr p [] with
        | (p, none) => (p, none)
        | (p, some v) => (jpOptional 93 p, some (.arr v))

/-- A keyword: its first character has been seen, the rest is passed over. -/
def jpParseWord (len : Nat) (v : JNode) (p : JP) : JP × Option JNode :=
  let (p, ok) := jpNode (p.advance len)
  (p, if ok then some v else none)

/-- `jp_parse_value`, at most `depth` levels deep. -/
def jpParseValue : Nat → JP → JP × Option JNode
  | 0, p => (p, none)
  | depth + 1, p =>
    let (p, c) := jpPeek p
    if c = 123 then jpParseObject (jpParseValue depth) p
    else if c = 91 then jpParseArray (jpParseValue depth) p
    else if c = 34 then jpParseString p
    else if c = 116 then jpParseWord 4 (.bool true) p
    else if c = 102 then jpParseWord 5 (.bool false) p
    else if c = 110 then jpParseWord 4 .null p
    else if c = 45 ∨ (48 ≤ c ∧ c ≤ 57) then jpParseNumber p
    else
      (p.fail (bytes "unexpected char '" ++ [c] ++ bytes "' at pos " ++ fmtNat p.pos), none)

/-- More levels than the arena has room for. -/
def jpMaxDepth : Nat := jpArena / 544 + 2

/-! ## Reading the tree -/

/-- `jp_get`. -/
def jpGet (obj : JNode) (key : Bytes) : Option JNode :=
  match obj with
  | .obj kv => (kv.find? fun m => m.1 = key).map (·.2)
  | _ => none

/-- `jp_str`. -/
def jpStr : JNode → Option Bytes
  | .str s => some s
  | _ => none

/-- `jp_int`; `toInt` is `(int)atof(buf)`. -/
def jpInt (toInt : Bytes → Int) (n : Option JNode) (default : Int) : Int :=
  match n with
  | some (.num buf) => toInt buf
  | _ => default

/-! ## The depth bound -/

theorem jpAlloc_apos (sz : Nat) (p : JP) :
    p.apos ≤ (jpAlloc sz p).1.apos ∧
    ((jpAlloc sz p).2 = true →
      p.apos + (sz + 7) / 8 * 8 = (jpAlloc sz p).1.apos ∧ (jpAlloc sz p).1.apos ≤ jpArena) := by
  unfold jpAlloc
  simp only
  split
  · exact ⟨Nat.le_refl _, nofun⟩
  · rename_i hroom
    exact ⟨Nat.le_add_right _ _, fun _ => ⟨rfl, Nat.le_of_not_lt hroom⟩⟩

@[simp] theorem JP.apos_advance (p : JP) (n : Nat) : (p.advance n).apos = p.apos := rfl

@[simp] theorem JP.apos_fail (p : JP) (msg : Bytes) : (p.fail msg).apos = p.apos := rfl

@[simp] theorem jpSkipWs_apos (p : JP) : (jpSkipWs p).apos = p.apos := rfl

@[simp] theorem jpPeek_apos (p : JP) : (jpPeek p).1.apos = p.apos := rfl

@[simp] theorem jpConsume_apos (p : JP) : (jpConsume p).1.apos = p.apos := by
  unfold jpConsume
  simp only
  split
  · rfl
  · rfl

@[simp] theorem jpOptional_apos (c : UInt8) (p : JP) : (jpOptional c p).apos = p.apos := by
  unfold jpOptional
  simp only
  split
  · rfl
  · rfl

theorem jpRawString_apos (p : JP) : p.apos ≤ (jpRawString p).1.apos := by
  unfold jpRawString
  simp only
  split
  · simp
  · refine Nat.le_trans (Nat.le_of_eq ?_) (jpAlloc_apos _ _).1
    split
    · simp
    · simp

/-- A parser that never gives arena back. -/
def ArenaGrows {α : Type} (read : JP → JP × Option α) : Prop := ∀ p, p.apos ≤ (read p).1.apos

/-- The two parsers agree once the arena is filled up to `a`. -/
def AgreeFrom {α : Type} (a : Nat) (read read' : JP → JP × Option α) : Prop :=
  ∀ p, a ≤ p.apos → read p = read' p

theorem jpEntries_apos {α : Type} {entry : JP → JP × Option α} (hgrow : ArenaGrows entry)
    (close : UInt8) (n : Nat) (p : JP) (acc : List α) :
    p.apos ≤ (jpEntries entry close n p acc).1.apos := by
  induction n generalizing p acc with
  | zero => exact Nat.le_refl _
  | succ n ih =>
    unfold jpEntries
    simp only
    split
    · exact Nat.le_refl _
    have hentry := hgrow (jpPeek p).1
    rw [jpPeek_apos] at hentry
    generalize entry (jpPeek p).1 = r at hentry ⊢
    obtain ⟨p₁, e⟩ := r
    cases e with
    | none => exact hentry
    | some e =>
      refine Nat.le_trans ?_ (ih _ _)
      rw [jpOptional_apos]
      exact hentry

theorem jpEntries_congr {α : Type} {entry entry' : JP → JP × Option α} {a : Nat}
    (hgrow : ArenaGrows entry) (hagree : AgreeFrom a entry entry') (close : UInt8) (n : Nat) {p : JP}
    (hp : a ≤ p.apos) (acc : List α) :
    jpEntries entry close n p acc = jpEntries entry' close n p acc := by
  induction n generalizing p acc with
  | zero => rfl
  | succ n ih =>
    unfold jpEntries
    simp only
    split
    · rfl
    have hpeek : a ≤ (jpPeek p).1.apos := by
      rw [jpPeek_apos]
      exact hp
    rw [← hagree _ hpeek]
    have hentry := Nat.le_trans hpeek (hgrow (jpPeek p).1)
    generalize entry (jpPeek p).1 = r at hentry ⊢
    obtain ⟨p₁, e⟩ := r
    cases e with
    | none => rfl
    | some e =>
      refine ih ?_ _
      rw [jpOptional_apos]
      exact hentry

section
variable {value value' : JP → JP × Option JNode}

theorem jpMember_grows (hgrow : ArenaGrows value) : ArenaGrows (jpMember value) := by
  intro p
  have hkey := jpRawString_apos p
  unfold jpMember
  generalize jpRawString p = r at hkey ⊢
  obtain ⟨p₁, key⟩ := r
  cases key with
  | none => exact hkey
  | some key =>
    have hcolon : p.apos ≤ (jpConsume p₁).1.apos := by
      rw [jpConsume_apos]
      exact hkey
    simp only
    split
    · exact hcolon
    · exact Nat.le_trans hcolon (hgrow (jpConsume p₁).1)

theorem jpMember_agree {a : Nat} (hagree : AgreeFrom a value value') :
    AgreeFrom a (jpMember value) (jpMember value') := by
  intro p hp
  have hkey := jpRawString_apos p
  unfold jpMember
  generalize jpRawString p = r at hkey ⊢
  obtain ⟨p₁, key⟩ := r
  cases key with
  | none => rfl
  | some key =>
    have hcolon : a ≤ (jpConsume p₁).1.apos := by
      rw [jpConsume_apos]
      exact Nat.le_trans hp hkey
    simp only
    split
    · rfl
    · rw [hagree _ hcolon]

theorem jpParseObject_apos (hgrow : ArenaGrows value) (p : JP) :
    p.apos ≤ (jpParseObject value p).1.apos := by
  have hopen := jpConsume_apos p
  unfold jpParseObject
  simp only
  generalize (jpConsume p).1 = p₁ at hopen ⊢
  split
  · exact Nat.le_of_eq hopen.symm
  have hnode := (jpAlloc_apos jnodeSize p₁).1
  rw [← jpNode] at hnode
  generalize jpNode p₁ = r at hnode ⊢
  split
  · exact hopen ▸ hnode
  have hkeys := (jpAlloc_apos (jpMaxObj * ptrSize) r.1).1
  generalize jpAlloc (jpMaxObj * ptrSize) r.1 = k at hkeys ⊢
  have hvals := (jpAlloc_apos (jpMaxObj * ptrSize) k.1).1
  generalize jpAlloc (jpMaxObj * ptrSize) k.1 = v at hvals ⊢
  have hall : p.apos ≤ v.1.apos := by omega
  split
  · exact hall
  have hloop := Nat.le_trans hall (jpEntries_apos (jpMember_grows hgrow) 125 jpMaxObj v.1 [])
  generalize jpEntries (jpMember value) 125 jpMaxObj v.1 [] = l at hloop ⊢
  obtain ⟨p₂, kv⟩ := l
  cases kv with
  | none => exact hloop
  | some kv => exact (jpOptional_apos 125 p₂).symm ▸ hloop

theorem jpParseArray_apos (hgrow : ArenaGrows value) (p : JP) :
    p.apos ≤ (jpParseArray value p).1.apos := by
  have hopen := jpConsume_apos p
  unfold jpParseArray
  simp only
  generalize (jpConsume p).1 = p₁ at hopen ⊢
  split
  · exact Nat.le_of_eq hopen.symm
  have hnode := (jpAlloc_apos jnodeSize p₁).1
  rw [← jpNode] at hnode
  generalize jpNode p₁ = r at hnode ⊢
  split
  · exact hopen ▸ hnode
  have hitems := (jpAlloc_apos (jpMaxArr * ptrSize) r.1).1
  generalize jpAlloc (jpMaxArr * ptrSize) r.1 = k at hitems ⊢
  have hall : p.apos ≤ k.1.apos := by omega
  split
  · exact hall
  have hloop := Nat.le_trans hall (jpEntries_apos hgrow 93 jpMaxArr k.1 [])
  generalize jpEntries value 93 jpMaxArr k.1 [] = l at hloop ⊢
  obtain ⟨p₂, v⟩ := l
  cases v with
  | none => exact hloop
  | some v => exact (jpOptional_apos 93 p₂).symm ▸ hloop

/-- The members of an object are parsed with 544 bytes more in the arena. -/
theorem jpParseObject_congr (value' : JP → JP × Option JNode) {p : JP} (hgrow : ArenaGrows value)
    (hagree : p.apos + 544 ≤ jpArena → AgreeFrom (p.apos + 544) value value') :
    jpParseObject value p = jpParseObject value' p := by
  have hopen := jpConsume_apos p
  unfold jpParseObject
  simp only
  generalize (jpConsume p).1 = p₁ at hopen ⊢
  split
  · rfl
  have hnode := (jpAlloc_apos jnodeSize p₁).2
  rw [← jpNode] at hnode
  generalize jpNode p₁ = r at hnode ⊢
  split
  · rfl
  rename_i hok
  have hkeys := (jpAlloc_apos (jpMaxObj * ptrSize) r.1).2
  generalize jpAlloc (jpMaxObj * ptrSize) r.1 = k at hkeys ⊢
  have hvals := (jpAlloc_apos (jpMaxObj * ptrSize) k.1).2
  generalize jpAlloc (jpMaxObj * ptrSize) k.1 = v at hvals ⊢
  split
  · rfl
  rename_i hroom
  simp only [Bool.or_eq_true, Bool.not_eq_true', not_or, Bool.not_eq_false] at hok hroom
  obtain ⟨hn, -⟩ := hnode hok
  obtain ⟨hk, -⟩ := hkeys hroom.1
  obtain ⟨hv, hfits⟩ := hvals hroom.2
  have hnsize : (jnodeSize + 7) / 8 * 8 = 32 := by decide
  have hksize : (jpMaxObj * ptrSize + 7) / 8 * 8 = 512 := by decide
  rw [hnsize] at hn
  rw [hksize] at hk hv
  rw [jpEntries_congr (jpMember_grows hgrow) (jpMember_agree (hagree (by omega))) 125 jpMaxObj
    (p := v.1) (by omega) []]

theorem jpParseArray_congr (value' : JP → JP × Option JNode) {p : JP} (hgrow : ArenaGrows value)
    (hagree : p.apos + 544 ≤ jpArena → AgreeFrom (p.apos + 544) value value') :
    jpParseArray value p = jpParseArray value' p := by
  have hopen := jpConsume_apos p
  unfold jpParseArray
  simp only
  generalize (jpConsume p).1 = p₁ at hopen ⊢
  split
  · rfl
  have hnode := (jpAlloc_apos jnodeSize p₁).2
  rw [← jpNode] at hnode
  generalize jpNode p₁ = r at hnode ⊢
  split
  · rfl
  rename_i hok
  have hitems := (jpAlloc_apos (jpMaxArr * ptrSize) r.1).2
  generalize jpAlloc (jpMaxArr * ptrSize) r.1 = k at hitems ⊢
  split
  · rfl
  rename_i hroom
  simp only [Bool.not_eq_true', Bool.not_eq_false] at hok hroom
  obtain ⟨hn, -⟩ := hnode hok
  obtain ⟨hk, hfits⟩ := hitems hroom
  have hnsize : (jnodeSize + 7) / 8 * 8 = 32 := by decide
  have hksize : (jpMaxArr * ptrSize + 7) / 8 * 8 = 512 := by decide
  rw [hnsize] at hn
  rw [hksize] at hk
  rw [jpEntries_congr hgrow (hagree (by omega)) 93 jpMaxArr (p := k.1) (by omega) []]

end

theorem jpParseString_apos (p : JP) : p.apos ≤ (jpParseString p).1.apos := by
  have hnode := (jpAlloc_apos jnodeSize p).1
  rw [← jpNode] at hnode
  unfold jpParseString
  simp only
  split
  · exact hnode
  · exact Nat.le_trans hnode (jpRawString_apos _)

theorem jpParseNumber_apos (p : JP) : p.apos ≤ (jpParseNumber p).1.apos := by
  have hnode := (jpAlloc_apos jnodeSize ((jpSkipWs p).advance
    (((jpSkipWs p).rest.takeWhile isNumChar).take 63).length)).1
  exact hnode

theorem jpParseWord_apos (len : Nat) (v : JNode) (p : JP) :
    p.apos ≤ (jpParseWord len v p).1.apos := by
  have hnode := (jpAlloc_apos jnodeSize (p.advance len)).1
  exact hnode

theorem jpParseValue_grows (depth : Nat) : ArenaGrows (jpParseValue depth) := by
  induction depth with
  | zero => exact fun p => Nat.le_refl _
  | succ depth ih =>
    intro p
    unfold jpParseValue
    simp only
    rw [← jpPeek_apos p]
    split
    · exact jpParseObject_apos ih _
    split
    · exact jpParseArray_apos ih _
    split
    · exact jpParseString_apos _
    split
    · exact jpParseWord_apos _ _ _
    split
    · exact jpParseWord_apos _ _ _
    split
    · exact jpParseWord_apos _ _ _
    split
    · exact jpParseNumber_apos _
    · exact Nat.le_refl _

theorem jpParseValue_congr {d d' : Nat} {p : JP} (hd : jpArena < p.apos + 544 * d)
    (hd' : jpArena < p.apos + 544 * d') : jpParseValue (d + 1) p = jpParseValue (d' + 1) p := by
  induction d generalizing d' p with
  | zero =>
    -- the arena is already exhausted, no member is ever parsed
    unfold jpParseValue
    simp only
    rw [jpParseObject_congr (jpParseValue d') (jpParseValue_grows 0) (fun h => by
        rw [jpPeek_apos] at h; omega),
      jpParseArray_congr (jpParseValue d') (jpParseValue_grows 0) (fun h => by
        rw [jpPeek_apos] at h; omega)]
  | succ d ih =>
    have hagree : p.apos + 544 ≤ jpArena →
        AgreeFrom (p.apos + 544) (jpParseValue (d + 1)) (jpParseValue d') := by
      intro hroom q hq
      obtain ⟨e, rfl⟩ : ∃ e, d' = e + 1 := ⟨d' - 1, by omega⟩
      exact ih (by omega) (by omega)
    rw [jpParseValue]
    conv => rhs; rw [jpParseValue]
    simp only
    rw [jpParseObject_congr (jpParseValue d') (p := (jpPeek p).1) (jpParseValue_grows (d + 1)) hagree,
      jpParseArray_congr (jpParseValue d') (p := (jpPeek p).1) (jpParseValue_grows (d + 1)) hagree]

/-- The depth bound is never what ends a parse: any larger one gives the same
result. -/
theorem jpParseValue_depth {d : Nat} (hd : jpMaxDepth ≤ d) (p : JP) :
    jpParseValue d p = jpParseValue jpMaxDepth p := by
  have hmax : jpMaxDepth = 241 + 1 := by decide
  have harena : jpArena = 131072 := by decide
  obtain ⟨e, rfl⟩ : ∃ e, d = e + 1 := ⟨d - 1, by omega⟩
  rw [hmax]
  refine jpParseValue_congr ?_ ?_
  · omega
  · omega

end ContainerSim.Orch
