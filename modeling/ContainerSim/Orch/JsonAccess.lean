import ContainerSim.Lib.Logged
import ContainerSim.Orch.Json

/-!
# Every access of the JSON parser

The `jp_*` functions once more, one statement of `orchestrator.c` after the
other, with a log of what they touch: each byte of `src` that is read, each
element of a fixed array that is written, each value `pos` and `apos` are set
to. What lies in memory behind the text is arbitrary. A loop without a counter
of its own and the recursion are given a number of rounds and log it when that
is used up, which a terminating run never does.

`Orch.JsonBounds` shows that the functions give what those of `Orch.Json` give
and that all they log is in bounds.
-/

namespace ContainerSim.Orch

open Lib Logged

/-! ## The log -/

inductive Access where
  | pos (n : Nat)
  | apos (n : Nat)
  /-- a byte of `src` is read -/
  | src (i : Nat)
  /-- an element of a local array or of one in the arena is written -/
  | tmp (i : Nat)
  | buf (i : Nat)
  | keys (i : Nat)
  | vals (i : Nat)
  | items (i : Nat)
  /-- `jp_parse_value` is called inside so many other calls -/
  | call (level : Nat)
  /-- the rounds of a loop or the levels of the recursion are used up -/
  | stuck
  deriving DecidableEq, Repr

/-- The access is in bounds, for a text of this length. -/
def Access.Within (len : Nat) : Access → Prop
  | .pos n => n ≤ len + 4
  | .apos n => n ≤ jpArena
  | .src i => i < len
  | .tmp i => i ≤ 510
  | .buf i => i < 64
  | .keys i => i < jpMaxObj
  | .vals i => i < jpMaxObj
  | .items i => i < jpMaxArr
  | .call level => level < jpMaxDepth
  | .stuck => False

/-- The value `pos` is set to. -/
def Access.posSet : Access → Option Nat
  | .pos n => some n
  | _ => none

/-- The monitor of a run: the length of the text and how far `pos` and `apos` have come. -/
structure Gauge where
  len : Nat
  pos : Nat
  apos : Nat
  deriving DecidableEq, Repr

instance (len : Nat) (e : Access) : Decidable (e.Within len) := by
  cases e <;> unfold Access.Within <;> infer_instance

def Gauge.next (g : Gauge) (e : Access) : Option Gauge :=
  if e.Within g.len then
    match e with
    | .pos n => if g.pos ≤ n then some { g with pos := n } else none
    | .apos n => if g.apos ≤ n then some { g with apos := n } else none
    | _ => some g
  else none

def JP.gauge (p : JP) : Gauge := { len := p.src.length, pos := p.pos, apos := p.apos }

/-! ## The functions -/

abbrev Run (α : Type) := Logged Access JP α

section
variable (beyond : Nat → UInt8)

/-- `src[i]`; from the end of the text on it is what lies there in memory. -/
def readSrc (i : Nat) : Run UInt8 := step (.src i) fun p => (p, p.src.getD i (beyond i))

def setPos (n : Nat) : Run Unit := step (.pos n) fun p => ({ p with pos := n }, ())

def failRun (msg : JP → Bytes) : Run Unit := silent fun p => (p.fail (msg p), ())

/-- `jp_alloc`. -/
def jpAllocRun (sz : Nat) : Run Bool := do
  let p ← state
  let aligned := (sz + 7) / 8 * 8
  if p.apos + aligned > jpArena then
    failRun fun _ => bytes "arena exhausted"
    return false
  else
    step (.apos (p.apos + aligned)) fun p => ({ p with apos := p.apos + aligned }, true)

/-- The loop over a `//` comment. -/
def skipCommentRun : Nat → Run Unit
  | 0 => note .stuck
  | n + 1 => do
    let p ← state
    if p.pos < p.src.length then
      let c ← readSrc beyond p.pos
      if c = 10 then return ()
      else
        setPos (p.pos + 1)
        skipCommentRun n
    else return ()

/-- The loop of `jp_skip_ws`. -/
def skipWsRun : Nat → Run Unit
  | 0 => note .stuck
  | n + 1 => do
    let p ← state
    if p.pos < p.src.length then
      let c ← readSrc beyond p.pos
      if isWs c then
        setPos (p.pos + 1)
        skipWsRun n
      else if c = 47 ∧ p.pos + 1 < p.src.length then
        -- a comment is two slashes
        let d ← readSrc beyond (p.pos + 1)
        if d = 47 then
          skipCommentRun beyond (p.src.length + 1)
          skipWsRun n
        else return ()
      else return ()
    else return ()

/-- `jp_skip_ws`: more rounds than the text has bytes. -/
def jpSkipWsRun : Run Unit := do
  let p ← state
  skipWsRun beyond (p.src.length + 1)

/-- `jp_peek`. -/
def jpPeekRun : Run UInt8 := do
  jpSkipWsRun beyond
  let p ← state
  if p.pos < p.src.length then readSrc beyond p.pos else return 0

/-- `jp_consume`. -/
def jpConsumeRun : Run UInt8 := do
  jpSkipWsRun beyond
  let p ← state
  if p.pos < p.src.length then
    let c ← readSrc beyond p.pos
    setPos (p.pos + 1)
    return c
  else return 0

/-- `if (jp_peek(p) == c) jp_consume(p);` -/
def jpOptionalRun (c : UInt8) : Run Unit := do
  let d ← jpPeekRun beyond
  if d = c then
    let _ ← jpConsumeRun beyond
    return ()
  else return ()

/-- The `switch` behind a backslash; its default reads the character again. -/
def unescapeRun (i : Nat) : Run UInt8 := do
  let e ← readSrc beyond i
  setPos (i + 1)
  if e = 110 then return 10
  else if e = 116 then return 9
  else if e = 114 then return 13
  else readSrc beyond i

/-- The loop of `jp_raw_string`, with `tmp` filled so far. -/
def rawStringRun : Nat → Bytes → Run Bytes
  | 0, tmp => do
    note .stuck
    return tmp
  | n + 1, tmp => do
    let p ← state
    if p.pos < p.src.length then
      let c ← readSrc beyond p.pos
      if c = 34 then return tmp
      -- room for the NUL is kept
      else if 510 ≤ tmp.length then return tmp
      else if c = 92 then
        setPos (p.pos + 1)
        if p.pos + 1 < p.src.length then
          let b ← unescapeRun beyond (p.pos + 1)
          note (.tmp tmp.length)
          rawStringRun n (tmp ++ [b])
        else return tmp
      else
        note (.tmp tmp.length)
        setPos (p.pos + 1)
        rawStringRun n (tmp ++ [c])
    else return tmp

/-- The closing quote of `jp_raw_string`, if it is there. -/
def closeQuoteRun : Run Unit := do
  let p ← state
  if p.pos < p.src.length then
    let c ← readSrc beyond p.pos
    if c = 34 then setPos (p.pos + 1) else return ()
  else return ()

/-- `jp_raw_string`. -/
def jpRawStringRun : Run (Option Bytes) := do
  let c ← jpConsumeRun beyond
  if c ≠ 34 then
    failRun fun p => bytes "expected '\"' at pos " ++ fmtNat p.pos
    return none
  else
    let tmp ← rawStringRun beyond 511 []
    note (.tmp tmp.length)
    closeQuoteRun beyond
    let ok ← jpAllocRun (tmp.length + 1)
    return if ok then some (cstr tmp) else none

/-- `jp_parse_string`. -/
def jpParseStringRun : Run (Option JNode) := do
  let ok ← jpAllocRun jnodeSize
  if !ok then return none
  else
    let s ← jpRawStringRun beyond
    return s.map .str

/-- The loop of `jp_parse_number`, with `buf` filled so far. -/
def numberRun : Nat → Bytes → Run Bytes
  | 0, buf => do
    note .stuck
    return buf
  | n + 1, buf => do
    let p ← state
    if p.pos < p.src.length ∧ buf.length < 63 then
      let c ← readSrc beyond p.pos
      if isNumChar c then
        note (.buf buf.length)
        setPos (p.pos + 1)
        numberRun n (buf ++ [c])
      else return buf
    else return buf

/-- `jp_parse_number`. -/
def jpParseNumberRun : Run (Option JNode) := do
  jpSkipWsRun beyond
  let buf ← numberRun beyond 64 []
  note (.buf buf.length)
  let ok ← jpAllocRun jnodeSize
  return if ok then some (.num buf) else none

/-- The loop of `jp_parse_object` and `jp_parse_array`; `entry` reads the entry
with the given index and stores it. -/
def jpEntriesRun {α : Type} (entry : Nat → Run (Option α)) (close : UInt8) :
    Nat → List α → Run (Option (List α))
  | 0, acc => do
    note .stuck
    return some acc
  | n + 1, acc => do
    let c ← jpPeekRun beyond
    if c = close then return some acc
    else
      -- the condition of the loop peeks a second time
      let c ← jpPeekRun beyond
      if c = 0 then return some acc
      else if 64 ≤ acc.length then return some acc
      else
        let e ← entry acc.length
        match e with
        | none => return none
        | some e =>
          jpOptionalRun beyond 44
          jpEntriesRun entry close n (acc ++ [e])

/-- A member of an object. -/
def jpMemberRun (value : Run (Option JNode)) (cnt : Nat) : Run (Option (Bytes × JNode)) := do
  let key ← jpRawStringRun beyond
  match key with
  | none => return none
  | some key =>
    let colon ← jpConsumeRun beyond
    if colon ≠ 58 then return none
    else
      let val ← value
      match val with
      | none => return none
      | some val =>
        note (.keys cnt)
        note (.vals cnt)
        return some (key, val)

/-- An element of an array. -/
def jpItemRun (value : Run (Option JNode)) (cnt : Nat) : Run (Option JNode) := do
  let val ← value
  match val with
  | none => return none
  | some val =>
    note (.items cnt)
    return some val

/-- `jp_parse_object`. -/
def jpParseObjectRun (value : Run (Option JNode)) : Run (Option JNode) := do
  let c ← jpConsumeRun beyond
  if c ≠ 123 then
    failRun fun _ => bytes "expected '\x7b'"
    return none
  else
    let ok ← jpAllocRun jnodeSize
    if !ok then return none
    else
      let okKeys ← jpAllocRun (jpMaxObj * ptrSize)
      let okVals ← jpAllocRun (jpMaxObj * ptrSize)
      if !okKeys || !okVals then return none
      else
        let kv ← jpEntriesRun beyond (jpMemberRun beyond value) 125 65 []
        match kv with
        | none => return none
        | some kv =>
          jpOptionalRun beyond 125
          return some (.obj kv)

/-- `jp_parse_array`. -/
def jpParseArrayRun (value : Run (Option JNode)) : Run (Option JNode) := do
  let c ← jpConsumeRun beyond
  if c ≠ 91 then
    failRun fun _ => bytes "expected '['"
    return none
  else
    let ok ← jpAllocRun jnodeSize
    if !ok then return none
    else
      let okItems ← jpAllocRun (jpMaxArr * ptrSize)
      if !okItems then return none
      else
        let v ← jpEntriesRun beyond (jpItemRun value) 93 65 []
        match v with
        | none => return none
        | some v =>
          jpOptionalRun beyond 93
          return some (.arr v)

/-- A keyword. -/
def jpParseWordRun (len : Nat) (v : JNode) : Run (Option JNode) := do
  let p ← state
  -- the letters behind the first are not looked at, nor whether they are there
  setPos (p.pos + len)
  let ok ← jpAllocRun jnodeSize
  return if ok then some v else none

/-- `jp_parse_value`, with so many levels left, inside so many other calls. -/
def jpParseValueRun : Nat → Nat → Run (Option JNode)
  | 0, _ => do
    note .stuck
    return none
  | depth + 1, level => do
    note (.call level)
    let c ← jpPeekRun beyond
    if c = 123 then jpParseObjectRun beyond (jpParseValueRun depth (level + 1))
    else if c = 91 then jpParseArrayRun beyond (jpParseValueRun depth (level + 1))
    else if c = 34 then jpParseStringRun beyond
    else if c = 116 then jpParseWordRun 4 (.bool true)
    else if c = 102 then jpParseWordRun 5 (.bool false)
    else if c = 110 then jpParseWordRun 4 .null
    else if c = 45 ∨ (48 ≤ c ∧ c ≤ 57) then jpParseNumberRun beyond
    else
      failRun fun p => bytes "unexpected char '" ++ [c] ++ bytes "' at pos " ++ fmtNat p.pos
      return none

end

end ContainerSim.Orch
