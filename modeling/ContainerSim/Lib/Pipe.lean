import Mathlib.Data.Fintype.Defs
import Mathlib.Logic.Function.Basic
import Mathlib.Tactic.Common

/-!
# Pipes

A pipe is a queue and a record of who holds its ends open. A write needs that
somebody can read; the end of the stream is there when the queue is empty and
nobody can write. `fork` is how one party comes to hold the ends of another,
`leave` how the last of them are closed.
-/

namespace ContainerSim.Lib

/-- A pipe for items of type `α` between parties of type `ι`. -/
structure Pipe (ι α : Type*) where
  buf : List α
  reads : ι → Bool
  writes : ι → Bool

namespace Pipe

variable {ι α : Type*}

/-- Somebody holds the read end. -/
def HasReader (p : Pipe ι α) : Prop := ∃ i, p.reads i = true

/-- Nothing to read, and nobody holds the write end. -/
def AtEof (p : Pipe ι α) : Prop := p.buf = [] ∧ ∀ i, p.writes i = false

instance [Fintype ι] (p : Pipe ι α) : Decidable p.HasReader := by
  unfold HasReader; infer_instance

instance [Fintype ι] (p : Pipe ι α) : Decidable p.AtEof := by
  unfold AtEof; infer_instance

/-- `write`, as far as it came. -/
def write (p : Pipe ι α) (xs : List α) : Pipe ι α := { p with buf := p.buf ++ xs }

/-- `read` of `k` items. -/
def read (p : Pipe ι α) (k : Nat) : List α × Pipe ι α :=
  (p.buf.take k, { p with buf := p.buf.drop k })

theorem read_buf (p : Pipe ι α) (k : Nat) : (p.read k).1 ++ (p.read k).2.buf = p.buf :=
  List.take_append_drop k p.buf

theorem read_length {p : Pipe ι α} {k : Nat} (h : k ≤ p.buf.length) :
    (p.read k).1.length = k := by
  rw [read, List.length_take]
  exact Nat.min_eq_left h

@[simp] theorem write_buf (p : Pipe ι α) (xs : List α) : (p.write xs).buf = p.buf ++ xs := rfl
@[simp] theorem write_reads (p : Pipe ι α) (xs : List α) : (p.write xs).reads = p.reads := rfl
@[simp] theorem write_writes (p : Pipe ι α) (xs : List α) : (p.write xs).writes = p.writes := rfl
@[simp] theorem read_reads (p : Pipe ι α) (k : Nat) : (p.read k).2.reads = p.reads := rfl
@[simp] theorem read_writes (p : Pipe ι α) (k : Nat) : (p.read k).2.writes = p.writes := rfl

variable [DecidableEq ι]

/-- A new pipe, both ends with `i`. -/
def fresh (i : ι) : Pipe ι α :=
  { buf := [], reads := fun j => j = i, writes := fun j => j = i }

/-- `j` gets copies of the ends of `i`. -/
def fork (p : Pipe ι α) (i j : ι) : Pipe ι α :=
  { p with
    reads := Function.update p.reads j (p.reads i)
    writes := Function.update p.writes j (p.writes i) }

def closeRead (p : Pipe ι α) (i : ι) : Pipe ι α :=
  { p with reads := Function.update p.reads i false }

def closeWrite (p : Pipe ι α) (i : ι) : Pipe ι α :=
  { p with writes := Function.update p.writes i false }

/-- The ends of a party that has ended are closed. -/
def leave (p : Pipe ι α) (i : ι) : Pipe ι α := (p.closeRead i).closeWrite i

section
variable (p : Pipe ι α) (k : Nat) (i j : ι)

@[simp] theorem fresh_buf : (fresh i : Pipe ι α).buf = [] := rfl
@[simp] theorem fork_buf : (p.fork i j).buf = p.buf := rfl
@[simp] theorem closeRead_buf : (p.closeRead i).buf = p.buf := rfl
@[simp] theorem closeRead_writes : (p.closeRead i).writes = p.writes := rfl
@[simp] theorem closeWrite_buf : (p.closeWrite i).buf = p.buf := rfl
@[simp] theorem closeWrite_reads : (p.closeWrite i).reads = p.reads := rfl
@[simp] theorem leave_buf : (p.leave i).buf = p.buf := rfl

@[simp] theorem closeRead_reads_self : (p.closeRead i).reads i = false := by simp [closeRead]

@[simp] theorem closeWrite_writes_self : (p.closeWrite i).writes i = false := by
  simp [closeWrite]

@[simp] theorem leave_reads_self : (p.leave i).reads i = false := by simp [leave]

@[simp] theorem leave_writes_self : (p.leave i).writes i = false := by simp [leave]

variable {p i j}

theorem closeRead_reads_ne (h : j ≠ i) : (p.closeRead i).reads j = p.reads j := by
  simp [closeRead, h]

theorem closeWrite_writes_ne (h : j ≠ i) : (p.closeWrite i).writes j = p.writes j := by
  simp [closeWrite, h]

theorem leave_reads_ne (h : j ≠ i) : (p.leave i).reads j = p.reads j := by
  rw [leave, closeWrite_reads, closeRead_reads_ne h]

theorem leave_writes_ne (h : j ≠ i) : (p.leave i).writes j = p.writes j := by
  rw [leave, closeWrite_writes_ne h, closeRead_writes]

end

end Pipe

end ContainerSim.Lib
