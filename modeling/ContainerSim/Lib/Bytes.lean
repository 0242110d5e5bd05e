import Mathlib.Data.List.Basic
import Mathlib.Data.List.TakeWhile
import Mathlib.Tactic.Common

/-!
# C strings

A NUL-terminated `char` array is the list of its bytes before the NUL. What
the C library does to such arrays is written here once: the cut a bounded
`snprintf(dst, size, "%s", src)` makes, and the end a NUL byte puts to a raw
buffer.
-/

namespace ContainerSim.Lib

/-- The bytes of a C string, without the terminating NUL. -/
abbrev Bytes := List UInt8

/-- The bytes of an ASCII literal. -/
def bytes (s : String) : Bytes := s.toList.map fun c => UInt8.ofNat c.toNat

/-- `snprintf(dst, size, "%s", src)`: at most `size - 1` bytes arrive. -/
def snprintfStr (size : Nat) (src : Bytes) : Bytes := src.take (size - 1)

/-- What a raw buffer holds when it is read as a C string. -/
def cstr (buf : Bytes) : Bytes := buf.takeWhile (· ≠ 0)

theorem snprintfStr_length_le (size : Nat) (src : Bytes) :
    (snprintfStr size src).length ≤ size - 1 := by
  rw [snprintfStr, List.length_take]
  exact Nat.min_le_left _ _

theorem snprintfStr_eq_self {size : Nat} {src : Bytes} (h : src.length ≤ size - 1) :
    snprintfStr size src = src :=
  List.take_of_length_le h

/-- A buffer without NUL bytes is its own C string. -/
theorem cstr_eq_self {buf : Bytes} (h : (0 : UInt8) ∉ buf) : cstr buf = buf := by
  rw [cstr, List.takeWhile_eq_self_iff]
  intro b hb
  exact decide_eq_true fun h0 : b = 0 => h (h0 ▸ hb)

end ContainerSim.Lib
