/-
Purpose: `memmove` of `libc/src/string.c` and `kernel/lib/string.c`, which copies double words with
  `rep movsl`, upwards or downwards, and the rest of the bytes one by one.
Trusted boundary: neither range goes past the end of the address space.
Main exports: move, memmove
-/
import Mathlib.Algebra.Ring.Nat

namespace MainDob.Libc.MemMove

abbrev Memory := Nat → UInt8

/-- The memory after one move: `width` bytes are read, then written. -/
def move (m : Memory) (dst src width : Nat) : Memory := fun a =>
  if dst ≤ a ∧ a < dst + width then m (src + (a - dst)) else m a

/-- `count` moves from the first to the last. -/
def up (width : Nat) : Nat → Memory → Nat → Nat → Memory
  | 0, m, _, _ => m
  | count + 1, m, dst, src =>
    up width count (move m dst src width) (dst + width) (src + width)

/-- `count` moves from the last to the first. -/
def down (width : Nat) : Nat → Memory → Nat → Nat → Memory
  | 0, m, _, _ => m
  | count + 1, m, dst, src =>
    down width count (move m (dst + width * count) (src + width * count) width) dst src

variable (m : Memory) (dst src n : Nat)

/-- `copy_forward`, which is also `memcpy`. -/
def copyForward : Memory :=
  up 1 (n % 4) (up 4 (n / 4) m dst src) (dst + 4 * (n / 4)) (src + 4 * (n / 4))

/-- `copy_backward`. -/
def copyBackward : Memory :=
  down 4 (n / 4) (down 1 (n % 4) m (dst + 4 * (n / 4)) (src + 4 * (n / 4))) dst src

def memmove : Memory :=
  if dst < src ∨ src + n ≤ dst then copyForward m dst src n
  else if src < dst then copyBackward m dst src n
  else m

end MainDob.Libc.MemMove
