/-
Purpose: The 64-bit divisions of the kernel: udiv64_u32 and umod64_u32 of lib/types.h and the
  entry points of lib/div64.c.
Trusted boundary: divl divides EDX:EAX by a 32-bit operand and faults when the
  quotient does not fit EAX; int64_t is two's complement, also where a sign is
  turned round
Main exports: divl, udiv64U32, umod64U32
-/
import Mathlib.Algebra.Ring.Nat

namespace MainDob.Kernel.Div64

/-- `divl`: quotient and remainder of `edx:eax`; `none` is the fault #DE. -/
def divl (edx eax divisor : BitVec 32) : Option (BitVec 32 × BitVec 32) :=
  let dividend := edx.toNat * 2 ^ 32 + eax.toNat
  if divisor = 0 then none
  else if 2 ^ 32 ≤ dividend / divisor.toNat then none
  else some (BitVec.ofNat 32 (dividend / divisor.toNat), BitVec.ofNat 32 (dividend % divisor.toNat))

/-- The two steps that `udiv64_u32` and `umod64_u32` have in common. -/
def divlTwice (dividend : BitVec 64) (divisor : BitVec 32) :
    Option (BitVec 32 × BitVec 32 × BitVec 32) := do
  let hi := (dividend >>> 32).setWidth 32
  let lo := dividend.setWidth 32
  let (qHi, rHi) ← divl 0 hi divisor
  let (qLo, rLo) ← divl rHi lo divisor
  return (qHi, qLo, rLo)

/-- `udiv64_u32`. -/
def udiv64U32 (dividend : BitVec 64) (divisor : BitVec 32) :
    Option (BitVec 64) := do
  let (qHi, qLo, _) ← divlTwice dividend divisor
  return (qHi.setWidth 64 <<< 32) ||| qLo.setWidth 64

/-- `umod64_u32`. -/
def umod64U32 (dividend : BitVec 64) (divisor : BitVec 32) :
    Option (BitVec 32) := do
  let (_, _, rLo) ← divlTwice dividend divisor
  return rLo

/-- One turn of the shift-and-subtract loop, for bit `i`; the pair is `q`, `r`.
The loop of the C library has the same body. -/
def divideBit (n d : BitVec 64) (i : Nat) (state : BitVec 64 × BitVec 64) : BitVec 64 × BitVec 64 :=
  let r := (state.2 <<< 1) ||| ((n >>> i) &&& 1)
  if d ≤ r then (state.1 ||| ((1 : BitVec 64) <<< i), r - d) else (state.1, r)

/-- The loop after its first `turns` turns: bits 63, 62, … are done. -/
def divideBits (n d : BitVec 64) : Nat → BitVec 64 × BitVec 64
  | 0 => (0, 0)
  | turns + 1 => divideBit n d (63 - turns) (divideBits n d turns)

/-- What the fast path of `udiv64` hands to `divl`: EDX and EAX. -/
def fastOperands (n d : BitVec 64) : BitVec 32 × BitVec 32 :=
  let d32 := d.setWidth 32
  let nHi := (n >>> 32).setWidth 32
  let nLo := n.setWidth 32
  let rHi := nHi % d32
  let low := (rHi.setWidth 64 <<< 32) ||| nLo.setWidth 64
  ((low >>> 32).setWidth 32, low.setWidth 32)

/-- `udiv64`: the quotient and what is stored through `rem`; `none` when the
processor faults. -/
def udiv64 (n d : BitVec 64) : Option (BitVec 64 × BitVec 64) := do
  if d = 0 then
    return (0xFFFFFFFFFFFFFFFF, 0)
  else if d >>> 32 = 0 then
    let d32 := d.setWidth 32
    let qHi := (n >>> 32).setWidth 32 / d32
    let (edx, eax) := fastOperands n d
    let (qLo, rLo) ← divl edx eax d32
    return ((qHi.setWidth 64 <<< 32) ||| qLo.setWidth 64, rLo.setWidth 64)
  else
    return divideBits n d 64

/-- `__udivdi3`. -/
def udivdi3 (n d : BitVec 64) : Option (BitVec 64) :=
  (udiv64 n d).map Prod.fst

/-- `__umoddi3`. -/
def umoddi3 (n d : BitVec 64) : Option (BitVec 64) :=
  (udiv64 n d).map Prod.snd

/-- `n < 0 ? (uint64_t)-n : (uint64_t)n`. -/
def magnitude (n : BitVec 64) : BitVec 64 :=
  if n.slt 0 then -n else n

/-- `__divdi3`. -/
def divdi3 (n d : BitVec 64) : Option (BitVec 64) := do
  let neg := n.slt 0 != d.slt 0
  let (q, _) ← udiv64 (magnitude n) (magnitude d)
  return if neg then -q else q

/-- `__moddi3`. -/
def moddi3 (n d : BitVec 64) : Option (BitVec 64) := do
  let (_, r) ← udiv64 (magnitude n) (magnitude d)
  return if n.slt 0 then -r else r

end MainDob.Kernel.Div64
