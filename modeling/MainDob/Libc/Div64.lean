/-
Purpose: The 64-bit divisions that stdio.c of the C library brings along, since user programs are
  linked without libgcc as well.
Main exports: udivmoddi4, udivdi3, umoddi3
-/
import MainDob.Kernel.Div64

namespace MainDob.Libc.Div64

open Kernel.Div64 (divideBits)

/-- `__udivmoddi4`: the quotient and what is stored through `rem`.  A zero
divisor is not looked for. -/
def udivmoddi4 (n d : BitVec 64) : BitVec 64 × BitVec 64 :=
  divideBits n d 64

/-- `__udivdi3`. -/
def udivdi3 (n d : BitVec 64) : BitVec 64 := (udivmoddi4 n d).1

/-- `__umoddi3`. -/
def umoddi3 (n d : BitVec 64) : BitVec 64 := (udivmoddi4 n d).2

/-- `ua` or `ub`: the magnitude, by an unsigned subtraction. -/
def magnitude (a : BitVec 64) : BitVec 64 :=
  if a.slt 0 then 0 - a else a

/-- `neg` after both `neg ^= 1`. -/
def signsDiffer (a b : BitVec 64) : Bool :=
  let neg := if a.slt 0 then !false else false
  if b.slt 0 then !neg else neg

/-- `__divdi3`. -/
def divdi3 (a b : BitVec 64) : BitVec 64 :=
  let q := (udivmoddi4 (magnitude a) (magnitude b)).1
  if signsDiffer a b then 0 - q else q

/-- `__moddi3`. -/
def moddi3 (a b : BitVec 64) : BitVec 64 :=
  let r := (udivmoddi4 (magnitude a) (magnitude b)).2
  if a.slt 0 then 0 - r else r

/-- `__divmoddi4`: the quotient and what is stored through `rem`. -/
def divmoddi4 (a b : BitVec 64) : BitVec 64 × BitVec 64 :=
  let (q, r) := udivmoddi4 (magnitude a) (magnitude b)
  (if signsDiffer a b then 0 - q else q, if a.slt 0 then 0 - r else r)

end MainDob.Libc.Div64
