/-
Purpose: School division in an arbitrary base. A division of the leading digits is carried on to
  the next digit: the quotient digit fits the base, and the remainder stays below the divisor.
Main exports: Divided, Divided.digit_lt, Divided.next
-/
import Mathlib.Tactic.Ring

namespace MainDob.Lib

/-- `n` divided by `d` is `q`, and `r` is left. -/
structure Divided (n d q r : Nat) : Prop where
  equation : n = q * d + r
  below : r < d

namespace Divided

variable {n d q r : Nat}

theorem zero (positive : 0 < d) : Divided 0 d 0 0 where
  equation := by simp
  below := positive

theorem of_div_mod (n : Nat) (positive : 0 < d) : Divided n d (n / d) (n % d) where
  equation := (Nat.div_add_mod' n d).symm
  below := Nat.mod_lt n positive

section

variable (divided : Divided n d q r)
include divided

theorem div : n / d = q := by
  rw [divided.equation, add_comm, Nat.add_mul_div_right _ _ (by have := divided.below; omega),
    Nat.div_eq_of_lt divided.below, zero_add]

theorem mod : n % d = r := by
  rw [divided.equation, add_comm, Nat.add_mul_mod_self_right, Nat.mod_eq_of_lt divided.below]

theorem digit_lt {base digit : Nat} (small : digit < base) : (r * base + digit) / d < base := by
  have below := divided.below
  apply Nat.div_lt_of_lt_mul
  calc r * base + digit < r * base + base := by omega
    _ = (r + 1) * base := by ring
    _ ≤ d * base := Nat.mul_le_mul_right base below

theorem next (base digit : Nat) :
    Divided (n * base + digit) d (q * base + (r * base + digit) / d) ((r * base + digit) % d) where
  equation := by
    have split := Nat.div_add_mod' (r * base + digit) d
    calc n * base + digit = q * base * d + (r * base + digit) := by
          rw [divided.equation]
          ring
      _ = q * base * d + ((r * base + digit) / d * d + (r * base + digit) % d) := by rw [split]
      _ = _ := by ring
  below := Nat.mod_lt _ (by have := divided.below; omega)

end

end Divided

end MainDob.Lib
