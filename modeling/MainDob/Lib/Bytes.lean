/-
Purpose: Numbers as little-endian bytes inside a block of bytes: writing bytes at
  an offset and reading a number back.
Main exports: leBytes, putBytes, getLe
-/
import Mathlib.Algebra.Order.Group.Nat

namespace MainDob.Lib.Bytes

/-- The lowest `width` bytes of a number, the lowest first. -/
def leBytes : Nat → Nat → List UInt8
  | 0, _ => []
  | width + 1, n => UInt8.ofNat n :: leBytes width (n / 256)

@[simp] theorem length_leBytes (width n : Nat) : (leBytes width n).length = width := by
  induction width generalizing n with
  | zero => rfl
  | succ _ ih => simp [leBytes, ih]

/-- The block with bytes put at an offset. -/
def putBytes (off : Nat) (bytes : List UInt8) (block : Nat → UInt8) : Nat → UInt8 :=
  fun i => if off ≤ i then bytes[i - off]?.getD (block i) else block i

/-- The number in `width` bytes at an offset. -/
def getLe : Nat → Nat → (Nat → UInt8) → Nat
  | 0, _, _ => 0
  | width + 1, off, block =>
    (block off).toNat + 256 * getLe width (off + 1) block

variable {block : Nat → UInt8} {off place width : Nat}

theorem getLe_shift {other : Nat → UInt8} (same : ∀ i < width, block
    (off + i) = other (place + i)) : getLe width off block = getLe width place other := by
  induction width generalizing off place with
  | zero => rfl
  | succ width ih =>
    have rest : getLe width (off + 1) block = getLe width (place + 1) other := by
      refine ih fun i inside => ?_
      rw [add_assoc, add_assoc, add_comm 1]
      exact same (i + 1) (by omega)
    rw [getLe, getLe, rest]
    have first := same 0 (by omega)
    rw [add_zero, add_zero] at first
    rw [first]

theorem getLe_congr {other : Nat → UInt8} (same : ∀ i, off ≤ i →
    i < off + width → block i = other i) : getLe width off block = getLe width off other :=
  getLe_shift fun i inside => same (off + i) (by omega) (by omega)

theorem getLe_zero
    (zeros : ∀ i, off ≤ i → i < off + width → block i = 0) : getLe width off block = 0 := by
  induction width generalizing off with
  | zero => rfl
  | succ _ ih =>
    rw [getLe, zeros off (le_refl off) (by omega),
      ih fun i low high => zeros i (by omega) (by omega)]
    rfl

theorem getLe_add (width more off : Nat) (block : Nat → UInt8) : getLe (width + more) off block =
      getLe width off block + 256 ^ width * getLe more (off + width) block := by
  induction width generalizing off with
  | zero => simp [getLe]
  | succ _ ih =>
    rw [Nat.succ_add, getLe, getLe, ih, Nat.pow_succ',
      Nat.add_right_comm off 1, Nat.mul_add, Nat.mul_assoc, Nat.add_assoc, add_assoc]

theorem getLe_putBytes (width off n : Nat) (block : Nat → UInt8) :
    getLe width off (putBytes off (leBytes width n) block) = n % 256 ^ width := by
  induction width generalizing off n block with
  | zero => simp [getLe, Nat.mod_one]
  | succ width ih =>
    have tail : getLe width (off + 1) (putBytes off (leBytes (width + 1) n) block) =
        getLe width (off + 1) (putBytes (off + 1) (leBytes width (n / 256)) block) := by
      refine getLe_congr fun i low _ => ?_
      rw [putBytes, putBytes, if_pos (by omega), if_pos low, leBytes,
        show i - off = i - (off + 1) + 1 by omega, List.getElem?_cons_succ]
    have head : putBytes off (leBytes (width + 1) n) block off = UInt8.ofNat n := by
      simp [putBytes, leBytes]
    rw [getLe, tail, ih, head, Nat.pow_succ', Nat.mod_mul]
    simp

theorem putBytes_apart {i : Nat} {bytes : List UInt8} (apart : i < place ∨ place + bytes.length ≤ i)
    (block : Nat → UInt8) : putBytes place bytes block i = block i := by
  unfold putBytes
  split
  · rw [List.getElem?_eq_none (by omega)]
    rfl
  · rfl

theorem getLe_putBytes_apart {bytes : List UInt8}
    (apart : off + width ≤ place ∨ place + bytes.length ≤ off) (block : Nat → UInt8) :
    getLe width off (putBytes place bytes block) = getLe width off block :=
  getLe_congr fun i low high => putBytes_apart (by omega) block

end MainDob.Lib.Bytes
