/-
Purpose: Consecutive blocks of varying length, and where they start. A place is a block and an
  offset into it; places in the order of blocks and offsets lie in the order of their positions.
Main exports: blockStart, blockStart_succ, place_lt
-/
import Mathlib.Algebra.BigOperators.Intervals
import Mathlib.Algebra.Order.BigOperators.Group.Finset

namespace MainDob.Lib

variable (length : Nat → Nat) (first : Nat)

/-- Where block `index` starts when block `first` starts at 0. -/
def blockStart (index : Nat) : Nat := ∑ i ∈ Finset.Ico first index, length i

theorem blockStart_first : blockStart length first first = 0 := by simp [blockStart]

theorem blockStart_succ {index : Nat} (from_first : first ≤ index) :
    blockStart length first (index + 1) = blockStart length first index + length index :=
  Finset.sum_Ico_succ_top from_first length

theorem blockStart_mono {index later : Nat} (order : index ≤ later) :
    blockStart length first index ≤ blockStart length first later :=
  Finset.sum_le_sum_of_subset (Finset.Ico_subset_Ico_right order)

variable {length first}

theorem place_lt {index later offset : Nat} (from_first : first ≤ index)
    (order : index < later) (inside : offset < length index) :
    blockStart length first index + offset < blockStart length first later :=
  calc blockStart length first index + offset
      < blockStart length first index + length index := by omega
    _ = blockStart length first (index + 1) := (blockStart_succ length first from_first).symm
    _ ≤ blockStart length first later := blockStart_mono length first order

end MainDob.Lib
