/-
Purpose: Scanning a machine word for its set bits, lowest first: take the
  trailing-zero count, test the bit, clear it with `x & (x - 1)`.
Main exports: getLsbD_and_sub_one, getLsbD_or_bit, getLsbD_and_not_bit
-/
import Mathlib.Data.Nat.Bitwise
import Mathlib.Tactic.Common

namespace MainDob.Lib

section

variable {value low : Nat} (isSet : value.testBit low = true)
  (below : ∀ index, index < low → value.testBit index = false)
include isSet below

theorem exists_odd_multiple_of_lowest : ∃ half, value = 2 ^ low * (2 * half + 1) := by
  have divisible : 2 ^ low ∣ value := by
    apply Nat.dvd_of_mod_eq_zero
    apply Nat.eq_of_testBit_eq
    intro position
    by_cases inside : position < low
    · simp [below position inside]
    · simp [inside]
  obtain ⟨odd, rfl⟩ := divisible
  rw [Nat.testBit_two_pow_mul] at isSet
  have oddMod : odd % 2 = 1 := by simpa [Nat.testBit_zero] using isSet
  exact ⟨odd / 2, by rw [show 2 * (odd / 2) + 1 = odd by omega]⟩

theorem testBit_sub_one_of_lowest (index : Nat) (from_low : low ≤ index) :
    (value - 1).testBit index = (value.testBit index && decide (index ≠ low)) := by
  obtain ⟨half, rfl⟩ := exists_odd_multiple_of_lowest isSet below
  have positive : 0 < 2 ^ low := Nat.two_pow_pos low
  have split : 2 ^ low * (2 * half + 1) - 1 = 2 ^ low * (2 * half) + (2 ^ low - 1) := by
    rw [mul_add, mul_one]
    omega
  rw [split, Nat.testBit_two_pow_mul_add _ (Nat.sub_lt positive Nat.one_pos),
    Nat.testBit_two_pow_mul, if_neg (by omega)]
  simp only [from_low, decide_true, Bool.true_and]
  rcases Nat.eq_or_lt_of_le from_low with same | above
  · subst same
    simp
  obtain ⟨offset, offsetEq⟩ : ∃ offset, index - low = offset + 1 := ⟨index - low - 1, by omega⟩
  have different : index ≠ low := by omega
  rw [offsetEq, Nat.testBit_succ, Nat.testBit_succ,
    show (2 * half + 1) / 2 = half by omega]
  simp [different]

end

variable {width : Nat}

private theorem toNat_sub_one {word : BitVec width} (nonzero : word ≠ 0) :
    (word - 1).toNat = word.toNat - 1 := by
  have positive : 0 < word.toNat := by
    rcases Nat.eq_zero_or_pos word.toNat with zero | positive
    · exact absurd (BitVec.eq_of_toNat_eq (by simpa using zero)) nonzero
    · exact positive
  have bound := word.isLt
  rcases Nat.eq_zero_or_pos width with widthZero | widthPositive
  · subst widthZero
    omega
  have one : (1 : BitVec width).toNat = 1 := by
    exact Nat.mod_eq_of_lt (Nat.one_lt_two_pow (by omega))
  rw [BitVec.toNat_sub_of_le, one]
  rw [BitVec.le_def, one]
  exact positive

theorem getLsbD_and_sub_one {word : BitVec width} (nonzero : word ≠ 0) (index : Nat) : (word &&&
    (word - 1)).getLsbD index = (word.getLsbD index && decide (index ≠ word.ctz.toNat)) := by
  have below : ∀ position, position < word.ctz.toNat → word.getLsbD position = false :=
    fun position inside => BitVec.getLsbD_false_of_lt_ctz inside
  rw [BitVec.getLsbD_and]
  by_cases inside : index < word.ctz.toNat
  · simp [below index inside]
  have isSetNat : word.toNat.testBit word.ctz.toNat = true := by
    exact BitVec.getLsbD_true_ctz_of_ne_zero nonzero
  have belowNat : ∀ position, position < word.ctz.toNat → word.toNat.testBit position = false := by
    intro position positionInside
    exact below position positionInside
  have shifted := testBit_sub_one_of_lowest isSetNat belowNat index (by omega)
  rw [← toNat_sub_one nonzero, BitVec.testBit_toNat, BitVec.testBit_toNat] at shifted
  rw [shifted]
  simp

section

variable (word : BitVec width) (bit : Nat) {index : Nat} (inside : index < width)
include word bit inside

theorem getLsbD_or_bit : (word ||| BitVec.ofNat width 1 <<< bit).getLsbD index =
      (decide (index = bit) || word.getLsbD index) := by
  rw [BitVec.getLsbD_or, ← BitVec.twoPow_eq, BitVec.getLsbD_twoPow, Bool.or_comm]
  by_cases same : index = bit
  · subst same
    simp [inside]
  · simp [same, Ne.symm same]

theorem getLsbD_and_not_bit : (word &&& ~~~(BitVec.ofNat width 1 <<< bit)).getLsbD index =
      (decide (index ≠ bit) && word.getLsbD index) := by
  rw [BitVec.getLsbD_and, BitVec.getLsbD_not, ← BitVec.twoPow_eq,
    BitVec.getLsbD_twoPow, Bool.and_comm]
  by_cases same : index = bit
  · subst same
    simp [inside]
  · simp [same, Ne.symm same, inside]

end

/-- Visit the set bits of `word` from the lowest up and return the first one
that `accept` takes.  The fuel bounds the number of clearing steps. -/
def scanBits (accept : Nat → Bool) : Nat → BitVec width → Option Nat
  | 0, _ => none
  | fuel + 1, word =>
    if word = 0 then none
    else if accept word.ctz.toNat then some word.ctz.toNat
    else scanBits accept fuel (word &&& (word - 1))

section

variable {accept : Nat → Bool} {fuel : Nat} {word : BitVec width}

theorem scanBits_some {bit : Nat} (found : scanBits accept fuel word = some bit) :
    word.getLsbD bit = true ∧ accept bit = true := by
  induction fuel generalizing word with
  | zero => simp [scanBits] at found
  | succ _ ih =>
    rw [scanBits] at found
    split at found
    · simp at found
    rename_i nonzero
    split at found
    · rename_i accepted
      cases found
      exact ⟨BitVec.getLsbD_true_ctz_of_ne_zero nonzero, accepted⟩
    · obtain ⟨isSet, accepted⟩ := ih found
      rw [getLsbD_and_sub_one nonzero, Bool.and_eq_true] at isSet
      exact ⟨isSet.1, accepted⟩

private theorem scanBits_none_aux (enough : ∀ index, word.getLsbD index = true →
    width ≤ index + fuel) (missing : scanBits accept fuel word = none) (bit : Nat)
    (isSet : word.getLsbD bit = true) : accept bit = false := by
  -- The lowest `width - fuel` bits have been visited and cleared, so each
  -- clearing step costs one unit of fuel and one position.
  induction fuel generalizing word with
  | zero =>
    have inside := BitVec.lt_of_getLsbD isSet
    have bound := enough bit isSet
    omega
  | succ _ ih =>
    rw [scanBits] at missing
    split at missing
    · rename_i zero
      subst zero
      simp at isSet
    rename_i nonzero
    split at missing
    · simp at missing
    rename_i refused
    by_cases lowest : bit = word.ctz.toNat
    · subst lowest
      simpa using refused
    refine ih ?_ missing ?_
    · intro index cleared
      rw [getLsbD_and_sub_one nonzero, Bool.and_eq_true] at cleared
      have lowestBound := enough _ (BitVec.getLsbD_true_ctz_of_ne_zero nonzero)
      have above : word.ctz.toNat < index := by
        rcases Nat.lt_trichotomy index word.ctz.toNat with
          inside | same | above
        · rw [BitVec.getLsbD_false_of_lt_ctz inside] at cleared
          simp at cleared
        · simp [same] at cleared
        · exact above
      omega
    · rw [getLsbD_and_sub_one nonzero, isSet]
      simp [lowest]

end

theorem scanBits_none {accept : Nat → Bool} {word : BitVec width}
    (missing : scanBits accept width word = none) (bit : Nat)
    (isSet : word.getLsbD bit = true) : accept bit = false :=
  scanBits_none_aux (fun _ _ => Nat.le_add_left _ _) missing bit isSet

end MainDob.Lib
