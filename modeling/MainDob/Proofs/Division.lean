/-
Purpose: The 64-bit divisions of the kernel and of the C library are exact. Both ways of dividing
  carry a division of the leading digits on to the next digit: the loop in base 2, the two divl
  steps in base 2^32.
Trusted boundary: none (fully proved)
Main exports: Remaining, divideBits_remaining, divisions_exact
-/
import MainDob.Lib.LongDivision
import MainDob.Libc.Div64

namespace MainDob.Kernel.Div64

open MainDob.Lib

/-! ### The loop -/

/-- Bits 63 down to `left` of `n` are divided by `d`: what the loop holds then. -/
structure Remaining (n d : BitVec 64) (left : Nat)
    (state : BitVec 64 × BitVec 64) : Prop where
  quotient : 2 ^ left ∣ state.1.toNat
  divided : Divided (n.toNat / 2 ^ left) d.toNat (state.1.toNat / 2 ^ left) state.2.toNat

variable {d n : BitVec 64}

theorem Remaining.room {left : Nat} {state : BitVec 64 × BitVec 64}
    (remaining : Remaining n d left state) (positive : 0 < left) : 2 * state.2.toNat < 2 ^ 64 := by
  have atMost : state.2.toNat ≤ n.toNat / 2 ^ left := by
    rw [remaining.divided.equation]
    exact Nat.le_add_left _ _
  have halved : n.toNat / 2 ^ left ≤ n.toNat / 2 :=
    Nat.div_le_div_left (Nat.le_self_pow (by omega) 2) (by decide)
  omega

theorem leading_bits (n i : Nat) : n / 2 ^ i = n / 2 ^ (i + 1) * 2 + n / 2 ^ i % 2 := by
  rw [Nat.pow_succ, ← Nat.div_div_eq_div_mul]
  omega

theorem shifted_toNat (n r : BitVec 64) (i : Nat) (room : 2 * r.toNat < 2 ^ 64) :
    ((r <<< 1) ||| ((n >>> i) &&& 1)).toNat = r.toNat * 2 + n.toNat / 2 ^ i % 2 := by
  have bit : ((n >>> i) &&& 1).toNat = n.toNat / 2 ^ i % 2 := by
    simp [BitVec.toNat_and, Nat.shiftRight_eq_div_pow, Nat.and_one_is_mod]
  have low : n.toNat / 2 ^ i % 2 < 2 ^ 1 := Nat.mod_lt _ (by decide)
  rw [BitVec.toNat_or, BitVec.toNat_shiftLeft, bit, Nat.shiftLeft_eq,
    Nat.mod_eq_of_lt (by omega), mul_comm r.toNat, ← Nat.two_pow_add_eq_or_of_lt low]

theorem quotient_toNat {q : BitVec 64} {i : Nat} (inside : i < 64) (multiple : 2 ^
    (i + 1) ∣ q.toNat) : (q ||| ((1 : BitVec 64) <<< i)).toNat = q.toNat + 2 ^ i := by
  obtain ⟨upper, same⟩ := multiple
  have bit : ((1 : BitVec 64) <<< i).toNat = 2 ^ i := by
    have small : 2 ^ i < 2 ^ 64 := Nat.pow_lt_pow_right (by decide) inside
    simpa [BitVec.toNat_shiftLeft, Nat.shiftLeft_eq] using small
  rw [BitVec.toNat_or, bit, same, ← Nat.two_pow_add_eq_or_of_lt
    (Nat.pow_lt_pow_right (by decide) (Nat.lt_succ_self i))]

theorem divideBit_remaining {i : Nat} {state : BitVec 64 × BitVec 64} (inside : i < 64)
    (remaining : Remaining n d (i + 1) state) : Remaining n d i (divideBit n d i state) := by
  obtain ⟨q, r⟩ := state
  have room := remaining.room (Nat.succ_pos i)
  have shifted := shifted_toNat n r i room
  obtain ⟨upper, multiple⟩ := remaining.quotient
  have next := remaining.divided.next 2 (n.toNat / 2 ^ i % 2)
  rw [← leading_bits, ← shifted] at next
  have below := remaining.divided.below
  dsimp only at next below room multiple
  have positive : 0 < 2 ^ i := Nat.two_pow_pos i
  have doubled : q.toNat / 2 ^ (i + 1) * 2 = q.toNat / 2 ^ i := by
    rw [multiple, Nat.mul_div_cancel_left _ (Nat.two_pow_pos _), Nat.pow_succ,
      mul_assoc, Nat.mul_div_cancel_left _ positive, mul_comm]
  have divides : 2 ^ i ∣ q.toNat := ⟨2 * upper, by rw [multiple, Nat.pow_succ, mul_assoc]⟩
  unfold divideBit
  generalize (r <<< 1) ||| ((n >>> i) &&& 1) = partialRem at next shifted ⊢
  by_cases fits : d ≤ partialRem
  · rw [if_pos fits]
    have atMost : d.toNat ≤ partialRem.toNat := fits
    have one : partialRem.toNat / d.toNat = 1 := Nat.div_eq_of_lt_le (by omega) (by omega)
    have rest : partialRem.toNat % d.toNat = partialRem.toNat - d.toNat := by
      rw [Nat.mod_eq_sub_mod atMost, Nat.mod_eq_of_lt (by omega)]
    have sum := quotient_toNat inside ⟨upper, multiple⟩
    refine ⟨?_, ?_⟩
    · rw [sum]
      exact Nat.dvd_add divides (dvd_refl _)
    · dsimp only
      rw [sum, Nat.add_div_right _ positive, BitVec.toNat_sub_of_le fits, ← doubled]
      rwa [one, rest] at next
  · rw [if_neg fits]
    have smaller : partialRem.toNat < d.toNat := BitVec.not_le.mp fits
    refine ⟨divides, ?_⟩
    rw [Nat.div_eq_of_lt smaller, Nat.mod_eq_of_lt smaller, doubled] at next
    exact next

theorem divideBits_remaining (nonzero : d ≠ 0) :
    ∀ turns : Nat, turns ≤ 64 → Remaining n d (64 - turns) (divideBits n d turns) := by
  have positive : 0 < d.toNat :=
    Nat.pos_of_ne_zero (fun zero => nonzero (BitVec.eq_of_toNat_eq zero))
  intro turns
  induction turns with
  | zero =>
    intro _
    refine ⟨dvd_zero _, ?_⟩
    rw [Nat.sub_zero, Nat.div_eq_of_lt n.isLt]
    simpa [divideBits] using Divided.zero positive
  | succ turns ih =>
    intro inside
    have before := ih (by omega)
    rw [show 64 - turns = 63 - turns + 1 by omega] at before
    have after := divideBit_remaining (by omega) before
    rwa [show 64 - (turns + 1) = 63 - turns by omega]

theorem divideBits_divided (nonzero : d ≠ 0) :
    Divided n.toNat d.toNat (divideBits n d 64).1.toNat (divideBits n d 64).2.toNat := by
  have done := (divideBits_remaining (n := n) nonzero 64 (le_refl _)).divided
  simpa using done

/-! ### The divl steps -/

theorem divl_next {n q : Nat} {divisor edx : BitVec 32} (eax : BitVec 32)
    (divided : Divided n divisor.toNat q edx.toNat) :
    ∃ digit rest, divl edx eax divisor = some (digit, rest) ∧
      Divided (n * 2 ^ 32 + eax.toNat) divisor.toNat (q * 2 ^ 32 + digit.toNat) rest.toNat := by
  have fits := divided.digit_lt eax.isLt
  have next := divided.next (2 ^ 32) eax.toNat
  have below := divided.below
  have nonzero : divisor ≠ 0 := by
    rintro rfl
    exact absurd below (Nat.not_lt_zero _)
  have small := lt_trans next.below divisor.isLt
  refine ⟨BitVec.ofNat 32 ((edx.toNat * 2 ^ 32 + eax.toNat) / divisor.toNat),
    BitVec.ofNat 32 ((edx.toNat * 2 ^ 32 + eax.toNat) % divisor.toNat), ?_, ?_⟩
  · unfold divl
    rw [if_neg nonzero, if_neg (Nat.not_le.mpr fits)]
  · rw [BitVec.toNat_ofNat, BitVec.toNat_ofNat, Nat.mod_eq_of_lt fits, Nat.mod_eq_of_lt small]
    exact next

theorem halves_toNat (n : BitVec 64) :
    ((n >>> 32).setWidth 32).toNat * 2 ^ 32 + (n.setWidth 32).toNat = n.toNat := by
  rw [BitVec.toNat_setWidth, BitVec.toNat_setWidth, BitVec.toNat_ushiftRight,
    Nat.shiftRight_eq_div_pow]
  omega

theorem joined_toNat (hi lo : BitVec 32) :
    ((hi.setWidth 64 <<< 32) ||| lo.setWidth 64).toNat = hi.toNat * 2 ^ 32 + lo.toNat := by
  have low := lo.isLt
  rw [BitVec.toNat_or, BitVec.toNat_shiftLeft, BitVec.toNat_setWidth, BitVec.toNat_setWidth,
    Nat.shiftLeft_eq, Nat.mod_eq_of_lt (b := 2 ^ 64) (by omega), Nat.mod_eq_of_lt (by omega),
    Nat.mod_eq_of_lt (by omega), mul_comm, ← Nat.two_pow_add_eq_or_of_lt low]

section

variable (dividend : BitVec 64) {divisor : BitVec 32} (nonzero : divisor ≠ 0)
include dividend nonzero

theorem divlTwice_spec : ∃ qHi qLo rLo, divlTwice dividend divisor = some (qHi, qLo, rLo) ∧
      Divided dividend.toNat divisor.toNat (qHi.toNat * 2 ^ 32 + qLo.toNat) rLo.toNat := by
  have positive : 0 < divisor.toNat :=
    Nat.pos_of_ne_zero (fun zero => nonzero (BitVec.eq_of_toNat_eq zero))
  have start : Divided 0 divisor.toNat 0 (0 : BitVec 32).toNat := Divided.zero positive
  obtain ⟨qHi, rHi, first, high⟩ := divl_next ((dividend >>> 32).setWidth 32) start
  obtain ⟨qLo, rLo, second, whole⟩ := divl_next (dividend.setWidth 32) high
  refine ⟨qHi, qLo, rLo, ?_, ?_⟩
  · unfold divlTwice
    dsimp only
    rw [first, Option.bind_eq_bind, Option.bind_some, second]
    rfl
  · simpa only [zero_mul, zero_add, halves_toNat] using whole

theorem divisions_u32 :
    ∃ q r, udiv64U32 dividend divisor = some q ∧ umod64U32 dividend divisor = some r ∧
      q.toNat = dividend.toNat / divisor.toNat ∧ r.toNat = dividend.toNat % divisor.toNat := by
  obtain ⟨qHi, qLo, rLo, twice, divided⟩ := divlTwice_spec dividend nonzero
  refine ⟨_, rLo, ?_, ?_, (joined_toNat qHi qLo).trans divided.div.symm, divided.mod.symm⟩
  · unfold udiv64U32
    rw [twice]
    rfl
  · unfold umod64U32
    rw [twice]
    rfl

end

/-! ### The entry points -/

theorem fastOperands_eq (n d : BitVec 64) :
    fastOperands n d = ((n >>> 32).setWidth 32 % d.setWidth 32, n.setWidth 32) := by
  unfold fastOperands
  dsimp only
  generalize (n >>> 32).setWidth 32 % d.setWidth 32 = hi
  generalize n.setWidth 32 = lo
  have joined := joined_toNat hi lo
  refine Prod.ext (BitVec.eq_of_toNat_eq ?_) (BitVec.eq_of_toNat_eq ?_)
  · dsimp only
    rw [BitVec.toNat_setWidth, BitVec.toNat_ushiftRight, joined, Nat.shiftRight_eq_div_pow]
    omega
  · dsimp only
    rw [BitVec.toNat_setWidth, joined]
    omega

theorem short_divisor (short : d >>> 32 = 0) : (d.setWidth 32).toNat = d.toNat := by
  have upper : (d >>> 32).toNat = 0 := by rw [short]; rfl
  rw [BitVec.toNat_ushiftRight, Nat.shiftRight_eq_div_pow] at upper
  rw [BitVec.toNat_setWidth]
  omega

theorem upper_divided (nonzero : d ≠ 0) (short : d >>> 32 = 0) :
    Divided ((n >>> 32).setWidth 32).toNat (d.setWidth 32).toNat
      ((n >>> 32).setWidth 32 / d.setWidth 32).toNat (fastOperands n d).1.toNat := by
  have positive : 0 < (d.setWidth 32).toNat := by
    rw [short_divisor short]
    exact Nat.pos_of_ne_zero (fun zero => nonzero (BitVec.eq_of_toNat_eq zero))
  rw [fastOperands_eq, BitVec.toNat_udiv, BitVec.toNat_umod]
  exact Divided.of_div_mod _ positive

theorem fast_quotient_fits (nonzero : d ≠ 0) (short : d >>> 32 = 0) :
    ((fastOperands n d).1.toNat * 2 ^ 32 + (fastOperands n d).2.toNat) /
      (d.setWidth 32).toNat < 2 ^ 32 :=
  (upper_divided nonzero short).digit_lt (fastOperands n d).2.isLt

theorem udiv64_spec (n : BitVec 64) (nonzero : d ≠ 0) :
    ∃ q r, udiv64 n d = some (q, r) ∧ Divided n.toNat d.toNat q.toNat r.toNat := by
  unfold udiv64
  rw [if_neg nonzero]
  by_cases short : d >>> 32 = 0
  · rw [if_pos short]
    obtain ⟨qLo, rLo, second, whole⟩ :=
      divl_next (fastOperands n d).2 (upper_divided (n := n) nonzero short)
    refine ⟨(((n >>> 32).setWidth 32 / d.setWidth 32).setWidth 64 <<< 32) |||
      qLo.setWidth 64, rLo.setWidth 64, ?_, ?_⟩
    · dsimp only
      rw [second]
      rfl
    · rw [joined_toNat, BitVec.toNat_setWidth_of_le (by decide),
        ← short_divisor short, ← halves_toNat n]
      rwa [fastOperands_eq] at whole
  · rw [if_neg short]
    exact ⟨_, _, rfl, divideBits_divided nonzero⟩

theorem words_of_divided {q r : BitVec 64}
    (divided : Divided n.toNat d.toNat q.toNat r.toNat) : q = n / d ∧ r = n % d := by
  refine ⟨BitVec.eq_of_toNat_eq ?_, BitVec.eq_of_toNat_eq ?_⟩
  · rw [BitVec.toNat_udiv, divided.div]
  · rw [BitVec.toNat_umod, divided.mod]

theorem udiv64_words (n : BitVec 64) (nonzero : d ≠ 0) : udiv64 n d = some (n / d, n % d) := by
  obtain ⟨_, _, done, divided⟩ := udiv64_spec n nonzero
  obtain ⟨rfl, rfl⟩ := words_of_divided divided
  exact done

theorem divideBits_words (n : BitVec 64) (nonzero : d ≠ 0) :
    divideBits n d 64 = (n / d, n % d) := by
  obtain ⟨quotient, remainder⟩ := words_of_divided (divideBits_divided (n := n) nonzero)
  exact Prod.ext quotient remainder

theorem slt_zero (n : BitVec 64) : n.slt 0 = n.msb := BitVec.slt_zero_eq_msb

theorem magnitude_ne_zero (nonzero : d ≠ 0) : magnitude d ≠ 0 := by
  unfold magnitude
  split
  · exact fun zero => nonzero (by simpa using zero)
  · exact nonzero

theorem divdi3_spec (n : BitVec 64) (nonzero : d ≠ 0) : divdi3 n d = some (n.sdiv d) := by
  unfold divdi3
  rw [udiv64_words _ (magnitude_ne_zero nonzero), BitVec.sdiv_eq]
  unfold magnitude
  rw [slt_zero, slt_zero]
  cases n.msb <;> cases d.msb <;> rfl

theorem moddi3_spec (n : BitVec 64) (nonzero : d ≠ 0) : moddi3 n d = some (n.srem d) := by
  unfold moddi3
  rw [udiv64_words _ (magnitude_ne_zero nonzero), BitVec.srem_eq]
  unfold magnitude
  rw [slt_zero, slt_zero]
  cases n.msb <;> cases d.msb <;> rfl

end MainDob.Kernel.Div64

namespace MainDob.Libc.Div64

open MainDob.Lib
open MainDob.Kernel.Div64 (divideBits_words)

theorem magnitude_eq (n : BitVec 64) : magnitude n = Kernel.Div64.magnitude n := by
  have turned : 0 - n = -n := BitVec.zero_sub n
  unfold magnitude Kernel.Div64.magnitude
  rw [turned]

theorem divmoddi4_spec (n : BitVec 64) {d : BitVec 64} (nonzero : d ≠ 0) :
    divmoddi4 n d = (n.sdiv d, n.srem d) := by
  have divided := divideBits_words (Kernel.Div64.magnitude n)
    (Kernel.Div64.magnitude_ne_zero nonzero)
  unfold divmoddi4 udivmoddi4 signsDiffer
  rw [magnitude_eq, magnitude_eq, divided, BitVec.sdiv_eq, BitVec.srem_eq]
  unfold Kernel.Div64.magnitude
  have turned (word : BitVec 64) : 0 - word = -word := BitVec.zero_sub word
  simp only [Kernel.Div64.slt_zero, turned]
  cases n.msb <;> cases d.msb <;> rfl

theorem divdi3_eq (n d : BitVec 64) : divdi3 n d = (divmoddi4 n d).1 := rfl

theorem moddi3_eq (n d : BitVec 64) : moddi3 n d = (divmoddi4 n d).2 := rfl

/-- Both 64-bit divisions are exact, the signed entry points truncate toward zero,
the loop never shifts a bit out, and the divl of the fast path cannot fault. -/
theorem divisions_exact (n d : BitVec 64) (nonzero : d ≠ 0) : (∃ q r, Kernel.Div64.udiv64 n d = some
    (q, r) ∧ udivmoddi4 n d = (q, r) ∧ n.toNat = q.toNat * d.toNat + r.toNat ∧ r.toNat < d.toNat) ∧
    (∀ turns < 64, 2 * (Kernel.Div64.divideBits n d turns).2.toNat < 2 ^ 64) ∧
    (d >>> 32 = 0 → ((Kernel.Div64.fastOperands n d).1.toNat * 2 ^ 32 +
          (Kernel.Div64.fastOperands n d).2.toNat) / (d.setWidth 32).toNat <
        2 ^ 32) ∧ (¬(n = BitVec.intMin 64 ∧ d = -1) → ∃ q r, Kernel.Div64.divdi3 n d = some q ∧
      Kernel.Div64.moddi3 n d = some r ∧ divdi3 n d = q ∧ moddi3 n d = r ∧ divmoddi4 n d = (q, r) ∧
        q.toInt = n.toInt.tdiv d.toInt ∧ r.toInt = n.toInt.tmod d.toInt) := by
  refine ⟨?unsigned, ?loop, Kernel.Div64.fast_quotient_fits nonzero, ?signed⟩
  case unsigned =>
    obtain ⟨_, _, done, divided⟩ := Kernel.Div64.udiv64_spec n nonzero
    obtain ⟨rfl, rfl⟩ := Kernel.Div64.words_of_divided divided
    exact ⟨_, _, done, divideBits_words n nonzero, divided.equation, divided.below⟩
  case loop =>
    intro turns inside
    exact (Kernel.Div64.divideBits_remaining nonzero turns (le_of_lt inside)).room (by omega)
  case signed =>
    intro notOverflow
    have combined := divmoddi4_spec n nonzero
    refine ⟨n.sdiv d, n.srem d, Kernel.Div64.divdi3_spec n nonzero,
      Kernel.Div64.moddi3_spec n nonzero, ?_, ?_, combined, ?_, BitVec.toInt_srem n d⟩
    · rw [divdi3_eq, combined]
    · rw [moddi3_eq, combined]
    exact BitVec.toInt_sdiv_of_ne_or_ne n d (by
      rw [← not_and_or]
      exact notOverflow)

/-- The largest dividend and a divisor above 2^63. -/
theorem divisions_exact_above :
    Kernel.Div64.udiv64 0xFFFFFFFFFFFFFFFF 0x8000000000000001 = some (1, 0x7FFFFFFFFFFFFFFE) ∧
      ∃ q r, Kernel.Div64.udiv64 0xFFFFFFFFFFFFFFFF 0x8000000000000001 = some (q, r) ∧
        udivmoddi4 0xFFFFFFFFFFFFFFFF 0x8000000000000001 = (q, r) ∧
        (0xFFFFFFFFFFFFFFFF : BitVec 64).toNat =
          q.toNat * (0x8000000000000001 : BitVec 64).toNat + r.toNat ∧
        r.toNat < (0x8000000000000001 : BitVec 64).toNat :=
  ⟨by decide +kernel, (divisions_exact 0xFFFFFFFFFFFFFFFF 0x8000000000000001 (by decide)).1⟩

end MainDob.Libc.Div64
