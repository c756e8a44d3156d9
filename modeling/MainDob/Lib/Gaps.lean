/-
Purpose: Places in a row that are taken or free: how many are free, and the gaps, that is the runs
  of free places that cannot be made longer.
Main exports: AllFree, Gap, AllFree.gap
-/
import Mathlib.Data.Finset.Card
import Mathlib.Data.Finset.Range
import Mathlib.Tactic.Common

namespace MainDob.Lib.Gaps

/-- The `count` places from `first` on are free. -/
def AllFree (taken : Nat → Bool) (first count : Nat) : Prop :=
  ∀ i < count, taken (first + i) = false

instance (taken : Nat → Bool) (first count : Nat) : Decidable (AllFree taken first count) :=
  inferInstanceAs (Decidable (∀ i < count, taken (first + i) = false))

/-- A run of free places among the first `size` ones that ends on both sides at
a taken place or at the edge. -/
structure Gap (taken : Nat → Bool) (size first count : Nat) : Prop where
  some : 0 < count
  inside : first + count ≤ size
  free : AllFree taken first count
  before : first = 0 ∨ taken (first - 1) = true
  behind : first + count = size ∨ taken (first + count) = true

section Gap

variable {taken : Nat → Bool} {size first count : Nat}

section

variable (free : AllFree taken first count)
include free

theorem AllFree.extend_down : ∃ low ≤ first,
    AllFree taken low (first - low + count) ∧ (low = 0 ∨ taken (low - 1) = true) := by
  induction first generalizing count with
  | zero => exact ⟨0, le_rfl, by simpa using free, .inl rfl⟩
  | succ first ih =>
    cases here : taken first with
    | true => exact ⟨first + 1, le_rfl, by simpa using free, .inr here⟩
    | false =>
      have longer : AllFree taken first (count + 1) := by
        intro i below
        cases i with
        | zero => exact here
        | succ i =>
          have inside := free i (by omega)
          rwa [Nat.add_right_comm, Nat.add_assoc] at inside
      obtain ⟨low, below, run, stop⟩ := ih longer
      refine ⟨low, by omega, ?_, stop⟩
      rwa [show first + 1 - low + count = first - low + (count + 1) by omega]

theorem AllFree.extend_up (inside : first + count ≤ size) :
    ∃ more, first + count + more ≤ size ∧ AllFree taken first (count + more) ∧
      (first + count + more = size ∨ taken (first + count + more) = true) := by
  induction left : size - (first + count) generalizing count with
  | zero => exact ⟨0, by omega, by simpa using free, .inl (by omega)⟩
  | succ _ ih =>
    cases here : taken (first + count) with
    | true => exact ⟨0, by omega, by simpa using free, .inr here⟩
    | false =>
      have longer : AllFree taken first (count + 1) := by
        intro i below
        rcases Nat.lt_succ_iff_lt_or_eq.mp below with inner | last
        · exact free i inner
        · rw [last]
          exact here
      obtain ⟨more, fits, run, stop⟩ := ih longer (by omega) (by omega)
      refine ⟨more + 1, by omega, ?_, ?_⟩
      · rwa [show count + (more + 1) = count + 1 + more by omega]
      · rwa [show first + count + (more + 1) = first + (count + 1) + more by omega]

theorem AllFree.gap (some : 0 < count) (inside : first + count ≤ size) :
    ∃ low length, Gap taken size low length ∧ low ≤ first ∧ first + count ≤ low + length := by
  obtain ⟨low, below, down, before⟩ := free.extend_down
  have inside' : low + (first - low + count) ≤ size := by omega
  obtain ⟨more, fits, up, behind⟩ := down.extend_up inside'
  exact ⟨low, first - low + count + more,
    { some := by omega
      inside := by omega
      free := up
      before := before
      behind := by rwa [← Nat.add_assoc] }, below, by omega⟩

end

theorem Gap.unique_end (gap : Gap taken size first count) {low run : Nat}
    (free : AllFree taken low run) (before : low = 0 ∨ taken (low - 1) = true)
    (same : first + count = low + run) : first = low ∧ count = run := by
  have order : first = low := by
    rcases Nat.lt_trichotomy first low with lower | equal | higher
    · -- the place before `low` lies in the gap
      exfalso
      have inside := gap.free (low - 1 - first) (by omega)
      rw [show first + (low - 1 - first) = low - 1 by omega] at inside
      rcases before with edge | blocked
      · omega
      · rw [blocked] at inside
        cases inside
    · exact equal
    · exfalso
      have inside := free (first - 1 - low) (by omega)
      rw [show low + (first - 1 - low) = first - 1 by omega] at inside
      rcases gap.before with edge | blocked
      · omega
      · rw [blocked] at inside
        cases inside
  omega

end Gap

/-! ### How many places are free -/

/-- The number of free places among the first `size` ones. -/
def freeCount (taken : Nat → Bool) (size : Nat) : Nat :=
  ((Finset.range size).filter fun i => taken i = false).card

theorem freeCount_le (taken : Nat → Bool) (size : Nat) : freeCount taken size ≤ size :=
  (Finset.card_filter_le _ _).trans (Finset.card_range size).le

section

variable {taken taken' : Nat → Bool} {size place : Nat} (inside : place < size)
include inside

theorem freeCount_take
    (free : taken place = false) (after : ∀ i, taken' i = (decide (i = place) || taken i)) :
    freeCount taken' size + 1 = freeCount taken size := by
  have erased : ((Finset.range size).filter fun i => taken' i = false) =
      ((Finset.range size).filter fun i => taken i = false).erase place := by
    ext i
    simp only [Finset.mem_filter, Finset.mem_erase, Finset.mem_range, after,
      Bool.or_eq_false_iff, decide_eq_false_iff_not]
    constructor
    · rintro ⟨low, other, loose⟩
      exact ⟨other, low, loose⟩
    · rintro ⟨other, low, loose⟩
      exact ⟨low, other, loose⟩
  unfold freeCount
  rw [erased]
  exact Finset.card_erase_add_one (Finset.mem_filter.mpr ⟨Finset.mem_range.mpr inside, free⟩)

theorem freeCount_release
    (used : taken place = true) (after : ∀ i, taken' i = (decide (i ≠ place) && taken i)) :
    freeCount taken' size = freeCount taken size + 1 := by
  have free : taken' place = false := by simp [after]
  refine (freeCount_take inside free ?_).symm
  intro i
  by_cases same : i = place
  · rw [same, used]
    simp
  · simp [after, same]

end

end MainDob.Lib.Gaps
