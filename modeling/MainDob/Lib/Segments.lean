/-
Purpose: A sequence kept as the concatenation of segments, and where a position
  of it falls: the segments before the position, and how far into the next one
  it is.
Main exports: locate, locate_cases, locate_mono
-/
import Mathlib.Data.List.Basic

namespace MainDob.Lib.Segments

open List

universe u v

variable {Segment : Type u} {Item : Type v} (contents : Segment → List Item)

/-- The number of whole segments before a position, and what is left of it in
the next one; past the end, all the segments and nothing. -/
def locate : List Segment → Nat → Nat × Nat
  | [], _ => (0, 0)
  | segment :: rest, pos =>
    if pos < (contents segment).length then (0, pos)
    else
      let found := locate rest (pos - (contents segment).length)
      (found.1 + 1, found.2)

variable {contents}

section

variable (segments : List Segment)
include segments

theorem locate_cases (pos : Nat) :
    (∃ segment, segments[(locate contents segments pos).1]? = some segment ∧
      (locate contents segments pos).2 < (contents segment).length ∧
      pos = ((segments.take (locate contents segments pos).1).flatMap
        contents).length + (locate contents segments pos).2) ∨
    (locate contents segments pos = (segments.length, 0) ∧
      (segments.flatMap contents).length ≤ pos) := by
  induction segments generalizing pos with
  | nil => exact .inr ⟨rfl, Nat.zero_le pos⟩
  | cons segment _ ih =>
    by_cases here : pos < (contents segment).length
    · refine .inl ⟨segment, ?_, ?_, ?_⟩
      all_goals simp [locate, here]
    rcases ih (pos - (contents segment).length) with
      ⟨found, isThere, inside, place⟩ | ⟨past, beyond⟩
    · refine .inl ⟨found, ?_, ?_, ?_⟩
      · simpa [locate, here] using isThere
      · simpa [locate, here] using inside
      · simp only [locate, here, if_false, take_succ_cons, flatMap_cons, length_append]
        omega
    · refine .inr ⟨?_, ?_⟩
      · simp [locate, here, past]
      · simp only [flatMap_cons, length_append]
        omega

theorem locate_mono {pos later : Nat} (ordered : pos ≤ later) : (locate contents segments pos).1 ≤
      (locate contents segments later).1 := by
  induction segments generalizing pos later with
  | nil => exact Nat.le_refl 0
  | cons segment _ ih =>
    by_cases here : pos < (contents segment).length
    · simp [locate, here]
    have past : ¬ later < (contents segment).length := by omega
    have tail := ih (Nat.sub_le_sub_right ordered (contents segment).length)
    simp only [locate, here, past, if_false]
    omega

theorem take_flatMap (pos : Nat) : (segments.flatMap contents).take pos =
      (segments.take (locate contents segments pos).1).flatMap contents ++
        (segments[(locate contents segments pos).1]?.toList.flatMap fun segment =>
            (contents segment).take (locate contents segments pos).2) := by
  induction segments generalizing pos with
  | nil => simp
  | cons segment _ ih =>
    by_cases here : pos < (contents segment).length
    · simp [locate, here, take_append_of_le_length (Nat.le_of_lt here)]
    have past : (contents segment).take pos = contents segment := take_of_length_le (by omega)
    simp only [locate, here, if_false, flatMap_cons,
      take_succ_cons, List.getElem?_cons_succ, take_append, ih, past, append_assoc]

theorem drop_flatMap (pos : Nat) : (segments.flatMap contents).drop pos =
      (segments[(locate contents segments pos).1]?.toList.flatMap fun segment =>
          (contents segment).drop (locate contents segments pos).2) ++
        (segments.drop ((locate contents segments pos).1 + 1)).flatMap contents := by
  induction segments generalizing pos with
  | nil => simp
  | cons segment _ ih =>
    by_cases here : pos < (contents segment).length
    · simp [locate, here, drop_append_of_le_length (Nat.le_of_lt here)]
    have past : (contents segment).drop pos = [] := drop_of_length_le (by omega)
    simp only [locate, here, if_false, flatMap_cons,
      drop_succ_cons, List.getElem?_cons_succ, drop_append, ih, past, nil_append]

end

end MainDob.Lib.Segments
