/-
Purpose: The order of events in a log that only grows at its end. Nothing here mentions a
  particular component.
Main exports: Before, Before.append, Before.of_append
-/
import Mathlib.Data.List.Basic

namespace MainDob.Lib

open List

universe u

variable {Event : Type u} {log more : List Event} {one two three : Event}

/-- The log has the event `one`, and `two` after it. -/
def Before (log : List Event) (one two : Event) : Prop :=
  [one, two].Sublist log

theorem Before.mem (order : Before log one two) : one ∈ log ∧ two ∈ log :=
  ⟨order.subset (by simp), order.subset (by simp)⟩

theorem Before.append (order : Before log one two) (more : List Event) :
    Before (log ++ more) one two :=
  List.Sublist.trans order (sublist_append_left log more)

theorem Before.concat (old : one ∈ log) (new : two ∈ more) : Before (log ++ more) one two :=
  List.Sublist.append (singleton_sublist.mpr old) (singleton_sublist.mpr new)

theorem Before.follow (order : Before log one two) (new : three ∈ more) :
    [one, two, three].Sublist (log ++ more) :=
  List.Sublist.append order (singleton_sublist.mpr new)

theorem Before.of_append (order : Before (log ++ more) one two)
    (old : two ∉ more) : Before log one two := by
  obtain ⟨first, second, parts, inLog, inMore⟩ := sublist_append_iff.mp order
  rcases eq_nil_or_concat second with rfl | ⟨start, last, rfl⟩
  · rw [Before, parts, append_nil]
    exact inLog
  have isLast : two = last := by
    have ends := congrArg List.getLast? parts
    simpa [← append_assoc] using ends
  exact (old (isLast ▸ inMore.subset (by simp))).elim

theorem before_concat : Before (log ++ [three]) one two ↔
    Before log one two ∨ (one ∈ log ∧ two = three) := by
  constructor
  · intro order
    by_cases last : two = three
    · right
      refine ⟨?_, last⟩
      obtain ⟨first, second, parts, inLog, inMore⟩ := sublist_append_iff.mp order
      cases first with
      | nil =>
        have long := inMore.length_le
        rw [← nil_append second, ← parts] at long
        simp at long
      | cons =>
        injection parts with same
        exact inLog.subset (by simp [same])
    · exact .inl (order.of_append (by simpa using last))
  · rintro (order | ⟨old, rfl⟩)
    · exact order.append _
    · exact Before.concat old (by simp)

end MainDob.Lib
