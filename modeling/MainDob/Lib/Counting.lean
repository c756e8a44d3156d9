/-
Purpose: How often an element occurs in the parts of a collection, when one part is replaced,
  added or taken away.
Main exports: count_flatMap_set, count_flatMap_erase, count_le_flatMap
-/
import Mathlib.Data.List.Perm.Basic
import Mathlib.Data.List.Count

namespace MainDob.Lib

open List

universe u v

variable {Part : Type u} {Element : Type v} [DecidableEq Element] (contents : Part → List Element)

theorem count_flatMap_set {parts : List Part} {index : Nat} {old : Part} (new : Part)
    (present : parts[index]? = some old) (element : Element) :
    ((parts.set index new).flatMap contents).count element + (contents old).count element =
      (parts.flatMap contents).count element + (contents new).count element := by
  induction parts generalizing index with
  | nil => simp at present
  | cons part _ ih =>
    cases index with
    | zero =>
      cases (by simpa using present : part = old)
      simp only [set_cons_zero, flatMap_cons, count_append]
      omega
    | succ =>
      have rest := ih (by simpa using present)
      simp only [set_cons_succ, flatMap_cons, count_append]
      omega

theorem count_flatMap_erase [DecidableEq Part] {parts : List Part} {part : Part}
    (present : part ∈ parts) (element : Element) :
    (parts.flatMap contents).count element = (contents part).count element +
        ((parts.erase part).flatMap contents).count element := by
  have same := ((perm_cons_erase present).flatMap_right contents).count_eq element
  simpa using same

theorem count_le_flatMap {parts : List Part} {part : Part}
    (present : part ∈ parts) (element : Element) :
    (contents part).count element ≤ (parts.flatMap contents).count element := by
  induction parts with
  | nil => cases present
  | cons _ _ ih =>
    simp only [flatMap_cons, count_append]
    rcases mem_cons.mp present with rfl | later
    · omega
    · have := ih later
      omega

omit [DecidableEq Element] in
theorem perm_swap_last {entries : List Element} {index : Nat} {last : Element}
    (bound : index < entries.length) (ends : entries.getLast? = some last) :
    (entries[index] :: (entries.set index last).dropLast).Perm entries := by
  obtain ⟨front, rfl⟩ := List.getLast?_eq_some_iff.mp ends
  have bound' : index < front.length + 1 := by simpa using bound
  rcases Nat.lt_or_eq_of_le (Nat.le_of_lt_succ bound') with inside | rfl
  · have moved : ((front ++ [last]).set index last).dropLast = front.set index last := by
      rw [set_append_left _ _ inside, dropLast_concat]
    rw [moved, getElem_append_left inside]
    calc (front[index] :: front.set index last).Perm
          (front[index] :: last :: front.eraseIdx index) :=
          (set_perm_cons_eraseIdx inside last).cons _
      List.Perm _ (last :: front[index] :: front.eraseIdx index) := .swap ..
      List.Perm _ (last :: front) := (getElem_cons_eraseIdx_perm inside).cons _
      List.Perm _ (front ++ [last]) := (perm_append_singleton ..).symm
  · have moved : ((front ++ [last]).set front.length last).dropLast = front := by simp
    rw [moved, getElem_concat_length rfl]
    exact (perm_append_singleton ..).symm

end MainDob.Lib
