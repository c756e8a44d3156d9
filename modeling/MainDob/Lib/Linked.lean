/-
Purpose: Lists threaded through a successor function: the elements follow each other, and the last
  one has no successor.
Main exports: Linked, Linked.congr, Linked.nodup
-/
import Mathlib.Data.List.Nodup

namespace MainDob.Lib

/-- Each element's successor is the next one. -/
def Linked {α : Type} (next : α → Option α) (list : List α) : Prop :=
  ∀ i a, list[i]? = some a → next a = list[i + 1]?

namespace Linked

variable {α : Type} {next next' : α → Option α} {list : List α}

theorem nil : Linked next [] := by
  intro i a here
  cases here

theorem congr (linked : Linked next list)
    (same : ∀ a ∈ list, next' a = next a) : Linked next' list := by
  intro i a here
  rw [same a (List.mem_of_getElem? here)]
  exact linked i a here

theorem tail {a : α} (linked : Linked next (a :: list)) : Linked next list := by
  intro i b here
  exact linked (i + 1) b here

theorem head {a : α} (linked : Linked next (a :: list)) : next a = list.head? := by
  rw [linked 0 a rfl]
  cases list <;> rfl

theorem cons {a : α} (linked : Linked next list) (first : next a = list.head?) :
    Linked next (a :: list) := by
  intro i b here
  cases i with
  | zero =>
    cases here
    rw [first]
    cases list <;> rfl
  | succ i => exact linked i b here

theorem unique : ∀ {list other : List α}, Linked next list → Linked next other →
    list.head? = other.head? → list = other
  | [], [], _, _, _ => rfl
  | [], _ :: _, _, _, same => nomatch same
  | _ :: _, [], _, _, same => nomatch same
  | a :: list, b :: other, first, second, same => by
    cases same
    have rest := first.head.symm.trans second.head
    rw [unique first.tail second.tail rest]

theorem repeats (linked : Linked next list) {i j : Nat}
    (same : list[i]? = list[j]?) : ∀ k, list[i + k]? = list[j + k]? := by
  intro k
  induction k with
  | zero => exact same
  | succ k ih =>
    cases here : list[i + k]? with
    | none =>
      rw [here] at ih
      rw [List.getElem?_eq_none_iff] at here
      have there := List.getElem?_eq_none_iff.mp ih.symm
      rw [List.getElem?_eq_none (by omega), List.getElem?_eq_none (by omega)]
    | some a =>
      have there := ih.symm.trans here
      rw [← Nat.add_assoc, ← Nat.add_assoc, ← linked (i + k) a here, ← linked (j + k) a there]

theorem nodup (linked : Linked next list) : list.Nodup := by
  rw [List.nodup_iff_getElem?_ne_getElem?]
  intro i j before bound same
  have later := linked.repeats same (list.length - j)
  rw [List.getElem?_eq_none (l := list) (i := j + _) (by omega)] at later
  have inside : i + (list.length - j) < list.length := by omega
  rw [List.getElem?_eq_getElem inside] at later
  cases later

theorem extend {front back : List α} (first : Linked next front) (second : Linked next' back)
    (kept : ∀ i a, front[i]? = some a → i + 1 < front.length → next' a = next a)
    (joined : ∀ a, front.getLast? = some a → next' a = back.head?) :
    Linked next' (front ++ back) := by
  intro i a here
  by_cases inside : i < front.length
  · rw [List.getElem?_append_left inside] at here
    by_cases more : i + 1 < front.length
    · rw [List.getElem?_append_left more, kept i a here more]
      exact first i a here
    have last : front.getLast? = some a := by
      rw [List.getLast?_eq_getElem?, ← here]
      congr 1
      omega
    rw [List.getElem?_append_right (by omega), joined a last, List.head?_eq_getElem?]
    congr 1
    omega
  · rw [List.getElem?_append_right (by omega)] at here
    rw [List.getElem?_append_right (by omega), second _ a here]
    congr 1
    omega

end Linked

end MainDob.Lib
