/-
Purpose: Doubly linked lists: successor and predecessor pointers that describe one list read in
  both directions.
Main exports: IsDlist, Seg.insert, Seg.remove
-/
import MainDob.Lib.Intrusive

namespace MainDob.Lib

open List

variable {α : Type}

namespace Seg

variable {next next' : α → Option α} {front back : List α} {a : α}

theorem not_last (distinct : (front ++ back).Nodup) {b : α}
    (member : b ∈ front.dropLast ∨ b ∈ back) : front.getLast? ≠ some b := by
  intro last
  obtain ⟨init, rfl⟩ := getLast?_eq_some_iff.mp last
  rw [dropLast_concat] at member
  have apart := nodup_append.mp distinct
  rcases member with inner | outer
  · exact (nodup_append.mp apart.1).2.2 b inner b mem_cons_self rfl
  · exact apart.2.2 b mem_concat_self b outer rfl

theorem insert (segment : Seg next (front ++ back) none) (distinct : (front ++ back).Nodup)
    (self : next' a = back.head?) (before : ∀ p, front.getLast? = some p → next' p = some a)
    (others : ∀ b ∈ front ++ back, front.getLast? ≠ some b → next' b = next b) :
    Seg next' (front ++ a :: back) none := by
  rw [append_cons]
  rw [← front.append_nil] at segment
  apply segment.splice
  · exact fun b member => others b (mem_append_left _ (dropLast_subset _ member))
      (not_last distinct (.inl member))
  · exact before
  · exact ⟨self, trivial⟩
  · exact fun b member => others b (mem_append_right _ member) (not_last distinct (.inr member))

theorem remove (segment : Seg next (front ++ a :: back) none)
    (distinct : (front ++ a :: back).Nodup)
    (before : ∀ p, front.getLast? = some p → next' p = next a) (others : ∀ b ∈ front ++
    back, front.getLast? ≠ some b → next' b = next b) : Seg next' (front ++ back) none := by
  have link := (append_iff.mp segment).2.1
  rw [Option.or_none] at link
  rw [link] at before
  rw [append_cons] at segment
  rw [← front.append_nil]
  apply segment.splice
  · exact fun b member => others b (mem_append_left _ (dropLast_subset _ member))
      (not_last distinct (.inl member))
  · exact before
  · trivial
  · exact fun b member => others b (mem_append_right _ member)
      (not_last distinct (.inr (mem_cons_of_mem a member)))

end Seg

/-- The pointers describe the list in both directions. -/
structure IsDlist (next prev : α → Option α) (head tail : Option α)
    (list : List α) : Prop where
  forward : Seg next list none
  backward : Seg prev list.reverse none
  head : head = list.head?
  tail : tail = list.getLast?

namespace IsDlist

variable {next next' prev prev' : α → Option α} {head tail : Option α}
variable {list front back : List α} {a : α}

theorem nil : IsDlist next prev none none [] := ⟨trivial, trivial, rfl, rfl⟩

theorem congr (links : IsDlist next prev head tail list) (sameNext : ∀ b ∈ list, next' b = next b)
    (samePrev : ∀ b ∈ list, prev' b = prev b) : IsDlist next' prev' head tail list where
  forward := links.forward.congr sameNext
  backward := links.backward.congr fun b member => samePrev b (mem_reverse.mp member)
  head := links.head
  tail := links.tail

section

variable (links : IsDlist next prev head tail (front ++ a :: back))
include links

theorem successor : next a = back.head? := by
  have link := (Seg.append_iff.mp links.forward).2.1
  rwa [Option.or_none] at link

theorem predecessor : prev a = front.getLast? := by
  have segment := links.backward
  rw [reverse_append, reverse_cons, append_assoc, Seg.append_iff] at segment
  have link := segment.2.1
  simpa using link

end

theorem insert {head' tail' : Option α} (links : IsDlist next prev head tail (front ++ back))
    (distinct : (front ++ back).Nodup) (selfNext : next' a = back.head?)
    (selfPrev : prev' a = front.getLast?) (before : ∀ p, front.getLast? = some p → next' p = some a)
    (after : ∀ q, back.head? = some q → prev' q = some a)
    (otherNext : ∀ b ∈ front ++ back, front.getLast? ≠ some b → next' b = next b)
    (otherPrev : ∀ b ∈ front ++ back, back.head? ≠ some b → prev' b = prev b)
    (newHead : head' = if front = [] then some a else head)
    (newTail : tail' = if back = [] then some a else tail) :
    IsDlist next' prev' head' tail' (front ++ a :: back) where
  forward := links.forward.insert distinct selfNext before otherNext
  backward := by
    have turned : Seg prev (back.reverse ++ front.reverse) none := by
      rw [← reverse_append]
      exact links.backward
    have turnedDistinct : (back.reverse ++ front.reverse).Nodup := by
      rw [← reverse_append]
      exact nodup_reverse.mpr distinct
    have inserted : Seg prev' (back.reverse ++ a :: front.reverse) none := by
      refine turned.insert turnedDistinct ?_ ?_ ?_
      · rw [List.head?_reverse]
        exact selfPrev
      · rw [List.getLast?_reverse]
        exact after
      · rw [List.getLast?_reverse]
        intro b member other
        refine otherPrev b ?_ other
        simpa [or_comm] using member
    simpa using inserted
  head := by
    rw [newHead, links.head]
    cases front <;> simp
  tail := by
    rw [newTail, links.tail]
    cases back <;> simp [List.getLast?_cons]

theorem remove {head' tail' : Option α} (links : IsDlist next prev head tail (front ++ a :: back))
    (distinct : (front ++ a :: back).Nodup)
    (before : ∀ p, front.getLast? = some p → next' p = next a) (after : ∀ q, back.head? = some q →
    prev' q = prev a) (otherNext : ∀ b ∈ front ++ back, front.getLast? ≠ some b → next' b = next b)
    (otherPrev : ∀ b ∈ front ++ back, back.head? ≠ some b → prev' b = prev b)
    (newHead : head' = if front = [] then back.head? else head)
    (newTail : tail' = if back = [] then front.getLast? else tail) :
    IsDlist next' prev' head' tail' (front ++ back) where
  forward := links.forward.remove distinct before otherNext
  backward := by
    have turned : Seg prev (back.reverse ++ a :: front.reverse) none := by
      have backward := links.backward
      simpa using backward
    have turnedDistinct : (back.reverse ++ a :: front.reverse).Nodup := by
      have reversed := nodup_reverse.mpr distinct
      simpa using reversed
    have removed : Seg prev' (back.reverse ++ front.reverse) none := by
      refine turned.remove turnedDistinct ?_ ?_
      · rw [List.getLast?_reverse]
        exact after
      · rw [List.getLast?_reverse]
        intro b member other
        refine otherPrev b ?_ other
        simpa [or_comm] using member
    simpa using removed
  head := by
    rw [newHead, links.head]
    cases front <;> simp
  tail := by
    rw [newTail, links.tail]
    cases back <;> simp [List.getLast?_append, List.getLast?_cons]

end IsDlist

end MainDob.Lib
