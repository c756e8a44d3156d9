/-
Purpose: Binary min-heaps in an array whose elements know their position: sifting, insertion, and
  removal from any position.
Main exports: IndexedHeap, siftUp, siftDown
-/
import Mathlib.Logic.Function.Basic

namespace MainDob.Lib

open Function

/-- The first `count` cells of an array, and the position of each element. -/
structure IndexedHeap (α : Type) where
  arr : Nat → α
  pos : α → Option Nat
  count : Nat

namespace IndexedHeap

variable {α : Type} [DecidableEq α]

/-- Put an element into a cell. -/
def place (h : IndexedHeap α) (i : Nat) (a : α) : IndexedHeap α :=
  { h with
    arr := Function.update h.arr i a
    pos := Function.update h.pos a (some i) }

/-- Exchange two cells. -/
def swap (h : IndexedHeap α) (i j : Nat) : IndexedHeap α :=
  (h.place i (h.arr j)).place j (h.arr i)

variable (key : α → Nat)

/-- Let the element of a cell rise past parents with a larger key. -/
def siftUp : Nat → IndexedHeap α → Nat → IndexedHeap α
  | 0, h, _ => h
  | fuel + 1, h, i =>
    if i = 0 then h
    else if key (h.arr ((i - 1) / 2)) ≤ key (h.arr i) then h
    else siftUp fuel (h.swap i ((i - 1) / 2)) ((i - 1) / 2)

/-- The cell with the smallest key among a cell and its children. -/
def smallest (h : IndexedHeap α) (i : Nat) : Nat :=
  let left :=
    if 2 * i + 1 < h.count ∧ key (h.arr (2 * i + 1)) < key (h.arr i) then
      2 * i + 1
    else i
  if 2 * i + 2 < h.count ∧ key (h.arr (2 * i + 2)) < key (h.arr left) then
    2 * i + 2
  else left

/-- Let the element of a cell sink past children with a smaller key. -/
def siftDown : Nat → IndexedHeap α → Nat → IndexedHeap α
  | 0, h, _ => h
  | fuel + 1, h, i =>
    if smallest key h i = i then h
    else siftDown fuel (h.swap i (smallest key h i)) (smallest key h i)

/-- Add an element at the end and let it rise. -/
def push (h : IndexedHeap α) (a : α) : IndexedHeap α :=
  siftUp key h.count ({ h with count := h.count + 1 }.place h.count a) h.count

/-- Let the element of a cell rise or sink. -/
def settle (h : IndexedHeap α) (i : Nat) : IndexedHeap α :=
  if 0 < i ∧ key (h.arr i) < key (h.arr ((i - 1) / 2)) then siftUp key i h i
  else siftDown key h.count h i

/-- Take the element of a cell out; the last one fills the hole. -/
def removeAt (h : IndexedHeap α) (i : Nat) : IndexedHeap α :=
  if h.count ≤ i then h
  else
    let h' : IndexedHeap α :=
      { h with
        pos := Function.update h.pos (h.arr i) none
        count := h.count - 1 }
    if i = h'.count then h'
    else settle key (h'.place i (h'.arr h'.count)) i

/-! ### Positions -/

/-- The cells and the positions agree. -/
structure Indexed (h : IndexedHeap α) : Prop where
  cell : ∀ i, i < h.count → h.pos (h.arr i) = some i
  back : ∀ a i, h.pos a = some i → i < h.count ∧ h.arr i = a

omit [DecidableEq α] in
theorem Indexed.inj {h : IndexedHeap α} (ok : Indexed h) {i j : Nat} (hi : i < h.count)
    (hj : j < h.count) (same : h.arr i = h.arr j) : i = j := by
  have first := ok.cell i hi
  rw [same, ok.cell j hj] at first
  exact (Option.some.inj first).symm

/-- The same elements are in two heaps. -/
structure Same (h h' : IndexedHeap α) : Prop where
  count : h'.count = h.count
  isSome : ∀ a, (h'.pos a).isSome = (h.pos a).isSome

omit [DecidableEq α] in
theorem Same.refl (h : IndexedHeap α) : Same h h := ⟨rfl, fun _ => rfl⟩

omit [DecidableEq α] in
theorem Same.trans {h₁ h₂ h₃ : IndexedHeap α} (one : Same h₁ h₂) (two : Same h₂ h₃) : Same h₁ h₃ :=
  ⟨two.count.trans one.count, fun a => (two.isSome a).trans (one.isSome a)⟩

section Swap

variable {h : IndexedHeap α} {i j : Nat}

@[simp] theorem swap_count : (h.swap i j).count = h.count := rfl

theorem swap_arr (k : Nat) : (h.swap i j).arr k =
    if k = j then h.arr i else if k = i then h.arr j else h.arr k := by
  simp only [swap, place, update_apply]

theorem swap_pos (a : α) : (h.swap i j).pos a =
    if a = h.arr i then some j else if a = h.arr j then some i else h.pos a := by
  simp only [swap, place, update_apply]

theorem Indexed.swap (ok : Indexed h) (hi : i < h.count) (hj : j < h.count)
    (different : i ≠ j) : Indexed (h.swap i j) ∧ Same h (h.swap i j) := by
  have apart : h.arr i ≠ h.arr j := fun same => different (ok.inj hi hj same)
  refine ⟨⟨?_, ?_⟩, rfl, ?_⟩
  · intro k hk
    rw [swap_arr, swap_pos]
    by_cases isJ : k = j
    · simp [isJ]
    by_cases isI : k = i
    · subst isI
      simp [isJ, Ne.symm apart]
    · have notI : h.arr k ≠ h.arr i := fun same => isI (ok.inj hk hi same)
      have notJ : h.arr k ≠ h.arr j := fun same => isJ (ok.inj hk hj same)
      simp [isI, isJ, notI, notJ, ok.cell k hk]
  · intro a k found
    rw [swap_pos] at found
    rw [swap_arr]
    split at found
    · next same =>
        cases found
        simp [hj, same]
    next notI =>
      split at found
      · next same =>
          cases found
          simp [hi, different, same]
      next notJ =>
        obtain ⟨hk, same⟩ := ok.back a k found
        have kNotJ : k ≠ j := by
          rintro rfl
          exact notJ same.symm
        have kNotI : k ≠ i := by
          rintro rfl
          exact notI same.symm
        simp [hk, kNotI, kNotJ, same]
  · intro a
    rw [swap_pos]
    split
    · next same => simp [same, ok.cell i hi]
    split
    · next same => simp [same, ok.cell j hj]
    · rfl

end Swap

/-! ### Order -/

variable {key}

/-- No element has a smaller key than its parent. -/
def Ordered (key : α → Nat) (h : IndexedHeap α) : Prop :=
  ∀ i, 0 < i → i < h.count → key (h.arr ((i - 1) / 2)) ≤ key (h.arr i)

/-- Only the element of cell `i` may have a smaller key than its parent. -/
structure MayRise (key : α → Nat) (h : IndexedHeap α) (i : Nat) : Prop where
  others : ∀ j, 0 < j → j < h.count → j ≠ i → key (h.arr ((j - 1) / 2)) ≤ key (h.arr j)
  grand : ∀ j, 0 < j → j < h.count → (j - 1) / 2 = i → 0 < i →
    key (h.arr ((i - 1) / 2)) ≤ key (h.arr j)

/-- Only the element of cell `i` may have a larger key than its children. -/
structure MaySink (key : α → Nat) (h : IndexedHeap α) (i : Nat) : Prop where
  others : ∀ j, 0 < j → j < h.count → (j - 1) / 2 ≠ i → key (h.arr ((j - 1) / 2)) ≤ key (h.arr j)
  grand : ∀ j, 0 < j → j < h.count → (j - 1) / 2 = i → 0 < i →
    key (h.arr ((i - 1) / 2)) ≤ key (h.arr j)

section Sift

variable {h : IndexedHeap α} {i : Nat}

theorem MayRise.step (rise : MayRise key h i) (notRoot : i ≠ 0) (inside : i < h.count)
    (smaller : key (h.arr i) < key (h.arr ((i - 1) / 2))) :
    MayRise key (h.swap i ((i - 1) / 2)) ((i - 1) / 2) := by
  constructor
  · intro j pos bound notParent
    rw [swap_arr, swap_arr, if_neg notParent]
    by_cases here : j = i
    · subst here
      simp only [if_true]
      exact Nat.le_of_lt smaller
    rw [if_neg here]
    by_cases below : (j - 1) / 2 = (i - 1) / 2
    · rw [if_pos below]
      have old := rise.others j pos bound here
      rw [below] at old
      omega
    · rw [if_neg below]
      by_cases child : (j - 1) / 2 = i
      · rw [if_pos child]
        exact rise.grand j pos bound child (Nat.pos_of_ne_zero notRoot)
      · rw [if_neg child]
        exact rise.others j pos bound here
  · intro j pos bound child notTop
    have parentOk := rise.others ((i - 1) / 2) notTop (by omega) (by omega)
    rw [swap_arr, swap_arr, if_neg (by omega), if_neg (by omega),
      if_neg (show ¬ j = (i - 1) / 2 by omega)]
    by_cases here : j = i
    · rw [if_pos here]
      exact parentOk
    · rw [if_neg here]
      have old := rise.others j pos bound here
      rw [child] at old
      omega

theorem siftUp_spec (fuel : Nat) (ok : Indexed h) (rise : MayRise key h i)
    (inside : i < h.count) (enough : i ≤ fuel) : Indexed (siftUp key fuel h i) ∧
    Same h (siftUp key fuel h i) ∧ Ordered key (siftUp key fuel h i) := by
  induction fuel generalizing h i with
  | zero =>
    refine ⟨ok, .refl h, ?_⟩
    intro j pos bound
    exact rise.others j pos bound (by omega)
  | succ _ ih =>
    rw [siftUp]
    by_cases root : i = 0
    · rw [if_pos root]
      refine ⟨ok, .refl h, ?_⟩
      intro j pos bound
      exact rise.others j pos bound (by omega)
    rw [if_neg root]
    by_cases fine : key (h.arr ((i - 1) / 2)) ≤ key (h.arr i)
    · rw [if_pos fine]
      refine ⟨ok, .refl h, ?_⟩
      intro j pos bound
      by_cases here : j = i
      · rw [here]
        exact fine
      · exact rise.others j pos bound here
    · rw [if_neg fine]
      obtain ⟨swapped, same⟩ := ok.swap (i := i) (j := (i - 1) / 2) inside (by omega) (by omega)
      have next := rise.step root inside (Nat.lt_of_not_le fine)
      obtain ⟨ok', same', ordered⟩ := ih swapped next (by rw [swap_count]; omega) (by omega)
      exact ⟨ok', same.trans same', ordered⟩

omit [DecidableEq α] in
theorem smallest_spec (key : α → Nat) (h : IndexedHeap α) (i : Nat) :
    (smallest key h i = i ∨ smallest key h i < h.count ∧ (smallest key h i - 1) / 2 = i ∧
        i < smallest key h i ∧ key (h.arr (smallest key h i)) < key (h.arr i)) ∧ ∀ j, 0 < j →
    j < h.count → (j - 1) / 2 = i → key (h.arr (smallest key h i)) ≤ key (h.arr j) := by
  have children : ∀ j, 0 < j → (j - 1) / 2 = i → j = 2 * i + 1 ∨ j = 2 * i + 2 := by
    intro j pos child
    omega
  unfold smallest
  dsimp only
  split <;> split
  all_goals
    refine ⟨by omega, ?_⟩
    intro j pos bound child
    rcases children j pos child with rfl | rfl
  all_goals omega

theorem MaySink.step (sink : MaySink key h i) {c : Nat} (inside : c < h.count)
    (child : (c - 1) / 2 = i) (later : i < c)
    (least : ∀ j, 0 < j → j < h.count → (j - 1) / 2 = i → key (h.arr c) ≤ key (h.arr j))
    (smaller : key (h.arr c) < key (h.arr i)) : MaySink key (h.swap i c) c := by
  constructor
  · intro j pos bound notChild
    rw [swap_arr, swap_arr, if_neg notChild]
    by_cases below : (j - 1) / 2 = i
    · rw [if_pos below]
      by_cases here : j = c
      · rw [if_pos here]
        exact Nat.le_of_lt smaller
      · rw [if_neg here, if_neg (by omega)]
        exact least j pos bound below
    · rw [if_neg below]
      by_cases isC : j = c
      · omega
      rw [if_neg isC]
      by_cases here : j = i
      · rw [if_pos here]
        subst here
        exact sink.grand c (by omega) inside child pos
      · rw [if_neg here]
        exact sink.others j pos bound below
  · intro j pos bound under _
    rw [swap_arr, swap_arr, child, if_neg (by omega), if_pos rfl,
      if_neg (show ¬ j = c by omega), if_neg (show ¬ j = i by omega)]
    have old := sink.others j pos bound (by omega)
    rwa [under] at old

theorem siftDown_spec {fuel : Nat} (ok : Indexed h) (sink : MaySink key h i)
    (inside : i < h.count) (enough : h.count ≤ fuel + i) : Indexed (siftDown key fuel h i) ∧
    Same h (siftDown key fuel h i) ∧ Ordered key (siftDown key fuel h i) := by
  induction fuel generalizing h i with
  | zero => omega
  | succ _ ih =>
    obtain ⟨which, least⟩ := smallest_spec key h i
    rw [siftDown]
    by_cases fine : smallest key h i = i
    · rw [if_pos fine]
      refine ⟨ok, .refl h, ?_⟩
      intro j pos bound
      by_cases child : (j - 1) / 2 = i
      · have old := least j pos bound child
        rwa [fine, ← child] at old
      · exact sink.others j pos bound child
    · rw [if_neg fine]
      obtain ⟨bound, child, later, smaller⟩ := which.resolve_left fine
      obtain ⟨swapped, same⟩ := ok.swap inside bound (Nat.ne_of_lt later)
      have next := sink.step bound child later least smaller
      obtain ⟨ok', same', ordered⟩ := ih swapped next
        (by rwa [swap_count]) (by rw [swap_count]; omega)
      exact ⟨ok', same.trans same', ordered⟩

end Sift

/-! ### Insertion and removal -/

section Operations

variable {h : IndexedHeap α} {a : α} {i : Nat}

omit [DecidableEq α] in
theorem Ordered.least (ordered : Ordered key h) :
    ∀ i, i < h.count → key (h.arr 0) ≤ key (h.arr i) := by
  intro i
  induction i using Nat.strongRecOn with
  | ind i ih =>
    intro bound
    rcases Nat.eq_zero_or_pos i with rfl | pos
    · exact Nat.le_refl _
    · exact Nat.le_trans (ih ((i - 1) / 2) (by omega) (by omega)) (ordered i pos bound)

theorem push_spec (ok : Indexed h) (ordered : Ordered key h) (absent : h.pos a = none) :
    Indexed (push key h a) ∧ Ordered key (push key h a) ∧ (push key h a).count = h.count + 1 ∧
      ∀ b, ((push key h a).pos b).isSome = (decide (b = a) || (h.pos b).isSome) := by
  have other : ∀ j, j < h.count → h.arr j ≠ a := by
    intro j bound same
    have found := ok.cell j bound
    rw [same, absent] at found
    cases found
  have placed : Indexed ({ h with count := h.count + 1 }.place h.count a) := by
    constructor
    · intro j bound
      have bound' : j < h.count + 1 := bound
      simp only [place]
      by_cases here : j = h.count
      · simp [here]
      have inside : j < h.count := by omega
      rw [update_of_ne here, update_of_ne (other j inside)]
      exact ok.cell j inside
    · intro b j found
      simp only [place] at found ⊢
      by_cases same : b = a
      · subst same
        rw [update_self] at found
        cases found
        simp
      · rw [update_of_ne same] at found
        obtain ⟨bound, here⟩ := ok.back b j found
        rw [update_of_ne (Nat.ne_of_lt bound)]
        exact ⟨Nat.lt_succ_of_lt bound, here⟩
  have rise : MayRise key ({ h with count := h.count + 1 }.place h.count a) h.count := by
    constructor
    · intro j pos bound notLast
      have bound' : j < h.count + 1 := bound
      simp only [place]
      rw [update_of_ne (by omega), update_of_ne notLast]
      exact ordered j pos (by omega)
    · intro j pos bound child
      have bound' : j < h.count + 1 := bound
      omega
  obtain ⟨ok', same, ordered'⟩ := siftUp_spec h.count placed rise
    (Nat.lt_succ_self _) (Nat.le_refl _)
  refine ⟨ok', ordered', same.count, ?_⟩
  intro b
  rw [push, same.isSome]
  simp only [place, update_apply]
  by_cases here : b = a <;> simp [here]

theorem settle_spec (ok : Indexed h) (inside : i < h.count) (others : ∀ j, 0 < j → j < h.count →
    j ≠ i → (j - 1) / 2 ≠ i → key (h.arr ((j - 1) / 2)) ≤ key (h.arr j)) (grand : ∀ j, 0 < j →
    j < h.count → (j - 1) / 2 = i → 0 < i → key (h.arr ((i - 1) / 2)) ≤ key (h.arr j)) :
    Indexed (settle key h i) ∧ Same h (settle key h i) ∧ Ordered key (settle key h i) := by
  unfold settle
  split
  · next rises =>
      refine siftUp_spec _ ok ⟨?_, grand⟩ inside (Nat.le_refl _)
      intro j pos bound notHere
      by_cases child : (j - 1) / 2 = i
      · have above := grand j pos bound child rises.1
        rw [child]
        omega
      · exact others j pos bound notHere child
  · next stays =>
      refine siftDown_spec ok ⟨?_, grand⟩ inside (Nat.le_add_right _ _)
      intro j pos bound notChild
      by_cases here : j = i
      · subst here
        omega
      · exact others j pos bound here notChild

/-- A heap and the elements in it after one is taken out. -/
theorem removeAt_spec (ok : Indexed h) (ordered : Ordered key h) (inside : i < h.count) : Indexed
    (removeAt key h i) ∧ Ordered key (removeAt key h i) ∧ (removeAt key h i).count = h.count - 1 ∧
      ∀ b, ((removeAt key h i).pos b).isSome = (!decide (b = h.arr i) && (h.pos b).isSome) := by
  have kept : ∀ b, ((Function.update h.pos (h.arr i) none) b).isSome =
      (!decide (b = h.arr i) && (h.pos b).isSome) := by
    intro b
    by_cases same : b = h.arr i <;> simp [same]
  rw [removeAt, if_neg (Nat.not_le.mpr inside)]
  by_cases last : i = h.count - 1
  · rw [if_pos last]
    refine ⟨⟨?_, ?_⟩, ?_, rfl, kept⟩
    · intro j bound
      have bound' : j < h.count - 1 := bound
      have apart : h.arr j ≠ h.arr i := fun same => by
        have := ok.inj (by omega) inside same
        omega
      simp only
      rw [update_of_ne apart]
      exact ok.cell j (by omega)
    · intro b j found
      simp only at found ⊢
      have apart : b ≠ h.arr i := by
        rintro rfl
        rw [update_self] at found
        cases found
      rw [update_of_ne apart] at found
      obtain ⟨bound, here⟩ := ok.back b j found
      refine ⟨?_, here⟩
      have notLast : j ≠ i := by
        rintro rfl
        exact apart here.symm
      omega
    · intro j pos bound
      have bound' : j < h.count - 1 := bound
      exact ordered j pos (by omega)
  · rw [if_neg last]
    have lastApart : h.arr (h.count - 1) ≠ h.arr i := fun same => by
      have := ok.inj (by omega) inside same
      omega
    generalize placedEq : IndexedHeap.place
      { h with pos := Function.update h.pos (h.arr i) none,
               count := h.count - 1 } i (h.arr (h.count - 1)) = h'
    have count : h'.count = h.count - 1 := by rw [← placedEq]; rfl
    have arr : ∀ j, h'.arr j = if j = i then h.arr (h.count - 1) else h.arr j := by
      intro j
      rw [← placedEq]
      simp only [place, update_apply]
    have pos : ∀ b, h'.pos b = if b = h.arr (h.count - 1) then some i
        else if b = h.arr i then none else h.pos b := by
      intro b
      rw [← placedEq]
      simp only [place, update_apply]
    have ok' : Indexed h' := by
      constructor
      · intro j bound
        rw [arr, pos]
        by_cases here : j = i
        · simp [here]
        have notLast : h.arr j ≠ h.arr (h.count - 1) := fun same => by
          have := ok.inj (by omega) (by omega) same
          omega
        have notHere : h.arr j ≠ h.arr i := fun same => here (ok.inj (by omega) inside same)
        simp [here, notLast, notHere, ok.cell j (by omega)]
      · intro b j found
        rw [pos] at found
        rw [count, arr]
        split at found
        · next same =>
            cases found
            refine ⟨by omega, ?_⟩
            simp [same]
        next notLast =>
          split at found
          · cases found
          next notHere =>
            obtain ⟨bound, here⟩ := ok.back b j found
            have jNot : j ≠ i := by
              rintro rfl
              exact notHere here.symm
            have jNotLast : j ≠ h.count - 1 := by
              rintro rfl
              exact notLast here.symm
            exact ⟨by omega, by simp [jNot, here]⟩
    obtain ⟨settled, same, ordered'⟩ : Indexed (settle key h' i) ∧
        Same h' (settle key h' i) ∧ Ordered key (settle key h' i) :=
      settle_spec ok' (by omega)
      (by
        intro j pos' bound notHere notChild
        rw [arr, arr, if_neg notHere, if_neg notChild]
        exact ordered j pos' (by omega))
      (by
        intro j pos' bound child notTop
        have first := ordered i notTop inside
        have second := ordered j pos' (by omega)
        rw [child] at second
        rw [arr, arr, if_neg (by omega), if_neg (by omega)]
        omega)
    refine ⟨settled, ordered', same.count.trans count, ?_⟩
    intro b
    rw [same.isSome, pos]
    by_cases isLast : b = h.arr (h.count - 1)
    · subst isLast
      simp [lastApart, ok.cell (h.count - 1) (by omega)]
    · rw [if_neg isLast]
      by_cases here : b = h.arr i <;> simp [here]

end Operations

end IndexedHeap

end MainDob.Lib
