/-
Purpose: What holds of the region list after every sequence of calls that wrap
  no address: the pointers describe one list, sorted and disjoint, the counters
  are its sums, the searches find what is there, and a new region goes where it
  fits.
Main exports: Tracks, Laid, region_list
-/
import Mathlib.Data.List.Perm.Subperm
import MainDob.Kernel.Vregion
import MainDob.Lib.Dlist

namespace MainDob.Kernel.Regions

open Function (update update_of_ne update_apply)
open Lib
open List

/-! ### The list behind the pointers -/

/-- The successor pointers. -/
def Space.nextOf (s : Space) (p : Nat) : Option Nat := (s.nodes p).next

/-- The predecessor pointers. -/
def Space.prevOf (s : Space) (p : Nat) : Option Nat := (s.nodes p).prev

/-- A node without its pointers. -/
def Vregion.bare (n : Vregion) : Vregion := { n with next := none, prev := none }

/-- The regions of some nodes. -/
def Space.regionsAt (s : Space) (ids : List Nat) : List Vregion :=
  ids.map fun p => (s.nodes p).bare

/-- The pointers describe the list `ids` of allocated nodes. -/
structure Tracks (s : Space) (ids : List Nat) : Prop where
  links : IsDlist s.nextOf s.prevOf s.vl.head s.vl.tail ids
  distinct : ids.Nodup
  alive : ∀ p ∈ ids, p ∈ s.live
  once : s.live.Nodup

section Pointers

variable {s : Space} {ids front back : List Nat} {n p : Nat}

@[simp] theorem bare_base (r : Vregion) : r.bare.base = r.base := rfl

@[simp] theorem bare_pages (r : Vregion) : r.bare.pages = r.pages := rfl

@[simp] theorem bare_fin (r : Vregion) : r.bare.fin = r.fin := rfl

@[simp] theorem bare_devicePages (r : Vregion) :
    r.bare.devicePages = r.devicePages := rfl

section

variable (s)

@[simp] theorem set_nodes (p : Nat) (r : Vregion) :
    (s.set p r).nodes = update s.nodes p r := rfl

@[simp] theorem set_vl (p : Nat) (r : Vregion) :
    (s.set p r).vl = s.vl := rfl

theorem freeNode_nodes (p : Nat) :
    (freeNode s p).nodes = s.nodes := rfl

theorem freeNode_nextOf (p : Nat) :
    (freeNode s p).nextOf = s.nextOf := rfl

theorem freeNode_prevOf (p : Nat) :
    (freeNode s p).prevOf = s.prevOf := rfl

theorem freeNode_vl (p : Nat) : (freeNode s p).vl = s.vl := rfl

theorem freeNode_live (p : Nat) :
    (freeNode s p).live = s.live.erase p := rfl

end

theorem Tracks.reach (tracks : Tracks s ids) : ids.length < s.reach :=
  Nat.lt_succ_of_le (subperm_of_subset tracks.distinct tracks.alive).length_le

variable {prev next : Option Nat}

theorem linkBetween_nodes (notPrev : prev ≠ some n) (notNext : next ≠ some n) (b : Nat) :
    (linkBetween s n prev next).nodes b = { s.nodes b with
        next := if prev = some b then some n else
          if b = n then next else (s.nodes b).next
        prev := if next = some b then some n else
          if b = n then prev else (s.nodes b).prev } := by
  cases prev <;> cases next <;>
    simp only [linkBetween, set_nodes, update_apply, Option.some.injEq, reduceCtorEq, if_false] at *
  all_goals
    ext
    all_goals grind

theorem linkBetween_live : (linkBetween s n prev next).live = s.live := by
  cases prev <;> cases next <;> rfl

theorem linkBetween_vl (notPrev : prev ≠ some n) (notNext : next ≠ some n) :
    (linkBetween s n prev next).vl =
      { head := if prev = none then some n else s.vl.head
        tail := if next = none then some n else s.vl.tail
        count := add32 s.vl.count 1
        totalPages := add32 s.vl.totalPages (s.nodes n).pages
        devicePages :=
          if (s.nodes n).has vregDevice then
            add32 s.vl.devicePages (s.nodes n).pages
          else s.vl.devicePages } := by
  cases prev <;> cases next <;>
    simp only [linkBetween, set_nodes, set_vl, update_apply, reduceCtorEq, if_false, if_true] at *
  all_goals grind [Vregion.has]

theorem linkBetween_tracks (tracks : Tracks s (front ++ back))
    (absent : n ∉ front ++ back) (alive : n ∈ s.live) :
    Tracks (linkBetween s n front.getLast? back.head?) (front ++ n :: back) := by
  have notPrev : front.getLast? ≠ some n := fun last =>
    absent (mem_append_left _ (mem_of_getLast? last))
  have notNext : back.head? ≠ some n := fun first =>
    absent (mem_append_right _ (mem_of_head? first))
  have nodes := linkBetween_nodes (s := s) notPrev notNext
  have vl := linkBetween_vl (s := s) notPrev notNext
  constructor
  case links =>
    rw [vl]
    refine tracks.links.insert tracks.distinct ?_ ?_ ?_ ?_ ?_ ?_ ?_ ?_
    · simp [Space.nextOf, nodes, notPrev]
    · simp [Space.prevOf, nodes, notNext]
    · intro p last
      simp only [Space.nextOf, nodes]
      exact if_pos last
    · intro q first
      simp only [Space.prevOf, nodes]
      exact if_pos first
    · intro b member other
      have different : b ≠ n := fun same => absent (same ▸ member)
      simp [Space.nextOf, nodes, other, different]
    · intro b member other
      have different : b ≠ n := fun same => absent (same ▸ member)
      simp [Space.prevOf, nodes, other, different]
    · simp
    · simp
  case distinct =>
    rw [nodup_middle, nodup_cons]
    exact ⟨absent, tracks.distinct⟩
  case alive =>
    rw [linkBetween_live]
    intro p member
    rcases mem_append.mp member with inFront | inBack
    · exact tracks.alive p (mem_append_left _ inFront)
    rcases mem_cons.mp inBack with rfl | inBack
    · exact alive
    · exact tracks.alive p (mem_append_right _ inBack)
  case once =>
    rw [linkBetween_live]
    exact tracks.once

theorem unlinkNode_nodes (notPrev : (s.nodes n).prev ≠ some n) (b : Nat) :
    (unlinkNode s n).nodes b = { s.nodes b with
        next := if (s.nodes n).prev = some b then (s.nodes n).next else (s.nodes b).next
        prev := if (s.nodes n).next = some b then (s.nodes n).prev else (s.nodes b).prev } := by
  cases before : (s.nodes n).prev with
  | none =>
    cases after : (s.nodes n).next <;>
      simp only [unlinkNode, before, after, set_nodes, update_apply]
    all_goals
      ext
      all_goals grind
  | some p =>
    have other : n ≠ p := fun same => notPrev (by rw [before, same])
    cases after : (s.nodes n).next <;>
      simp only [unlinkNode, before, after, set_nodes, update_of_ne other] <;>
    all_goals
      ext
      all_goals grind

theorem unlinkNode_live : (unlinkNode s n).live = s.live := by
  unfold unlinkNode
  dsimp only
  split <;> split <;> rfl

theorem unlinkNode_vl (notPrev : (s.nodes n).prev ≠ some n) (notNext : (s.nodes n).next ≠ some n) :
    (unlinkNode s n).vl =
      { head := if (s.nodes n).prev = none then (s.nodes n).next
          else s.vl.head
        tail := if (s.nodes n).next = none then (s.nodes n).prev else s.vl.tail
        count := sub32 s.vl.count 1
        totalPages := sub32 s.vl.totalPages (s.nodes n).pages
        devicePages :=
          if (s.nodes n).has vregDevice then
            sub32 s.vl.devicePages (s.nodes n).pages
          else s.vl.devicePages } := by
  cases before : (s.nodes n).prev with
  | none =>
    cases after : (s.nodes n).next with
    | none => simp [unlinkNode, before, after]
    | some q =>
      have other : n ≠ q := fun same => notNext (by rw [after, same])
      simp [unlinkNode, before, after, update_of_ne other]
  | some p =>
    have other : n ≠ p := fun same => notPrev (by rw [before, same])
    cases after : (s.nodes n).next with
    | none => simp [unlinkNode, before, after, update_of_ne other]
    | some q =>
      have others : n ≠ q := fun same => notNext (by rw [after, same])
      simp [unlinkNode, before, after, update_of_ne other, update_of_ne others]

theorem Tracks.apart (tracks : Tracks s (front ++ n :: back)) : (s.nodes n).prev = front.getLast? ∧
    (s.nodes n).next = back.head? ∧ front.getLast? ≠ some n ∧ back.head? ≠ some n := by
  have distinct := nodup_append.mp tracks.distinct
  refine ⟨tracks.links.predecessor, tracks.links.successor, ?_, ?_⟩
  · intro last
    exact distinct.2.2 n (mem_of_getLast? last) n (by simp) rfl
  · intro first
    exact (nodup_cons.mp distinct.2.1).1 (mem_of_head? first)

theorem unlinkNode_tracks (tracks : Tracks s (front ++ n :: back)) :
    Tracks (freeNode (unlinkNode s n) n) (front ++ back) := by
  obtain ⟨prev, next, notPrev, notNext⟩ := tracks.apart
  have nodes := unlinkNode_nodes (s := s) (n := n) (by rwa [prev])
  have vl := unlinkNode_vl (s := s) (n := n) (by rwa [prev]) (by rwa [next])
  have apart : n ∉ front ++ back ∧ (front ++ back).Nodup := by
    have distinct := tracks.distinct
    rwa [nodup_middle, nodup_cons] at distinct
  constructor
  case links =>
    rw [freeNode_nextOf, freeNode_prevOf, freeNode_vl, vl]
    refine tracks.links.remove tracks.distinct ?_ ?_ ?_ ?_ ?_ ?_
    · intro p last
      simp only [Space.nextOf, nodes]
      exact if_pos (prev.trans last)
    · intro q first
      simp only [Space.prevOf, nodes]
      exact if_pos (next.trans first)
    · intro b member other
      simp only [Space.nextOf, nodes]
      exact if_neg (by rwa [prev])
    · intro b member other
      simp only [Space.prevOf, nodes]
      exact if_neg (by rwa [next])
    · simp [prev, next]
    · simp [prev, next]
  case distinct => exact apart.2
  case alive =>
    intro p member
    rw [freeNode_live, unlinkNode_live]
    have different : p ≠ n := fun same => apart.1 (same ▸ member)
    rw [mem_erase_of_ne different]
    refine tracks.alive p ?_
    rcases mem_append.mp member with inFront | inBack
    · exact mem_append_left _ inFront
    · exact mem_append_right _ (mem_cons_of_mem _ inBack)
  case once =>
    rw [freeNode_live, unlinkNode_live]
    exact tracks.once.erase n

theorem unlinkNode_bare (notPrev : (s.nodes n).prev ≠ some n) (b : Nat) :
    ((unlinkNode s n).nodes b).bare = (s.nodes b).bare := by
  rw [unlinkNode_nodes notPrev]
  rfl

theorem linkBetween_bare (notPrev : prev ≠ some n) (notNext : next ≠ some n) (b : Nat) :
    ((linkBetween s n prev next).nodes b).bare = (s.nodes b).bare := by
  rw [linkBetween_nodes notPrev notNext]
  rfl

end Pointers

/-! ### Sorted and disjoint regions -/

/-- The address after the last page of a region. -/
def Vregion.stop (r : Vregion) : Nat := r.base + r.pages * pageSize

/-- A region of whole pages that ends inside the address space. -/
structure Vregion.Sane (r : Vregion) : Prop where
  aligned : r.base % pageSize = 0
  least : 0 < r.pages
  inside : r.stop < wordSize

/-- Every region ends before the next ones begin. -/
structure Laid (regions : List Vregion) : Prop where
  sane : ∀ r ∈ regions, r.Sane
  sorted : regions.Pairwise fun r q => r.stop ≤ q.base

/-- The range `[base, fin)` shares an address with the region. -/
def Vregion.Overlaps (r : Vregion) (base fin : Nat) : Prop :=
  base < r.stop ∧ r.base < fin

section Layout

variable {r : Vregion} {regions front back : List Vregion}

@[simp] theorem bare_stop (r : Vregion) : r.bare.stop = r.stop := rfl

theorem Vregion.fin_eq (inside : r.stop < wordSize) : r.fin = r.stop := by
  have small : r.pages * pageSize < wordSize := lt_of_le_of_lt (Nat.le_add_left _ _) inside
  rw [Vregion.fin, mul32, Nat.mod_eq_of_lt small]
  exact Nat.mod_eq_of_lt inside

theorem Vregion.Sane.fin_eq (sane : r.Sane) : r.fin = r.stop := Vregion.fin_eq sane.inside

theorem Vregion.Sane.base_lt (sane : r.Sane) : r.base < r.stop :=
  Nat.lt_add_of_pos_right (Nat.mul_pos sane.least (by decide))

theorem Laid.tail (laid : Laid (r :: regions)) : Laid regions where
  sane q member := laid.sane q (mem_cons_of_mem r member)
  sorted := (pairwise_cons.mp laid.sorted).2

theorem Laid.after (laid : Laid (r :: regions)) : ∀ q ∈ regions, r.stop ≤ q.base :=
  (pairwise_cons.mp laid.sorted).1

theorem Laid.room (laid : Laid regions) {low : Nat} (small : low ≤ wordSize)
    (above : ∀ r ∈ regions, low ≤ r.base) :
    low + (regions.map Vregion.pages).sum * pageSize ≤ wordSize := by
  induction regions generalizing low with
  | nil => simpa using small
  | cons r _ ih =>
    have first := above r mem_cons_self
    have sane := laid.sane r mem_cons_self
    have others := ih laid.tail (le_of_lt sane.inside) laid.after
    simp only [Vregion.stop] at others
    rw [map_cons, List.sum_cons, add_mul]
    omega

theorem Laid.counts (laid : Laid regions) : regions.length ≤ (regions.map Vregion.pages).sum ∧
    (regions.map Vregion.devicePages).sum ≤ (regions.map Vregion.pages).sum := by
  induction regions with
  | nil => simp
  | cons r _ ih =>
    have least := (laid.sane r mem_cons_self).least
    have others := ih laid.tail
    have device : r.devicePages ≤ r.pages := by
      unfold Vregion.devicePages
      split <;> omega
    simp only [length_cons, map_cons, List.sum_cons]
    omega

theorem Laid.sum_lt (laid : Laid regions) : (regions.map Vregion.pages).sum < wordSize := by
  have room := laid.room (Nat.zero_le _) fun r _ => Nat.zero_le _
  simp only [pageSize, wordSize] at *
  omega

theorem Laid.insert (laid : Laid (front ++ back)) (sane : r.Sane)
    (before : ∀ q ∈ front, q.stop ≤ r.base)
    (after : ∀ q ∈ back, r.stop ≤ q.base) : Laid (front ++ r :: back) := by
  have sorted := pairwise_append.mp laid.sorted
  constructor
  · intro q member
    rcases mem_append.mp member with inFront | inBack
    · exact laid.sane q (mem_append_left _ inFront)
    rcases mem_cons.mp inBack with rfl | inBack
    · exact sane
    · exact laid.sane q (mem_append_right _ inBack)
  · rw [pairwise_append, pairwise_cons]
    refine ⟨sorted.1, ⟨after, sorted.2.1⟩, ?_⟩
    intro q inFront p inBack
    rcases mem_cons.mp inBack with rfl | inBack
    · exact before q inFront
    · exact sorted.2.2 q inFront p inBack

theorem Laid.remove (laid : Laid (front ++ r :: back)) : Laid (front ++ back) := by
  have kept : (front ++ back).Sublist (front ++ r :: back) :=
    (sublist_cons_self r back).append_left front
  exact ⟨fun q member => laid.sane q (kept.subset member), laid.sorted.sublist kept⟩

end Layout

/-! ### The walks -/

section Walks

variable {nodes : Nat → Vregion} {back : List Nat} {fuel : Nat}

/-- The regions of the nodes ahead of a walk. -/
abbrev ahead (nodes : Nat → Vregion) (back : List Nat) : List Vregion :=
  back.map fun p => (nodes p).bare

theorem seg_head {cur : Nat} {rest : List Nat}
    (links : Seg (fun p => (nodes p).next) (cur :: rest) none) : (nodes cur).next = rest.head? := by
  have link := links.1
  rwa [Option.or_none] at link

theorem mem_ahead {p : Nat} (member : p ∈ back) : (nodes p).bare ∈ ahead nodes back :=
  mem_map_of_mem member

theorem findExactWalk_spec (base : Nat) (links : Seg (fun p => (nodes p).next) back none)
    (laid : Laid (ahead nodes back)) (enough : back.length < fuel) :
    findExactWalk nodes base fuel back.head? =
      some (back.find? fun p => (nodes p).base == base) := by
  induction back generalizing fuel with
  | nil =>
    cases fuel with
    | zero => cases enough
    | succ => rfl
  | cons cur rest ih =>
    cases fuel with
    | zero => cases enough
    | succ =>
      rw [List.head?_cons, findExactWalk, List.find?_cons]
      by_cases found : (nodes cur).base = base
      · rw [if_pos found, beq_iff_eq.mpr found]
      rw [if_neg found, beq_eq_false_iff_ne.mpr found]
      split
      · next past =>
          -- the bases only grow from here on
          have none' : rest.find? (fun p => (nodes p).base == base) = none := by
            rw [List.find?_eq_none]
            intro q member same
            have sane := laid.sane _ mem_cons_self
            have after := laid.after _ (mem_ahead member)
            have grows := sane.base_lt
            simp only [bare_stop, bare_base, beq_iff_eq] at *
            omega
          rw [none']
      · rw [seg_head links]
        exact ih links.2 laid.tail (Nat.lt_of_succ_lt_succ enough)

theorem findWalk_spec (addr : Nat) (links : Seg (fun p => (nodes p).next) back none) (laid : Laid
    (ahead nodes back)) (enough : back.length < fuel) : findWalk nodes addr fuel back.head? = some
    (back.find? fun p => decide ((nodes p).base ≤ addr ∧ addr < (nodes p).stop)) := by
  induction back generalizing fuel with
  | nil =>
    cases fuel with
    | zero => cases enough
    | succ => rfl
  | cons cur rest ih =>
    cases fuel with
    | zero => cases enough
    | succ =>
      have sane := laid.sane _ mem_cons_self
      have grows := sane.base_lt
      have fin := sane.fin_eq
      simp only [bare_stop, bare_base, bare_fin] at grows fin
      rw [List.head?_cons, findWalk, List.find?_cons, fin]
      by_cases before : addr < (nodes cur).base
      · rw [if_pos before, decide_eq_false (by omega)]
        have none' : rest.find? (fun p => decide ((nodes p).base ≤ addr ∧
            addr < (nodes p).stop)) = none := by
          rw [List.find?_eq_none]
          intro q member inside
          have after := laid.after _ (mem_ahead member)
          simp only [bare_stop, bare_base, decide_eq_true_eq] at *
          omega
        rw [none']
      · rw [if_neg before]
        by_cases inside : addr < (nodes cur).stop
        · rw [if_pos inside, decide_eq_true (by omega)]
        · rw [if_neg inside, decide_eq_false (by omega), seg_head links]
          exact ih links.2 laid.tail (Nat.lt_of_succ_lt_succ enough)

/-- Nothing overlaps a range that lies between two parts of the list. -/
theorem free_between {front : List Nat} {base fin : Nat}
    (passed : ∀ p ∈ front, (nodes p).stop ≤ base) (ahead : ∀ p ∈ back, fin ≤ (nodes p).base) :
    ∀ p ∈ front ++ back, ¬ (nodes p).Overlaps base fin := by
  intro p member overlaps
  simp only [Vregion.Overlaps] at overlaps
  rcases mem_append.mp member with inFront | inBack
  · have := passed p inFront
    omega
  · have := ahead p inBack
    omega

theorem insertWalk_spec (front : List Nat) (base fin : Nat)
    (links : Seg (fun p => (nodes p).next) back none) (laid : Laid (ahead nodes back))
    (enough : back.length < fuel) (passed : ∀ p ∈ front, (nodes p).stop ≤ base) :
    (insertWalk nodes base fin fuel front.getLast? back.head? = some none ∧
      ∃ p ∈ back, (nodes p).Overlaps base fin) ∨ ∃ front' back', front ++
    back = front' ++ back' ∧ insertWalk nodes base fin fuel front.getLast? back.head? =
        some (some (front'.getLast?, back'.head?)) ∧
      (∀ p ∈ front', (nodes p).stop ≤ base) ∧ ∀ p ∈ back', fin ≤ (nodes p).base := by
  induction back generalizing front fuel with
  | nil =>
    cases fuel with
    | zero => cases enough
    | succ => exact .inr ⟨front, [], rfl, rfl, passed, by simp⟩
  | cons cur rest ih =>
    cases fuel with
    | zero => cases enough
    | succ =>
      have sane := laid.sane _ mem_cons_self
      have grows := sane.base_lt
      have curFin := sane.fin_eq
      simp only [bare_stop, bare_base, bare_fin] at grows curFin
      rw [List.head?_cons, insertWalk, curFin]
      by_cases below : (nodes cur).base < fin
      · rw [if_pos below]
        by_cases meets : base < (nodes cur).stop ∧ (nodes cur).base < fin
        · rw [if_pos meets]
          exact .inl ⟨rfl, cur, mem_cons_self, meets⟩
        have passedCur : ∀ p ∈ front ++ [cur], (nodes p).stop ≤ base := by
          intro p member
          rcases mem_append.mp member with inFront | here
          · exact passed p inFront
          · rw [mem_singleton.mp here]
            omega
        rw [if_neg meets, seg_head links,
          show some cur = (front ++ [cur]).getLast? by simp]
        rcases ih _ links.2 laid.tail (Nat.lt_of_succ_lt_succ enough) passedCur with
          ⟨stopped, p, member, overlaps⟩ | ⟨front', back', whole, rest⟩
        · exact .inl ⟨stopped, p, mem_cons_of_mem _ member, overlaps⟩
        · exact .inr ⟨front', back', by simpa using whole, rest⟩
      · rw [if_neg below]
        refine .inr ⟨front, cur :: rest, rfl, rfl, passed, ?_⟩
        intro p member
        rcases mem_cons.mp member with rfl | later
        · omega
        have after := laid.after _ (mem_ahead later)
        simp only [bare_stop, bare_base] at after
        omega

/-- A run of `size` bytes from the page boundary `x` on lies in the window and
meets none of the regions. -/
def Fits (nodes : Nat → Vregion) (ids : List Nat) (size low maxAddr x : Nat) :
    Prop :=
  x % pageSize = 0 ∧ low ≤ x ∧ x + size ≤ maxAddr ∧ ∀ p ∈ ids, ¬ (nodes p).Overlaps x (x + size)

theorem alignUp_of_aligned {addr : Nat} (aligned : addr % pageSize = 0)
    (small : addr < wordSize) : alignUp addr = addr := by
  simp only [alignUp, alignDown, add32, pageSize, wordSize] at *
  omega

theorem Vregion.Sane.stop_aligned {r : Vregion} (sane : r.Sane) : r.stop % pageSize = 0 := by
  rw [Vregion.stop, Nat.add_mul_mod_self_right]
  exact sane.aligned

/-- The walk of an allocation stops at the lowest address that can still be
free, between the regions that end before it and those past it. -/
theorem allocWalk_spec (front : List Nat) {size low maxAddr cand : Nat}
    (links : Seg (fun p => (nodes p).next) back none) (laid : Laid (ahead nodes back))
    (enough : back.length < fuel) (aligned : cand % pageSize = 0) (small : cand < wordSize)
    (bounded : maxAddr < wordSize) (passed : ∀ p ∈ front, (nodes p).stop ≤ cand)
    (lowest : ∀ x, Fits nodes (front ++ back) size low maxAddr x → cand ≤ x) :
    ∃ front' back' cand', front ++
    back = front' ++ back' ∧ allocWalk nodes size maxAddr fuel cand front.getLast? back.head? =
        some (cand', front'.getLast?, back'.head?) ∧
      cand' % pageSize = 0 ∧ cand ≤ cand' ∧ cand' < wordSize ∧
      (∀ p ∈ front', (nodes p).stop ≤ cand') ∧ (∀ p ∈ back', add32 cand' size ≤ (nodes p).base) ∧
      ∀ x, Fits nodes (front ++ back) size low maxAddr x → cand' ≤ x := by
  induction back generalizing front fuel cand with
  | nil =>
    cases fuel with
    | zero => cases enough
    | succ =>
      exact ⟨front, [], cand, rfl, rfl, aligned, le_refl _, small, passed, by simp, lowest⟩
  | cons cur rest ih =>
    cases fuel with
    | zero => cases enough
    | succ =>
      have sane := laid.sane _ mem_cons_self
      have curAligned := sane.stop_aligned
      have curInside := sane.inside
      have curFin := sane.fin_eq
      have reassoc : front ++ cur :: rest = (front ++ [cur]) ++ rest := by simp
      simp only [bare_stop, bare_fin] at curAligned curInside curFin
      rw [List.head?_cons, allocWalk, curFin]
      by_cases behind : (nodes cur).stop ≤ cand
      · have passedCur : ∀ p ∈ front ++ [cur], (nodes p).stop ≤ cand := by
          intro p member
          rcases mem_append.mp member with inFront | here
          · exact passed p inFront
          · rw [mem_singleton.mp here]
            exact behind
        rw [reassoc] at lowest ⊢
        rw [if_pos behind, seg_head links,
          show some cur = (front ++ [cur]).getLast? by simp]
        exact ih _ links.2 laid.tail (Nat.lt_of_succ_lt_succ enough) aligned small passedCur lowest
      rw [if_neg behind]
      by_cases found : add32 cand size ≤ (nodes cur).base ∧ add32 cand size ≤ maxAddr
      · rw [if_pos found]
        refine ⟨front, cur :: rest, cand, rfl, rfl, aligned, le_refl _, small, passed, ?_, lowest⟩
        intro p member
        rcases mem_cons.mp member with rfl | later
        · exact found.1
        have after := laid.after _ (mem_ahead later)
        have grows := sane.base_lt
        simp only [bare_stop, bare_base] at after grows
        omega
      -- nothing that fits begins before the end of this region
      have lowestCur : ∀ x, Fits nodes (front ++ cur :: rest) size low maxAddr x →
          (nodes cur).stop ≤ x := by
        intro x fits
        by_contra early
        have above := lowest x fits
        have apart := fits.2.2.2 cur (by simp)
        have window := fits.2.2.1
        have exact' : add32 cand size = cand + size := Nat.mod_eq_of_lt (by omega)
        simp only [Vregion.Overlaps] at apart
        omega
      have passedCur : ∀ p ∈ front ++ [cur], (nodes p).stop ≤ (nodes cur).stop := by
        intro p member
        rcases mem_append.mp member with inFront | here
        · have := passed p inFront
          omega
        · exact le_of_eq (congrArg (fun p => (nodes p).stop) (mem_singleton.mp here))
      rw [reassoc] at lowestCur ⊢
      rw [if_neg found, seg_head links, alignUp_of_aligned curAligned curInside,
        show some cur = (front ++ [cur]).getLast? by simp]
      obtain ⟨front', back', cand', whole, result, aligned', above, facts⟩ :=
        ih _ links.2 laid.tail (Nat.lt_of_succ_lt_succ enough) curAligned curInside
          passedCur lowestCur
      exact ⟨front', back', cand', whole, result, aligned',
        by omega, facts⟩

end Walks

/-! ### The operations -/

/-- The pointers describe a sorted list of disjoint regions, and the counters
are its sums. -/
structure Regular (s : Space) (ids : List Nat) : Prop where
  tracks : Tracks s ids
  laid : Laid (s.regionsAt ids)
  count : s.vl.count = ids.length
  total : s.vl.totalPages = ((s.regionsAt ids).map Vregion.pages).sum
  device : s.vl.devicePages = ((s.regionsAt ids).map Vregion.devicePages).sum

section Operations

variable {s : Space} {ids front back : List Nat} {n : Nat}

theorem regionsAt_append (s : Space) (front back : List Nat) :
    s.regionsAt (front ++ back) = s.regionsAt front ++ s.regionsAt back :=
  map_append

theorem regionsAt_cons (s : Space) (n : Nat) (back : List Nat) :
    s.regionsAt (n :: back) = (s.nodes n).bare :: s.regionsAt back := rfl

theorem regionsAt_congr {s' : Space} {ids : List Nat}
    (same : ∀ p ∈ ids, (s'.nodes p).bare = (s.nodes p).bare) : s'.regionsAt ids = s.regionsAt ids :=
  map_congr_left same

theorem add32_of_lt {a b : Nat} (small : a + b < wordSize) :
    add32 a b = a + b := Nat.mod_eq_of_lt small

theorem sub32_of_le {a b : Nat} (small : a < wordSize) (le : b ≤ a) : sub32 a b = a - b := by
  simp only [sub32, wordSize] at *
  omega

theorem Tracks.not_mem (tracks : Tracks s ids) (fresh : n ∉ s.live) :
    n ∉ ids := fun member => fresh (tracks.alive n member)

variable {base pages flags : Nat} {backingId : Int}

theorem makeNode_node : (makeNode s n base pages flags backingId).nodes n =
      ⟨base, pages, flags, backingId, 0, none, none⟩ := by
  simp [makeNode]

theorem makeNode_vl :
    (makeNode s n base pages flags backingId).vl = s.vl := rfl

theorem makeNode_other {p : Nat} (other : p ≠ n) :
    (makeNode s n base pages flags backingId).nodes p = s.nodes p := by
  simp [makeNode, update_of_ne other]

theorem makeNode_tracks (tracks : Tracks s ids) (fresh : n ∉ s.live) (base pages flags : Nat)
    (backingId : Int) : Tracks (makeNode s n base pages flags backingId) ids where
  links := by
    refine tracks.links.congr ?_ ?_
    all_goals
      intro p member
      have other : p ≠ n := fun same => tracks.not_mem fresh (same ▸ member)
      simp only [Space.nextOf, Space.prevOf, makeNode_other other]
  distinct := tracks.distinct
  alive p member := mem_cons_of_mem n (tracks.alive p member)
  once := nodup_cons.mpr ⟨fresh, tracks.once⟩

theorem Regular.link (regular : Regular s (front ++ back)) (fresh : n ∉ s.live) (sane : Vregion.Sane
    ⟨base, pages, flags, backingId, 0, none, none⟩) (before : ∀ p ∈ front, (s.nodes p).stop ≤ base)
    (after : ∀ p ∈ back, base + pages * pageSize ≤ (s.nodes p).base) :
    let s' := linkBetween (makeNode s n base pages flags backingId) n front.getLast? back.head?
    Regular s' (front ++ n :: back) ∧ s'.regionsAt (front ++ n :: back) = s.regionsAt front ++
        ⟨base, pages, flags, backingId, 0, none, none⟩ :: s.regionsAt back := by
  intro s'
  have absent := regular.tracks.not_mem fresh
  have made := makeNode_tracks regular.tracks fresh base pages flags backingId
  have notPrev : front.getLast? ≠ some n := fun last =>
    absent (mem_append_left _ (mem_of_getLast? last))
  have notNext : back.head? ≠ some n := fun first =>
    absent (mem_append_right _ (mem_of_head? first))
  have linked : Tracks s' (front ++ n :: back) := linkBetween_tracks made absent mem_cons_self
  have bare : ∀ p, (s'.nodes p).bare = ((makeNode s n base pages flags backingId).nodes p).bare :=
    linkBetween_bare notPrev notNext
  have kept : ∀ part : List Nat, (∀ p ∈ part, p ∈ front ++ back) →
      s'.regionsAt part = s.regionsAt part := by
    intro part inside
    refine regionsAt_congr fun p member => ?_
    have other : p ≠ n := fun same => absent (same ▸ inside p member)
    rw [bare, makeNode_other other]
  have regions : s'.regionsAt (front ++ n :: back) = s.regionsAt front ++
      ⟨base, pages, flags, backingId, 0, none, none⟩ :: s.regionsAt back := by
    rw [regionsAt_append, regionsAt_cons, bare, makeNode_node,
      kept front (fun p => mem_append_left _), kept back (fun p => mem_append_right _)]
    rfl
  have laid := regular.laid
  rw [regionsAt_append] at laid
  have laid' : Laid (s'.regionsAt (front ++ n :: back)) := by
    rw [regions]
    refine laid.insert sane ?_ ?_
    · intro q member
      obtain ⟨p, inside, rfl⟩ := mem_map.mp member
      exact before p inside
    · intro q member
      obtain ⟨p, inside, rfl⟩ := mem_map.mp member
      exact after p inside
  have vl : s'.vl = _ := linkBetween_vl notPrev notNext
  rw [makeNode_node, makeNode_vl] at vl
  have total := regular.total
  have device := regular.device
  have sums := laid'.sum_lt
  have counts := laid'.counts
  have length : (s'.regionsAt (front ++ n :: back)).length = (front ++ back).length + 1 := by
    simp [Space.regionsAt]
    omega
  have pages' : ((s'.regionsAt (front ++ n :: back)).map Vregion.pages).sum =
      s.vl.totalPages + pages := by
    rw [regions, total, regionsAt_append]
    simp only [map_append, map_cons, List.sum_append, List.sum_cons]
    omega
  have device' : ((s'.regionsAt (front ++ n :: back)).map
      Vregion.devicePages).sum = s.vl.devicePages +
        Vregion.devicePages ⟨base, pages, flags, backingId, 0, none, none⟩ := by
    rw [regions, device, regionsAt_append]
    simp only [map_append, map_cons, List.sum_append, List.sum_cons]
    omega
  rw [pages'] at sums counts
  rw [device'] at counts
  refine ⟨⟨linked, laid', ?_, ?_, ?_⟩, regions⟩
  · rw [vl]
    rw [regular.count, add32_of_lt (by omega)]
    simp
    omega
  · rw [vl, pages']
    exact add32_of_lt sums
  · rw [vl, device']
    simp only [Vregion.devicePages] at counts ⊢
    split
    · next has =>
        rw [if_pos has] at counts
        exact add32_of_lt (by omega)
    · rfl

theorem Regular.unlink (regular : Regular s (front ++ n :: back)) :
    Regular (freeNode (unlinkNode s n) n) (front ++ back) ∧ (freeNode (unlinkNode s n) n).regionsAt
      (front ++ back) = s.regionsAt front ++ s.regionsAt back := by
  obtain ⟨prev, next, notPrev, notNext⟩ := regular.tracks.apart
  have notPrev' : (s.nodes n).prev ≠ some n := by rwa [prev]
  have vl := unlinkNode_vl notPrev' (by rwa [next])
  have laid := regular.laid
  have total := regular.total
  have device := regular.device
  have sums := laid.sum_lt
  have counts := laid.counts
  have length : (s.regionsAt (front ++ n :: back)).length = (front ++ back).length + 1 := by
    simp [Space.regionsAt]
    omega
  have count := regular.count
  rw [length] at counts
  rw [regionsAt_append, regionsAt_cons] at laid total device sums counts
  simp only [map_append, map_cons, List.sum_append, List.sum_cons,
    bare_pages, bare_devicePages] at total device sums counts
  have regions : (freeNode (unlinkNode s n) n).regionsAt (front ++ back) =
      s.regionsAt front ++ s.regionsAt back := by
    rw [← regionsAt_append]
    refine regionsAt_congr fun p _ => ?_
    rw [freeNode_nodes, unlinkNode_bare notPrev']
  refine ⟨⟨unlinkNode_tracks regular.tracks, ?_, ?_, ?_, ?_⟩, regions⟩
  · rw [regions]
    exact laid.remove
  · have shorter : (front ++ n :: back).length = (front ++ back).length + 1 := by
      simp
      omega
    rw [freeNode_vl, vl]
    show sub32 s.vl.count 1 = _
    rw [sub32_of_le (by omega) (by omega)]
    omega
  · rw [regions, freeNode_vl, vl]
    show sub32 s.vl.totalPages (s.nodes n).pages = _
    rw [sub32_of_le (by omega) (by omega), map_append, List.sum_append]
    omega
  · rw [regions, freeNode_vl, vl, map_append, List.sum_append]
    simp only [Vregion.devicePages] at device counts ⊢
    split
    · next has =>
        rw [if_pos has] at device counts
        rw [sub32_of_le (by omega) (by omega)]
        omega
    · next hasNot =>
        rw [if_neg hasNot] at device
        omega

theorem Regular.resize (regular : Regular s (front ++ n :: back)) {newPages : Nat}
    (least : 0 < newPages) (inside : (s.nodes n).base + newPages * pageSize < wordSize)
    (room : ∀ q ∈ back, (s.nodes n).base + newPages * pageSize ≤ (s.nodes q).base) :
    Regular (resizeNode s n newPages) (front ++ n :: back) := by
  have distinct := nodup_append.mp regular.tracks.distinct
  have notFront : n ∉ front := fun member => distinct.2.2 n member n (by simp) rfl
  have notBack : n ∉ back := (nodup_cons.mp distinct.2.1).1
  have other : ∀ p, p ≠ n → (resizeNode s n newPages).nodes p = s.nodes p := by
    intro p different
    simp [resizeNode, update_of_ne different]
  have self : (resizeNode s n newPages).nodes n = { s.nodes n with
        committed := if newPages < (s.nodes n).committed then newPages else (s.nodes n).committed
        pages := newPages } := by
    simp [resizeNode]
  have kept : ∀ part : List Nat, n ∉ part →
      (resizeNode s n newPages).regionsAt part = s.regionsAt part := by
    intro part absent
    refine regionsAt_congr fun p member => ?_
    rw [other p fun same => absent (same ▸ member)]
  have laid := regular.laid
  have total := regular.total
  have device := regular.device
  have sums := laid.sum_lt
  have counts := laid.counts
  rw [regionsAt_append, regionsAt_cons] at laid total device sums counts
  have sane := laid.sane (s.nodes n).bare (by simp)
  have before := (pairwise_append.mp laid.sorted).2.2
  have regions : (resizeNode s n newPages).regionsAt (front ++ n :: back) = s.regionsAt front ++
        ((resizeNode s n newPages).nodes n).bare :: s.regionsAt back := by
    rw [regionsAt_append, regionsAt_cons, kept front notFront, kept back notBack]
  have laid' : Laid ((resizeNode s n newPages).regionsAt (front ++ n :: back)) := by
    rw [regions]
    refine laid.remove.insert ⟨?_, ?_, ?_⟩ ?_ ?_
    · rw [self]
      exact sane.aligned
    · rw [self]
      exact least
    · rw [self]
      exact inside
    · intro q member
      rw [self]
      exact before q member (s.nodes n).bare mem_cons_self
    · intro q member
      obtain ⟨p, here, rfl⟩ := mem_map.mp member
      rw [self]
      exact room p here
  have sums' := laid'.sum_lt
  have counts' := laid'.counts
  rw [regions] at sums' counts'
  simp only [map_append, map_cons, List.sum_append, List.sum_cons,
    bare_pages, bare_devicePages] at total device sums counts sums' counts'
  have pagesSelf : ((resizeNode s n newPages).nodes n).pages = newPages := by rw [self]
  have hasSelf : ((resizeNode s n newPages).nodes n).has vregDevice =
      (s.nodes n).has vregDevice := by
    rw [self]
    rfl
  have delta : ∀ whole : Nat, whole < wordSize → (s.nodes n).pages ≤ whole →
      whole - (s.nodes n).pages + newPages < wordSize →
      add32 whole (sub32 newPages (s.nodes n).pages) = whole - (s.nodes n).pages + newPages := by
    intro whole small le fits
    simp only [add32, sub32, wordSize] at *
    omega
  constructor
  case tracks =>
    refine ⟨regular.tracks.links.congr ?_ ?_, regular.tracks.distinct,
      regular.tracks.alive, regular.tracks.once⟩
    all_goals
      intro p member
      by_cases same : p = n
      · subst same
        simp only [Space.nextOf, Space.prevOf, self]
      · simp only [Space.nextOf, Space.prevOf, other p same]
  case laid => exact laid'
  case count => exact regular.count
  case total =>
    rw [regions]
    simp only [map_append, map_cons, List.sum_append, List.sum_cons,
      bare_pages, pagesSelf] at sums' ⊢
    show add32 s.vl.totalPages (sub32 newPages (s.nodes n).pages) = _
    rw [delta _ (by omega) (by omega) (by omega)]
    omega
  case device =>
    rw [regions]
    simp only [map_append, map_cons, List.sum_append, List.sum_cons, bare_devicePages]
    show (if (s.nodes n).has vregDevice then
      add32 s.vl.devicePages (sub32 newPages (s.nodes n).pages)
      else s.vl.devicePages) = _
    simp only [Vregion.devicePages, hasSelf, pagesSelf] at device counts counts' ⊢
    split
    · next has =>
        rw [if_pos has] at device counts counts'
        rw [delta _ (by omega) (by omega) (by omega)]
        omega
    · next hasNot =>
        rw [if_neg hasNot] at device
        omega

section

variable (regular : Regular s ids)
include regular

theorem Regular.findExact (base : Nat) :
    vregionFindExact s base = some (ids.find? fun p => (s.nodes p).base == base) := by
  rw [vregionFindExact, regular.tracks.links.head]
  exact findExactWalk_spec base regular.tracks.links.forward regular.laid regular.tracks.reach

theorem Regular.find (addr : Nat) : vregionFind s addr = some (ids.find? fun p =>
      decide ((s.nodes p).base ≤ addr ∧ addr < (s.nodes p).stop)) := by
  rw [vregionFind, regular.tracks.links.head]
  exact findWalk_spec addr regular.tracks.links.forward regular.laid regular.tracks.reach

theorem Regular.same (addr : Nat) {p q : Nat} (pIn : p ∈ ids)
    (qIn : q ∈ ids) (pHas : (s.nodes p).base ≤ addr ∧ addr < (s.nodes p).stop)
    (qHas : (s.nodes q).base ≤ addr ∧ addr < (s.nodes q).stop) : p = q := by
  have sorted := pairwise_map.mp regular.laid.sorted
  by_contra different
  rcases List.Pairwise.forall_of_forall_of_flip (l := ids) (R := fun a b =>
      a ≠ b → (s.nodes a).stop ≤ (s.nodes b).base ∨ (s.nodes b).stop ≤ (s.nodes a).base)
      (by intro a _ no; exact absurd rfl no) (sorted.imp fun le _ => .inl le)
      (sorted.imp fun le _ => .inr le) pIn qIn different with le | le
  · omega
  · omega

theorem Regular.alloc (pages minAddr maxAddr flags : Nat) (backingId : Int)
    (fresh : Option Nat) (least : 0 < pages) (sizeFits : pages * pageSize < wordSize)
    (lowFits : minAddr + (pageSize - 1) < wordSize) (highFits : maxAddr < wordSize)
    (isFresh : ∀ p, fresh = some p → p ∉ s.live) : (∃ n front back cand s', fresh = some n ∧
    ids = front ++ back ∧ vregionAlloc s pages minAddr maxAddr flags backingId fresh = some
      (s', cand) ∧ Fits s.nodes ids (pages * pageSize) minAddr maxAddr cand ∧
      (∀ x, Fits s.nodes ids (pages * pageSize) minAddr maxAddr x → cand ≤ x) ∧
      Regular s' (front ++ n :: back) ∧ s'.regionsAt (front ++ n :: back) = s.regionsAt front ++
        ⟨cand, pages, flags, backingId, 0, none, none⟩ :: s.regionsAt back) ∨
    (vregionAlloc s pages minAddr maxAddr flags backingId fresh = some (s, 0) ∧ (fresh = none ∨
        ∀ x, ¬ Fits s.nodes ids (pages * pageSize) minAddr maxAddr x)) := by
  have aligned : alignUp minAddr % pageSize = 0 := by
    simp only [alignUp, alignDown, pageSize]
    omega
  have above : minAddr ≤ alignUp minAddr ∧ alignUp minAddr < wordSize := by
    simp only [alignUp, alignDown, add32, pageSize, wordSize] at *
    omega
  have lowest : ∀ x, Fits s.nodes ([] ++ ids) (pages * pageSize) minAddr maxAddr x →
      alignUp minAddr ≤ x := by
    intro x fits
    have first := fits.1
    have second := fits.2.1
    simp only [alignUp, alignDown, add32, pageSize, wordSize] at *
    omega
  obtain ⟨front, back, cand, whole, walk, candAligned, candAbove, candSmall,
      passed, ahead, lowest'⟩ :=
    allocWalk_spec [] regular.tracks.links.forward regular.laid
      regular.tracks.reach aligned above.2 highFits (by simp) lowest
  rw [nil_append] at whole lowest'
  have size : mul32 pages pageSize = pages * pageSize := Nat.mod_eq_of_lt sizeFits
  rw [vregionAlloc, if_neg (ne_of_gt least), regular.tracks.links.head, size]
  dsimp only
  rw [show (none : Option Nat) = ([] : List Nat).getLast? from rfl, walk]
  dsimp only
  split
  · next outside =>
      refine .inr ⟨rfl, .inr fun x fits => ?_⟩
      have le := lowest' x fits
      have window := fits.2.2.1
      simp only [add32, wordSize] at *
      omega
  next inside =>
    have exact' : add32 cand (pages * pageSize) = cand + pages * pageSize := by
      simp only [add32, wordSize] at *
      omega
    cases fresh with
    | none => exact .inr ⟨rfl, .inl rfl⟩
    | some n =>
      rw [exact'] at inside ahead
      have regular' := regular
      rw [whole] at regular'
      have sane : Vregion.Sane ⟨cand, pages, flags, backingId, 0, none, none⟩ := by
        refine ⟨candAligned, least, ?_⟩
        show cand + pages * pageSize < wordSize
        omega
      obtain ⟨linked, regions⟩ := regular'.link (isFresh n rfl) sane passed ahead
      refine .inl ⟨n, front, back, cand, _, rfl, whole, rfl, ?_, lowest', linked, regions⟩
      refine ⟨candAligned, le_trans above.1 candAbove, by omega, ?_⟩
      rw [whole]
      exact free_between passed ahead

theorem Regular.insert (addr pages flags : Nat) (fresh : Option Nat)
    (least : 0 < pages) (fits : alignDown addr + pages * pageSize < wordSize)
    (isFresh : ∀ p, fresh = some p → p ∉ s.live) : (∃ n front back s', fresh = some n ∧
    ids = front ++ back ∧ vregionInsert s addr pages flags fresh = some (s', some n) ∧
      (∀ p ∈ ids, ¬ (s.nodes p).Overlaps (alignDown addr) (alignDown addr + pages * pageSize)) ∧
      Regular s' (front ++ n :: back) ∧ s'.regionsAt (front ++ n :: back) = s.regionsAt front ++
        ⟨alignDown addr, pages, flags, -1, 0, none, none⟩ :: s.regionsAt back) ∨
    (vregionInsert s addr pages flags fresh = some (s, none) ∧
      (fresh = none ∨ ∃ p ∈ ids, (s.nodes p).Overlaps (alignDown addr)
        (alignDown addr + pages * pageSize))) := by
  have size : mul32 pages pageSize = pages * pageSize := Nat.mod_eq_of_lt (by omega)
  have aligned : alignDown addr % pageSize = 0 := Nat.mul_mod_left _ _
  rw [vregionInsert, size, add32_of_lt fits, if_neg (by omega), regular.tracks.links.head,
    show (none : Option Nat) = ([] : List Nat).getLast? from rfl]
  rcases insertWalk_spec [] (alignDown addr) (alignDown addr + pages * pageSize)
      regular.tracks.links.forward regular.laid regular.tracks.reach
      (by simp) with ⟨walk, overlap⟩ | ⟨front, back, whole, walk, passed, ahead⟩
  · rw [walk]
    exact .inr ⟨rfl, .inr overlap⟩
  rw [walk]
  rw [nil_append] at whole
  cases fresh with
  | none => exact .inr ⟨rfl, .inl rfl⟩
  | some n =>
    have regular' := regular
    rw [whole] at regular'
    have sane : Vregion.Sane ⟨alignDown addr, pages, flags, -1, 0, none, none⟩ :=
      ⟨aligned, least, fits⟩
    obtain ⟨linked, regions⟩ := regular'.link (isFresh n rfl) sane passed ahead
    refine .inl ⟨n, front, back, _, rfl, whole, rfl, ?_, linked, regions⟩
    rw [whole]
    exact free_between passed ahead

end

theorem split_of_find (found : ids.find? (fun p => (s.nodes p).base == base) = some n) :
    (s.nodes n).base = base ∧ ∃ front back, ids = front ++ n :: back := by
  refine ⟨by simpa using List.find?_some found, ?_⟩
  exact append_of_mem (mem_of_find?_eq_some found)

theorem Regular.free (regular : Regular s ids) (base : Nat) : (vregionFree s base = some (s, 0) ∧
    ∀ p ∈ ids, (s.nodes p).base ≠ base) ∨ ∃ n front back s', ids = front ++ n ::
    back ∧ (s.nodes n).base = base ∧ vregionFree s base = some (s', (s.nodes n).pages) ∧ Regular s'
      (front ++ back) ∧ s'.regionsAt (front ++ back) = s.regionsAt front ++ s.regionsAt back := by
  rw [vregionFree, regular.findExact]
  cases found : ids.find? fun p => (s.nodes p).base == base with
  | none =>
    refine .inl ⟨rfl, fun p member same => ?_⟩
    exact List.find?_eq_none.mp found p member (beq_iff_eq.mpr same)
  | some n =>
    obtain ⟨same, front, back, rfl⟩ := split_of_find found
    obtain ⟨unlinked, regions⟩ := regular.unlink
    exact .inr ⟨n, front, back, _, rfl, same, rfl, unlinked, regions⟩

theorem Regular.resizes (regular : Regular s ids) (base newPages : Nat) :
    vregionResize s base newPages = some (s, false) ∨ ∃ n front back, ids = front ++ n :: back ∧
    (s.nodes n).base = base ∧ vregionResize s base newPages = some (resizeNode s n newPages, true) ∧
      Regular (resizeNode s n newPages) ids := by
  rw [vregionResize, regular.findExact]
  cases found : ids.find? fun p => (s.nodes p).base == base with
  | none => exact .inl rfl
  | some n =>
    obtain ⟨same, front, back, rfl⟩ := split_of_find found
    dsimp only
    by_cases zero : newPages = 0
    · rw [if_pos zero]
      exact .inl rfl
    by_cases wraps : (wordSize - 1 - base) / pageSize < newPages
    · rw [if_neg zero, if_pos wraps]
      exact .inl rfl
    by_cases grows : invades s n base newPages = true
    · rw [if_neg zero, if_neg wraps, if_pos grows]
      exact .inl rfl
    rw [if_neg zero, if_neg wraps, if_neg grows]
    refine .inr ⟨n, front, back, rfl, same, rfl, ?_⟩
    have laid := regular.laid
    rw [regionsAt_append, regionsAt_cons] at laid
    have sane := laid.sane (s.nodes n).bare (by simp)
    have grown := sane.base_lt
    have inside := sane.inside
    simp only [bare_base, bare_stop] at grown inside
    have fits : (s.nodes n).base + newPages * pageSize < wordSize := by
      have bound := (Nat.le_div_iff_mul_le (by decide)).mp (Nat.le_of_not_lt wraps)
      omega
    refine regular.resize (Nat.pos_of_ne_zero zero) fits ?_
    intro q member
    have later := (pairwise_append.mp laid.sorted).2.1
    have ends := (pairwise_cons.mp later).1 (s.nodes q).bare (mem_map_of_mem member)
    simp only [bare_base, bare_pages, Vregion.stop] at ends
    by_cases larger : (s.nodes n).pages < newPages
    · -- the neighbour was looked at; the others begin after it
      cases back with
      | nil => cases member
      | cons first =>
        have next : (s.nodes n).next = some first := regular.tracks.links.successor
        have size : mul32 newPages pageSize = newPages * pageSize := Nat.mod_eq_of_lt (by omega)
        have before : base + newPages * pageSize ≤ (s.nodes first).base := by
          simp only [invades, next, decide_eq_true larger, Bool.true_and,
            decide_eq_true_eq, not_lt, size] at grows
          rwa [add32_of_lt (by omega)] at grows
        have order : (s.nodes first).base ≤ (s.nodes q).base := by
          rcases mem_cons.mp member with rfl | inRest
          · exact le_refl _
          have steps := (pairwise_cons.mp later).2
          have after := (pairwise_cons.mp steps).1 (s.nodes q).bare (mem_map_of_mem inRest)
          simp only [bare_base, bare_pages, Vregion.stop] at after
          omega
        omega
    · have shrinks : newPages * pageSize ≤ (s.nodes n).pages * pageSize :=
        Nat.mul_le_mul_right _ (Nat.le_of_not_lt larger)
      omega

end Operations

/-! ### Every sequence of calls -/

/-- The call names at least one page, and no address it computes from its
arguments wraps. -/
def NoWrap (_ : Space) : Call → Prop
  | .alloc pages minAddr maxAddr _ _ _ =>
    0 < pages ∧ pages * pageSize < wordSize ∧
      minAddr + (pageSize - 1) < wordSize ∧ maxAddr < wordSize
  | .insert base pages _ _ =>
    0 < pages ∧ alignDown base + pages * pageSize < wordSize
  | .free _ => True
  | .resize _ newPages => 0 < newPages

section Runs

variable {s s' : Space} {ids : List Nat}

theorem Regular.initial : Regular initial [] where
  tracks := ⟨.nil, nodup_nil, by simp, nodup_nil⟩
  laid := ⟨by simp [Space.regionsAt], List.Pairwise.nil⟩
  count := rfl
  total := rfl
  device := rfl

theorem Regular.call (regular : Regular s ids) {call : Call}
    (calm : NoWrap s call) (isFresh : ∀ p, call.fresh = some p → p ∉ s.live) :
    ∃ s' ids', exec s call = some s' ∧ Regular s' ids' := by
  cases call with
  | alloc pages minAddr maxAddr flags backingId fresh =>
    obtain ⟨least, sizeFits, lowFits, highFits⟩ := calm
    rcases regular.alloc pages minAddr maxAddr flags backingId fresh least
        sizeFits lowFits highFits isFresh with
      ⟨n, front, back, cand, s', _, _, result, _, _, after, _⟩ | ⟨result, _⟩
    · exact ⟨s', _, by rw [exec, result]; rfl, after⟩
    · exact ⟨s, ids, by rw [exec, result]; rfl, regular⟩
  | insert base pages flags fresh =>
    rcases regular.insert base pages flags fresh calm.1 calm.2 isFresh with
      ⟨n, front, back, s', _, _, result, _, after, _⟩ | ⟨result, _⟩
    · exact ⟨s', _, by rw [exec, result]; rfl, after⟩
    · exact ⟨s, ids, by rw [exec, result]; rfl, regular⟩
  | free base =>
    rcases regular.free base with
      ⟨result, _⟩ | ⟨n, front, back, s', _, _, result, after, _⟩
    · exact ⟨s, ids, by rw [exec, result]; rfl, regular⟩
    · exact ⟨s', _, by rw [exec, result]; rfl, after⟩
  | resize base newPages =>
    rcases regular.resizes base newPages with
      result | ⟨n, front, back, _, _, result, after⟩
    · exact ⟨s, ids, by rw [exec, result]; rfl, regular⟩
    · exact ⟨_, ids, by rw [exec, result]; rfl, after⟩

theorem Regular.step (regular : Regular s ids) {call : Call} (taken : step s call s')
    (calm : NoWrap s call) : ∃ ids', Regular s' ids' := by
  obtain ⟨after, ids', result, regular'⟩ := regular.call calm taken.2
  rw [taken.1] at result
  cases result
  exact ⟨ids', regular'⟩

/-- What holds of a region list, whatever is called on it next. -/
structure Contract (s : Space) (ids : List Nat) : Prop where
  /-- One doubly linked list, sorted by base, disjoint, with its sums. -/
  regular : Regular s ids
  find : ∀ addr, ∃ found, vregionFind s addr = some found ∧
    ∀ p, found = some p ↔ p ∈ ids ∧ (s.nodes p).base ≤ addr ∧ addr < (s.nodes p).stop
  findExact : ∀ base, ∃ found, vregionFindExact s base = some found ∧
    ∀ p, found = some p ↔ p ∈ ids ∧ (s.nodes p).base = base
  /-- An insertion fails exactly on overlap or when there is no node for it. -/
  insert : ∀ addr pages flags fresh, NoWrap s (.insert addr pages flags fresh) →
    (∀ p, fresh = some p → p ∉ s.live) → ∃ s' result, vregionInsert s addr pages flags fresh = some
    (s', result) ∧ (result = none ↔ fresh = none ∨
        ∃ p ∈ ids, (s.nodes p).Overlaps (alignDown addr) (alignDown addr + pages * pageSize))
  /-- An allocation takes the lowest place that fits; it fails when nothing
  fits, or when there is no node for it. -/
  alloc : ∀ pages minAddr maxAddr flags backingId fresh, NoWrap s
    (.alloc pages minAddr maxAddr flags backingId fresh) → (∀ p, fresh = some p → p ∉ s.live) →
    ∃ s' result, vregionAlloc s pages minAddr maxAddr flags backingId fresh =
        some (s', result) ∧ ((fresh = none ∨
        ∀ x, ¬ Fits s.nodes ids (pages * pageSize) minAddr maxAddr x) → s' = s ∧ result = 0) ∧
      ((fresh ≠ none ∧ ∃ x, Fits s.nodes ids (pages * pageSize) minAddr maxAddr x) →
          Fits s.nodes ids (pages * pageSize) minAddr maxAddr result ∧
          (∀ x, Fits s.nodes ids (pages * pageSize) minAddr maxAddr x →
            result ≤ x) ∧ ∃ n front back, ids = front ++ back ∧
            s'.regionsAt (front ++ n :: back) = s.regionsAt front ++
              ⟨result, pages, flags, backingId, 0, none, none⟩ :: s.regionsAt back)
  /-- Every call has a result. -/
  total : ∀ call, NoWrap s call → (∀ p, call.fresh = some p → p ∉ s.live) →
    ∃ s', exec s call = some s'

theorem find?_eq_some_iff_of_unique {p : Nat} {test : Nat → Bool}
    (unique : ∀ p ∈ ids, ∀ q ∈ ids, test p = true → test q = true → p = q) :
    ids.find? test = some p ↔ p ∈ ids ∧ test p = true := by
  constructor
  · intro found
    exact ⟨mem_of_find?_eq_some found, List.find?_some found⟩
  rintro ⟨member, passes⟩
  cases found : ids.find? test with
  | none => exact absurd passes (List.find?_eq_none.mp found p member)
  | some q => rw [unique q (mem_of_find?_eq_some found) p member (List.find?_some found) passes]

theorem Regular.sane (regular : Regular s ids) {p : Nat} (member : p ∈ ids) :
    (s.nodes p).base < (s.nodes p).stop :=
  (regular.laid.sane _ (mem_map_of_mem member)).base_lt

theorem Regular.contract (regular : Regular s ids) : Contract s ids := by
  constructor
  case regular => exact regular
  case find =>
    intro addr
    refine ⟨_, regular.find addr, fun p => ?_⟩
    rw [find?_eq_some_iff_of_unique]
    · simp
    · intro p pIn q qIn pHas qHas
      exact regular.same addr pIn qIn (of_decide_eq_true pHas) (of_decide_eq_true qHas)
  case findExact =>
    intro base
    refine ⟨_, regular.findExact base, fun p => ?_⟩
    rw [find?_eq_some_iff_of_unique]
    · simp
    intro p pIn q qIn pBase qBase
    have pSane := regular.sane pIn
    have qSane := regular.sane qIn
    rw [beq_iff_eq] at pBase qBase
    exact regular.same base pIn qIn ⟨by omega, by omega⟩ ⟨by omega, by omega⟩
  case insert =>
    intro addr pages flags fresh calm isFresh
    rcases regular.insert addr pages flags fresh calm.1 calm.2 isFresh with
      ⟨n, front, back, s', given, _, result, apart, _, _⟩ | ⟨result, why⟩
    · refine ⟨s', some n, result, ?_⟩
      constructor
      · intro none'
        cases none'
      · rintro (missing | ⟨p, member, overlaps⟩)
        · rw [given] at missing
          cases missing
        · exact absurd overlaps (apart p member)
    · exact ⟨s, none, result, fun _ => why, fun _ => rfl⟩
  case alloc =>
    intro pages minAddr maxAddr flags backingId fresh calm isFresh
    obtain ⟨least, sizeFits, lowFits, highFits⟩ := calm
    rcases regular.alloc pages minAddr maxAddr flags backingId fresh least
        sizeFits lowFits highFits isFresh with
      ⟨n, front, back, cand, s', given, whole, result, fits, lowest, _, regions⟩ | ⟨result, why⟩
    · refine ⟨s', cand, result, ?_, fun _ => ⟨fits, lowest, n, front, back, whole, regions⟩⟩
      rintro (missing | nowhere)
      · rw [given] at missing
        cases missing
      · exact absurd fits (nowhere cand)
    · refine ⟨s, 0, result, fun _ => ⟨rfl, rfl⟩, ?_⟩
      rintro ⟨given, x, fits⟩
      rcases why with missing | nowhere
      · exact absurd missing given
      · exact absurd fits (nowhere x)
  case total =>
    intro call calm isFresh
    obtain ⟨s', _, result, _⟩ := regular.call calm isFresh
    exact ⟨s', result⟩

/-- The list is regular, whatever its nodes are. -/
def HasRegular (s : Space) : Prop := ∃ ids, Regular s ids

/-- After every sequence of calls that name pages and wrap no address, the
region list keeps its contract. -/
theorem region_list {calls : List Call} (run : Steps
    (Guarded Regions.step NoWrap) Regions.initial calls s) : ∃ ids, Contract s ids := by
  have kept : HasRegular s := run.invariant (fun _ _ _ old next => by
      obtain ⟨ids, regular⟩ := old
      exact regular.step next.1 next.2)
    ⟨[], Regular.initial⟩
  obtain ⟨ids, regular⟩ := kept
  exact ⟨ids, regular.contract⟩

/-- A test that is enough for `NoWrap` and for a fresh node. -/
def calmCheck (s : Space) (call : Call) : Bool :=
  (call.fresh.all fun p => !s.live.contains p) &&
    match call with
    | .alloc pages minAddr maxAddr _ _ _ =>
      decide (0 < pages ∧ pages * pageSize < wordSize ∧
        minAddr + (pageSize - 1) < wordSize ∧ maxAddr < wordSize)
    | .insert base pages _ _ =>
      decide (0 < pages ∧ alignDown base + pages * pageSize < wordSize)
    | .free _ => true
    | .resize _ newPages => decide (0 < newPages)

theorem calmCheck_sound {call : Call} (passed : calmCheck s call = true) :
    NoWrap s call ∧ ∀ p, call.fresh = some p → p ∉ s.live := by
  obtain ⟨unused, calm⟩ := Bool.and_eq_true_iff.mp passed
  refine ⟨?_, fun p given member => ?_⟩
  · cases call with
    | free => trivial
    | alloc | insert | resize =>
      have facts := of_decide_eq_true calm
      exact facts
  · rw [given] at unused
    simp [member] at unused

/-- Two regions, one of them grown, and a hole between them that is used. -/
def twoRegions : List Call :=
  [.insert 0x10000 2 11 (some 1), .insert 0x20000 1 32779 (some 2), .resize 0x10000 4,
    .insert 0x13000 1 11 (some 3), .alloc 3 0x10000 0x40000 4107 (-1) (some 3), .free 0x20000]

theorem region_list_twoRegions : ∃ s,
    Steps (Guarded Regions.step NoWrap) Regions.initial twoRegions s ∧
      s.vl = ⟨some 1, some 3, 2, 7, 0⟩ ∧ ∃ ids, Contract s ids := by
  have followed : (followRun (checked exec calmCheck) Regions.initial twoRegions).map Space.vl =
      some ⟨some 1, some 3, 2, 7, 0⟩ := by
    decide +kernel
  obtain ⟨s, steps, seen⟩ := Steps.guarded_of_followed calmCheck_sound followed
  have run : Steps (Guarded Regions.step NoWrap) Regions.initial twoRegions s :=
    steps.mono fun _ _ _ taken => ⟨⟨taken.1, taken.2.2⟩, taken.2.1⟩
  exact ⟨s, run, seen, region_list run⟩

/-- On an empty list, where the first page of the window fits, an allocation
without memory for the node fails. -/
theorem region_list_noNode : Fits Regions.initial.nodes [] (1 * pageSize) 4096 65536 4096 ∧
      (vregionAlloc Regions.initial 1 4096 65536 0 (-1) none).map Prod.snd = some 0 := by
  constructor
  · simp [Fits, pageSize]
  · decide +kernel

end Runs

end MainDob.Kernel.Regions
