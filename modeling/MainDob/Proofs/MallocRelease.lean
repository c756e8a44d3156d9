/-
Purpose: What the heap of a program does besides taking a block: a block is released to its place
  in the free list, neighbours are joined, pages at the break are given back, and a new block is
  added behind the last one.
Main exports: Steady, Shaped.release, Shaped.joined
-/
import MainDob.Proofs.MallocBlocks

namespace MainDob.Libc

open Lib (Chunk Tiled Seg)
open List Option

/-- The heap has its shape with the same used blocks, and their payloads are as
they were. -/
structure Steady (heap heap' : Heap) (start : Nat) (blocks blocks' : List Chunk)
    (free' : List Nat) : Prop where
  shaped : Shaped heap' start blocks' free'
  owned : used blocks' = used blocks
  frame : Frame heap heap' (used blocks)
  ready : heap'.heapInitialized = heap.heapInitialized
  granted : heap'.granted = heap.granted

variable {heap : Heap} {start : Nat} {blocks : List Chunk} {free : List Nat}

namespace Steady

theorem refl (shaped : Shaped heap start blocks free) : Steady heap heap start blocks blocks free :=
  ⟨shaped, rfl, Frame.refl heap _, rfl, rfl⟩

theorem trans {a b c : Heap} {blocks' blocks'' : List Chunk} {free' : List Nat}
    (first : Steady a b start blocks blocks' free)
    (second : Steady b c start blocks' blocks'' free') :
    Steady a c start blocks blocks'' free' where
  shaped := second.shaped
  owned := second.owned.trans first.owned
  frame := first.frame.trans (first.owned ▸ second.frame)
  ready := second.ready.trans first.ready
  granted := second.granted.trans first.granted

end Steady

theorem setLink_ready (heap : Heap) (pp : Option Nat) (b : Nat) :
    (heap.setLink pp b).heapInitialized = heap.heapInitialized := by
  cases pp <;> rfl

theorem setLink_granted (heap : Heap) (pp : Option Nat) (b : Nat) :
    (heap.setLink pp b).granted = heap.granted := by
  cases pp <;> rfl

variable {b : Nat}

theorem Shaped.frame_of_header {heap' : Heap} (shaped : Shaped heap start blocks free)
    (here : b ∈ blocks.map Chunk.addr) (only : ∀ x, Outside b x → heap'.mem x = heap.mem x) :
    Frame heap heap' (used blocks) :=
  fun _ member x low high => only x (shaped.outside (mem_used.mp member).1 here low high)

/-! ### Joining neighbours -/

variable {front back : List Nat}

/-- Two free neighbours that follow each other in the free list become one. -/
theorem Shaped.joined {n : Nat} (shaped : Shaped heap start blocks (front ++ b :: n :: back))
    (meets : adjacent heap b n = true) :
    ∃ blocks', Steady heap (absorb heap b n) start blocks blocks' (front ++ b :: back) := by
  obtain ⟨before, size, behind, rfl, has⟩ := shaped.split_free
    (show b ∈ front ++ b :: n :: back by simp)
  obtain ⟨⟨addr, more, mark⟩, member, unused, atN⟩ := shaped.free_block
    (show n ∈ front ++ b :: n :: back by simp)
  subst unused atN
  have ends : addr = b + headerSize + size := by
    unfold adjacent at meets
    rw [← has] at meets
    exact (beq_iff_eq.mp meets).symm
  obtain ⟨after, rfl⟩ := shaped.tiled.behind header_positive member ends
  have spread := shaped.spread
  have high : heap.brk ≤ 0x40000000 := shaped.high
  have bounds := shaped.tiled.bounds member
  dsimp only at bounds
  have header : headerSize = 12 := rfl
  have atB := shaped.heads ⟨b, size, false⟩ (by simp)
  have atN := shaped.heads ⟨addr, more, false⟩ (by simp)
  have here : b ∈ (before ++ ⟨b, size, false⟩ :: ⟨addr, more, false⟩ :: after).map
    Chunk.addr := by simp
  have there : addr ∈ (before ++ ⟨b, size, false⟩ :: ⟨addr, more, false⟩ ::
    after).map Chunk.addr := by simp
  have small : size + (headerSize + more) < 2 ^ 32 := by omega
  have other : addr ≠ b := by omega
  have next : ((heap.setSize b (size + (headerSize + more))).header addr).next =
      (heap.header addr).next := by
    rw [setSize_header spread there here small, if_neg other]
  have result : absorb heap b addr = (heap.setSize b (size +
      (headerSize + more))).setNext b (heap.header addr).next := by
    unfold absorb
    simp only [atB.1, atN.1, next]
  have header' : ∀ a ∈ (before ++ ⟨b, size, false⟩ :: ⟨addr, more, false⟩ ::
      after).map Chunk.addr, (absorb heap b addr).header a = if a = b then
        ⟨size + (headerSize + more), (heap.header addr).next, (heap.header b).magic⟩
        else heap.header a := by
    intro a among
    rw [result, setNext_header spread among here (heap.next_small addr),
      setSize_header spread among here small]
    by_cases isB : a = b
    · subst isB
      simp
    · simp [isB]
  have nodup := shaped.free_nodup
  have apart : ∀ a ∈ front ++ back, a ≠ b := by
    rintro _ among rfl
    have middle := (nodup_cons.mp (nodup_middle.mp nodup)).1
    refine middle ?_
    rcases mem_append.mp among with left | right
    · exact mem_append_left _ left
    · exact mem_append_right _ (mem_cons_of_mem _ right)
  have same : ∀ a ∈ front ++ back, (absorb heap b addr).after a = heap.after a := by
    intro a among
    have inFree : a ∈ front ++ b :: addr :: back := by
      rcases mem_append.mp among with left | right
      · exact mem_append_left _ left
      · exact mem_append_right _ (by simp [right])
    unfold Heap.after
    rw [header' a (shaped.free_addr inFree), if_neg (apart a among)]
  obtain ⟨toB, _, toBack, _⟩ := Seg.append_iff.mp shaped.linked
  rw [or_none] at toBack
  have shaped' : Shaped heap start (before ++ [⟨b, size, false⟩, ⟨addr, more, false⟩] ++
      after) (front ++ [b, addr] ++ back) := by simpa using shaped
  have tiled : Tiled headerSize start (before ++
      [⟨b, size + (headerSize + more), false⟩] ++ after) (absorb heap b addr).brk := by
    have joined := shaped.tiled.join false
    change Tiled _ _ _ heap.brk
    simpa using joined
  have joined : Shaped (absorb heap b addr) start (before ++
      [⟨b, size + (headerSize + more), false⟩] ++ after) (front ++ [b] ++ back) := by
    refine shaped'.exchange tiled (by rw [result]; exact shaped.high) ?_ ?_ ?_ ?_
      ⟨?_, trivial⟩ ?_ ?_ (List.Perm.refl _) (List.Perm.refl _)
    · intro block among
      have among' : block ∈ before ++ ⟨b, size, false⟩ :: ⟨addr, more, false⟩ ::
          after := by
        rcases mem_append.mp among with left | right
        · exact mem_append_left _ left
        · exact mem_append_right _ (by simp [right])
      have notB : block.addr ≠ b := by
        refine shaped.tiled.elsewhere header_positive ?_
        rcases mem_append.mp among with left | right
        · exact mem_append_left _ left
        · exact mem_append_right _ (mem_cons_of_mem _ right)
      rw [header' _ (mem_map.mpr ⟨block, among', rfl⟩), if_neg notB]
      exact ⟨rfl, rfl⟩
    · intro block among
      rw [mem_singleton.mp among, header' b here, if_pos rfl]
      exact ⟨rfl, atB.2⟩
    · intro a among
      exact same a (mem_append_left _ ((dropLast_sublist _).subset among))
    · intro last final
      have among := mem_of_getLast? final
      rw [same last (mem_append_left _ among)]
      exact toB.last_next final
    · unfold Heap.after
      rw [header' b here, if_pos rfl]
      exact toBack
    · exact fun a among => same a (mem_append_right _ among)
    · rw [result]
      refine shaped.first.trans ?_
      cases front <;> rfl
  refine ⟨_, by simpa using joined, ?_, ?_, ?_, ?_⟩
  · simp [used, filter_append]
  · refine shaped.frame_of_header here ?_
    intro x outside
    rw [result, setNext_mem _ _ outside, setSize_mem _ _ outside]
  · rw [result]
    rfl
  · rw [result]
    rfl

section

variable (shaped : Shaped heap start blocks (front ++ b :: back))
include shaped

theorem Shaped.coalesceNext : ∃ blocks' back', Steady heap
    (coalesceNext heap b) start blocks blocks' (front ++ b :: back') := by
  unfold Libc.coalesceNext
  have behind := (Seg.append_iff.mp shaped.linked).2.1
  dsimp only
  split
  · next meets =>
      obtain ⟨some', meets⟩ := meets
      unfold Heap.after link at behind
      rw [if_neg some'] at behind
      cases back with
      | nil => cases behind
      | cons _ back =>
        cases behind
        obtain ⟨blocks', steady⟩ := shaped.joined meets
        exact ⟨blocks', back, steady⟩
  · exact ⟨blocks, back, Steady.refl shaped⟩

theorem Shaped.coalescePrev :
    ∃ blocks' free', Steady heap (coalescePrev heap front.getLast? b).2 start blocks
      blocks' free' ∧ (coalescePrev heap front.getLast? b).1 ∈ free' := by
  rcases front.eq_nil_or_concat' with rfl | ⟨init, p, rfl⟩
  · exact ⟨blocks, b :: back, Steady.refl shaped, mem_cons_self⟩
  rw [List.getLast?_concat]
  unfold Libc.coalescePrev
  dsimp only
  split
  · next meets =>
      have shaped' : Shaped heap start blocks (init ++ p :: b :: back) := by simpa using shaped
      obtain ⟨blocks', steady⟩ := shaped'.joined meets
      exact ⟨blocks', _, steady, by simp⟩
  · exact ⟨blocks, _, Steady.refl shaped, by simp⟩

end

/-! ### Giving pages back -/

section

variable (shaped : Shaped heap start blocks free)
include shaped

theorem Shaped.shortened {less : Nat} (member : b ∈ free)
    (ends : b + headerSize + (heap.header b).size = heap.brk) (room : less ≤ (heap.header b).size) :
    ∃ blocks', Steady heap { heap.setSize b ((heap.header b).size - less) with
      brk := heap.brk - less } start blocks blocks' free := by
  obtain ⟨before, size, after, rfl, has⟩ := shaped.split_free member
  rw [← has] at ends room ⊢
  have nothing : after = [] := shaped.tiled.last header_positive ends
  subst nothing
  obtain ⟨front, back, rfl⟩ := append_of_mem member
  have spread := shaped.spread
  have high : heap.brk ≤ 0x40000000 := shaped.high
  have small : size - less < 2 ^ 32 := by omega
  have here : b ∈ (before ++ [Chunk.mk b size false]).map Chunk.addr := by simp
  have atB := shaped.heads ⟨b, size, false⟩ (by simp)
  have nodup := shaped.free_nodup
  have header' : ∀ a ∈ (before ++ [Chunk.mk b size false]).map Chunk.addr,
      (heap.setSize b (size - less)).header a =
        if a = b then { heap.header a with size := size - less }
        else heap.header a :=
    fun a among => setSize_header spread among here small
  have next : ∀ a ∈ front ++ b :: back, (heap.setSize b (size - less)).after a = heap.after a := by
    intro a among
    unfold Heap.after
    rw [header' a (shaped.free_addr among)]
    split <;> rfl
  obtain ⟨toB, atBack, _⟩ := Seg.append_iff.mp shaped.linked
  have shaped' : Shaped heap start (before ++ [⟨b, size, false⟩] ++ [])
      (front ++ [b] ++ back) := by simpa using shaped
  have shorter : Shaped { heap.setSize b (size - less) with brk := heap.brk - less }
      start (before ++ [⟨b, size - less, false⟩] ++ []) (front ++ [b] ++ back) := by
    refine shaped'.exchange ?_ ?_ ?_ ?_ ?_ ?_ ⟨?_, trivial⟩ ?_ ?_ (List.Perm.refl _)
      (List.Perm.refl _)
    · simpa using shaped.tiled.trim room false
    · exact le_trans (Nat.sub_le ..) shaped.high
    · intro block among
      have notB : block.addr ≠ b := shaped.tiled.elsewhere header_positive among
      rw [append_nil] at among
      have known : block.addr ∈ (before ++ [Chunk.mk b size false]).map Chunk.addr :=
        mem_map.mpr ⟨block, mem_append_left _ among, rfl⟩
      have same := header' _ known
      rw [if_neg notB] at same
      exact ⟨congrArg Header.size same, congrArg Header.magic same⟩
    · intro block among
      rw [mem_singleton.mp among]
      have same := header' b here
      rw [if_pos rfl] at same
      exact ⟨congrArg Header.size same, (congrArg Header.magic same).trans atB.2⟩
    · intro a among
      exact next a (mem_append_left _ ((dropLast_sublist _).subset among))
    · intro last final
      have among := mem_append_left (b :: back) (mem_of_getLast? final)
      exact (next last among).trans (toB.last_next final)
    · rw [or_none] at atBack
      exact (next b (by simp)).trans atBack
    · intro a among
      exact next a (mem_append_right _ (mem_cons_of_mem _ among))
    · refine shaped.first.trans ?_
      cases front <;> rfl
  refine ⟨_, by simpa using shorter, ?_, ?_, rfl, rfl⟩
  · simp [used, filter_append]
  · refine shaped.frame_of_header here ?_
    exact fun x outside => setSize_mem _ _ outside

theorem Shaped.trimmed (member : b ∈ free) :
    ∃ blocks', Steady heap (trimHeap heap b) start blocks blocks' free := by
  unfold trimHeap
  dsimp only
  split
  · exact ⟨blocks, Steady.refl shaped⟩
  next large =>
    split
    · next ends =>
        split
        · next some' =>
            have high : heap.brk ≤ 0x40000000 := shaped.high
            have page : sbrkAlign = 4096 := rfl
            have header : headerSize = 12 := rfl
            have most := Nat.div_mul_le_self
              ((heap.header b).size + headerSize - sbrkAlign) sbrkAlign
            generalize ((heap.header b).size + headerSize - sbrkAlign) / sbrkAlign *
              sbrkAlign = release at some' most ⊢
            have positive : toInt32 release = release := by
              unfold toInt32
              rw [if_pos (by omega)]
            have given : (sbrk (heap.setSize b ((heap.header b).size - release))
                (-toInt32 release)).2 = { heap.setSize b ((heap.header b).size - release) with
                  brk := heap.brk - release } := by
              unfold sbrk
              rw [positive, if_pos (by omega)]
              have less : (((heap.setSize b ((heap.header b).size - release)).brk : Int) +
                  -(release : Int)).toNat = heap.brk - release := by
                change ((heap.brk : Int) + -(release : Int)).toNat = _
                omega
              rw [less]
            rw [given]
            exact shaped.shortened member ends (by omega)
        · exact ⟨blocks, Steady.refl shaped⟩
    · exact ⟨blocks, Steady.refl shaped⟩

/-! ### A new block behind the last one -/

theorem Shaped.added (heap' : Heap) (total : Nat)
    (least : headerSize ≤ total) (brk : heap'.brk = heap.brk + total) (room : heap'.brk ≤ brkCap)
    (first : heap'.freeList = heap.brk) (kept : ∀ x < heap.brk, heap'.mem x = heap.mem x)
    (new : heap'.header heap.brk = ⟨total - headerSize, heap.freeList, blockMagicFree⟩) :
    Shaped heap' start (blocks ++ [⟨heap.brk, total - headerSize, false⟩])
      (heap.brk :: free) ∧ Frame heap heap' (used blocks) := by
  have low := shaped.low
  have above := shaped.tiled.le
  have same : ∀ a ∈ blocks.map Chunk.addr, heap'.header a = heap.header a := by
    intro a member
    obtain ⟨block, among, rfl⟩ := mem_map.mp member
    have bound := (shaped.tiled.bounds among).2
    exact header_congr (fun x _ most => kept x (by omega))
  have shaped' : Shaped heap start (blocks ++ [] ++ []) ([] ++ [] ++ free) := by simpa using shaped
  constructor
  · have result : Shaped heap' start (blocks ++ [⟨heap.brk, total - headerSize, false⟩] ++ [])
        ([] ++ [heap.brk] ++ free) := by
      refine shaped'.exchange ?_ room ?_ ?_ (fun _ member => by cases member)
        (fun _ final => by cases final) ⟨?_, trivial⟩ ?_ ?_ (List.Perm.refl _) (List.Perm.refl _)
      · have grown := shaped.tiled.grow (total - headerSize) false
        have ends : heap.brk + headerSize + (total - headerSize) = heap'.brk := by omega
        rw [ends] at grown
        simpa using grown
      · intro block member
        rw [append_nil] at member
        rw [same _ (mem_map.mpr ⟨block, member, rfl⟩)]
        exact ⟨rfl, rfl⟩
      · intro block member
        rw [mem_singleton.mp member, new]
        exact ⟨rfl, rfl⟩
      · unfold Heap.after
        rw [new]
        exact shaped.first
      · intro a member
        unfold Heap.after
        rw [same a (shaped.free_addr member)]
      · rw [first]
        unfold link
        rw [if_neg (by omega)]
        rfl
    simpa using result
  · intro block member x _ most
    have bound := (shaped.tiled.bounds (mem_used.mp member).1).2
    exact kept x (by omega)

end

/-! ### Releasing a block -/

theorem findPlace_spec {heap : Heap} {b : Nat} : ∀ (front : List Nat)
    {back : List Nat} {fuel cur : Nat}, Seg heap.after (front ++ back) none → link cur = back.head? →
    back.length ≤ fuel → ∃ front' back', front ++ back = front' ++ back' ∧
      (findPlace heap b fuel front.getLast? cur).1 = front'.getLast? ∧
      link (findPlace heap b fuel front.getLast? cur).2 = back'.head? ∧
      ((findPlace heap b fuel front.getLast? cur).2 = 0 ∨
        b ≤ (findPlace heap b fuel front.getLast? cur).2)
  | front, [], fuel, cur, _, here, _ => by
    have nothing : cur = 0 := by
      unfold link at here
      split at here
      · assumption
      · cases here
    refine ⟨front, [], rfl, ?_⟩
    cases fuel with
    | zero => exact ⟨rfl, here, Or.inl nothing⟩
    | succ =>
      unfold findPlace
      rw [if_neg (fun walks => walks.1 nothing)]
      exact ⟨rfl, here, Or.inl nothing⟩
  | front, a :: back, fuel, cur, linked, here, enough => by
    have isA : cur ≠ 0 ∧ cur = a := by
      unfold link at here
      split at here
      · cases here
      · next some' => exact ⟨some', Option.some.inj here⟩
    obtain ⟨some', rfl⟩ := isA
    obtain ⟨fuel, rfl⟩ : ∃ less, fuel = less + 1 := by
      cases fuel with
      | zero => cases enough
      | succ less => exact ⟨less, rfl⟩
    unfold findPlace
    split
    · have behind := (Seg.append_iff.mp linked).2.1
      rw [or_none] at behind
      have onward := findPlace_spec (b := b) (front ++ [cur])
        (by simpa using linked) behind (Nat.le_of_succ_le_succ enough)
      simpa using onward
    · next stops =>
        refine ⟨front, cur :: back, rfl, rfl, here, Or.inr ?_⟩
        exact Nat.le_of_not_lt (fun before => stops ⟨some', before⟩)

theorem Shaped.free_length (shaped : Shaped heap start blocks free) :
    free.length ≤ listFuel heap := by
  have within : free ⊆ List.range heap.brk := by
    intro a member
    obtain ⟨block, among, rfl⟩ := mem_map.mp (shaped.free_addr member)
    have bound := (shaped.tiled.bounds among).2
    exact mem_range.mpr (by have := header_positive; omega)
  have counted := (subperm_of_subset shaped.free_nodup within).length_le
  rw [length_range] at counted
  exact Nat.le_succ_of_le counted

theorem Shaped.released {size cur : Nat} {before after : List Chunk} (shaped : Shaped heap start
    (before ++ ⟨b, size, true⟩ :: after) (front ++ back)) (place : link cur = back.head?) :
    let heap' := ((heap.setMagic b blockMagicFree).setNext b cur).setLink front.getLast? b
    Shaped heap' start (before ++ [⟨b, size, false⟩] ++ after) (front ++ [b] ++ back) ∧
      Frame heap heap' (used (before ++ after)) := by
  intro heap'
  have spread := shaped.spread
  have here : b ∈ (before ++ ⟨b, size, true⟩ :: after).map Chunk.addr := by simp
  have known : ∀ p, front.getLast? = some p →
      p ∈ (before ++ ⟨b, size, true⟩ :: after).map Chunk.addr :=
    fun p last => shaped.pred_addr rfl last
  obtain ⟨positive, small⟩ := shaped.addr_bounds here
  have smallCur : cur < 2 ^ 32 := by
    unfold link at place
    split at place
    · omega
    · refine (shaped.addr_bounds (shaped.free_addr ?_)).2
      exact mem_append_right _ (mem_of_mem_head? place.symm)
  have notFree : b ∉ front ++ back := by
    intro member
    obtain ⟨other, among, unused, same⟩ := shaped.free_block member
    have equal := shaped.tiled.unique header_positive among
      (show (⟨b, size, true⟩ : Chunk) ∈ before ++ ⟨b, size, true⟩ :: after by simp) same
    rw [equal] at unused
    cases unused
  have notLast : front.getLast? ≠ some b := fun last =>
    notFree (mem_append_left _ (mem_of_getLast? last))
  have atB := shaped.heads ⟨b, size, true⟩ (by simp)
  have header' : ∀ a ∈ (before ++ ⟨b, size, true⟩ :: after).map Chunk.addr,
      heap'.header a = if a = b then ⟨(heap.header b).size, cur, blockMagicFree⟩
        else if front.getLast? = some a then { heap.header a with next := b }
        else heap.header a := by
    intro a member
    rw [setLink_header spread member known small, setNext_header spread member here smallCur,
      setMagic_header spread member here magic_small.2]
    by_cases isB : a = b
    · subst isB
      simp [notLast]
    · simp [isB]
  have relinked : Relinked heap heap' (before ++ ⟨b, size, true⟩ :: after)
      ⟨b, size, true⟩ front.getLast? b := by
    refine ⟨?_, setLink_freeList .., setLink_brk .., ?_⟩
    · intro a member other
      rw [header' a member, if_neg other]
    intro x away outside
    have clear : Outside b x := by
      unfold Outside
      dsimp only at away
      omega
    rw [setLink_mem outside, setNext_mem _ _ clear, setMagic_mem _ _ clear]
  refine ⟨?_, shaped.relinked_frame relinked known⟩
  have shaped' : Shaped heap start (before ++ [⟨b, size, true⟩] ++ after)
      (front ++ [] ++ back) := by simpa using shaped
  have tiled : Tiled headerSize start (before ++ [⟨b, size, false⟩] ++ after)
      heap.brk := by simpa using shaped.tiled.mark false
  refine shaped'.relink relinked notFree ?_ tiled ?_ ⟨?_, trivial⟩ (List.Perm.refl _)
    (List.Perm.refl _)
  · unfold link
    rw [if_neg positive]
    rfl
  · intro other member
    rw [mem_singleton.mp member, header' b here, if_pos rfl]
    exact ⟨atB.1, rfl⟩
  · unfold Heap.after
    rw [header' b here, if_pos rfl]
    exact place

/-- `free` of a used block: it is none afterwards, and the other used blocks and
their payloads are as they were. -/
theorem Shaped.freed {size : Nat} (shaped : Shaped heap start blocks free)
    (member : ⟨b, size, true⟩ ∈ blocks) : ∃ blocks' free', Shaped
    (freeUnlocked heap (b + headerSize)) start blocks' free' ∧ (used blocks).Perm
      (⟨b, size, true⟩ :: used blocks') ∧ Frame heap (freeUnlocked heap (b + headerSize))
      (used blocks') ∧ (freeUnlocked heap (b + headerSize)).heapInitialized = heap.heapInitialized ∧
      (freeUnlocked heap (b + headerSize)).granted = heap.granted := by
  obtain ⟨before, after, rfl⟩ := append_of_mem member
  have atB := shaped.heads _ member
  have spread := shaped.spread
  have here : b ∈ (before ++ ⟨b, size, true⟩ :: after).map Chunk.addr := by simp
  have linked : Seg (heap.setMagic b blockMagicFree).after ([] ++ free) none := by
    refine shaped.linked.congr ?_
    intro a among
    unfold Heap.after
    rw [setMagic_header spread (shaped.free_addr among) here magic_small.2]
    split <;> rfl
  obtain ⟨front, back, split', before', place, _⟩ := findPlace_spec (b := b) []
    linked shaped.first shaped.free_length
  subst split'
  unfold freeUnlocked
  rw [if_neg (by have := header_positive; omega), Nat.add_sub_cancel]
  dsimp only
  rw [if_neg (by rw [atB.2]; exact fun absurd => absurd rfl)]
  change link (findPlace (heap.setMagic b blockMagicFree) b
    (listFuel (heap.setMagic b blockMagicFree)) none
    (heap.setMagic b blockMagicFree).freeList).2 = _ at place
  change (findPlace (heap.setMagic b blockMagicFree) b
    (listFuel (heap.setMagic b blockMagicFree)) none
    (heap.setMagic b blockMagicFree).freeList).1 = _ at before'
  obtain ⟨prev, cur, found⟩ : ∃ prev cur, findPlace (heap.setMagic b blockMagicFree) b
    (listFuel (heap.setMagic b blockMagicFree)) none
    (heap.setMagic b blockMagicFree).freeList = (prev, cur) := ⟨_, _, rfl⟩
  rw [found] at before' place ⊢
  subst before'
  obtain ⟨shaped₁, frame₁⟩ := shaped.released place
  rw [append_assoc front, singleton_append] at shaped₁
  -- the block is in its place; what follows keeps the used blocks
  obtain ⟨_, _, steady₂⟩ := shaped₁.coalesceNext
  obtain ⟨_, free₃, steady₃, there⟩ := steady₂.shaped.coalescePrev
  obtain ⟨blocks₄, steady₄⟩ := steady₃.shaped.trimmed there
  have steady := steady₂.trans (steady₃.trans steady₄)
  have others : used blocks₄ = used (before ++ after) := by
    rw [steady.owned]
    simp [used, filter_append]
  refine ⟨blocks₄, free₃, steady.shaped, ?_, ?_, ?_, ?_⟩
  · rw [others, used_append, used_append]
    exact perm_middle
  · rw [others]
    refine frame₁.trans ?_
    have owned := steady.owned
    rw [others] at owned
    exact owned ▸ steady.frame
  · exact steady.ready.trans (setLink_ready ..)
  · exact steady.granted.trans (setLink_granted ..)

end MainDob.Libc
