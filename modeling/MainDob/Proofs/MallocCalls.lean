/-
Purpose: The search, the growth and the retry of `malloc_unlocked` on a heap that
  has its shape: it hands out one new used block that is large enough, or an
  extension of the break has been refused and the used blocks are as they were.
Main exports: Standing, Refused, firstFit_found
-/
import MainDob.Proofs.MallocRelease

namespace MainDob.Libc

open Lib (Chunk Seg)
open List

/-! ### Sizes -/

/-- The bound on a request: with its header and in whole pages it is below
2^31. -/
def maxRequest : Nat := 2 ^ 31 - 8192

variable {size : Nat}

theorem alignSize_least (bound : size ≤ maxRequest) : size ≤ alignSize size := by
  unfold maxRequest at bound
  unfold alignSize minAlloc
  dsimp only
  split <;> omega

theorem alignSize_most (bound : size ≤ maxRequest) : alignSize size ≤ maxRequest := by
  unfold maxRequest at bound ⊢
  unfold alignSize minAlloc
  dsimp only
  split <;> omega

theorem alignSize_positive (size : Nat) : alignSize size ≠ 0 := by
  unfold alignSize minAlloc
  dsimp only
  split <;> omega

section

variable (bound : size ≤ maxRequest)
include bound

theorem alignSize_again : alignSize (alignSize size) = alignSize size := by
  unfold maxRequest at bound
  unfold alignSize minAlloc
  dsimp only
  split <;> split <;> omega

theorem growTotal_least : size + headerSize ≤ growTotal size := by
  unfold maxRequest at bound
  unfold growTotal sbrkAlign headerSize
  dsimp only
  split <;> omega

theorem growTotal_most : growTotal size < 2 ^ 31 := by
  unfold maxRequest at bound
  unfold growTotal sbrkAlign headerSize
  dsimp only
  split <;> omega

end

/-! ### The break -/

variable {heap : Heap}

theorem sbrk_refused {heap' : Heap} {count : Nat} (positive : 0 < count)
    (refused : sbrk heap count = (none, heap')) :
    heap' = { heap with extensions := heap.extensions + 1 } := by
  unfold sbrk at refused
  rw [if_neg (by omega)] at refused
  dsimp only at refused
  split at refused
  · cases refused
  · exact (congrArg Prod.snd refused).symm

theorem sbrk_granted {heap' : Heap} {count base : Nat} (positive : 0 < count)
    (granted : sbrk heap count = (some base, heap')) :
    base = heap.brk ∧ heap'.brk = heap.brk + count ∧ heap'.brk ≤ brkCap ∧
      (∀ x < heap.brk, heap'.mem x = heap.mem x) ∧ heap'.freeList = heap.freeList ∧
      heap'.heapInitialized = heap.heapInitialized ∧ heap'.granted = heap.granted := by
  unfold sbrk at granted
  rw [if_neg (by omega), Int.toNat_natCast] at granted
  dsimp only at granted
  split at granted
  · next allowed =>
      rw [Bool.and_eq_true, decide_eq_true_eq] at allowed
      cases granted
      refine ⟨rfl, rfl, allowed.2, ?_, rfl, rfl, rfl⟩
      intro x below
      dsimp only
      rw [if_neg (by omega)]
  · cases granted

theorem newBlock_header {b next : Nat} (small : size < 2 ^ 32) (small' : next < 2 ^ 32) :
    (newBlock heap b size next).header b = ⟨size, next, blockMagicFree⟩ := by
  unfold newBlock
  rw [setMagic_self _ _ _ magic_small.2, setNext_self _ _ _ small', setSize_self _ _ _ small]

theorem newBlock_mem {b next x : Nat} (outside : Outside b x) :
    (newBlock heap b size next).mem x = heap.mem x := by
  unfold newBlock
  rw [setMagic_mem _ _ outside, setNext_mem _ _ outside, setSize_mem _ _ outside]

/-! ### The search -/

theorem link_eq_some {cur a : Nat} (here : link cur = some a) : cur ≠ 0 ∧ cur = a := by
  unfold link at here
  split at here
  · cases here
  · next other => exact ⟨other, Option.some.inj here⟩

theorem link_eq_none {cur : Nat} (here : link cur = none) : cur = 0 := by
  unfold link at here
  split at here
  · assumption
  · cases here

theorem firstFit_found {heap : Heap} {size b : Nat} {pp : Option Nat} :
    ∀ (front : List Nat) {back : List Nat} {fuel cur : Nat},
      Seg heap.after (front ++ back) none → link cur = back.head? →
      firstFit heap size fuel front.getLast? cur = some (pp, b) → ∃ front' back', front ++
      back = front' ++ b :: back' ∧ pp = front'.getLast? ∧ size ≤ (heap.header b).size
  | front, [], fuel, cur, _, here, found => by
    cases fuel with
    | zero => cases found
    | succ =>
      unfold firstFit at found
      rw [if_pos (link_eq_none here)] at found
      cases found
  | front, a :: back, fuel, cur, linked, here, found => by
    obtain ⟨other, rfl⟩ := link_eq_some here
    cases fuel with
    | zero => cases found
    | succ =>
      unfold firstFit at found
      rw [if_neg other] at found
      split at found
      · next fits =>
          cases found
          exact ⟨front, back, rfl, rfl, fits⟩
      · have behind := (Seg.append_iff.mp linked).2.1
        rw [Option.or_none] at behind
        rw [← List.getLast?_concat (l := front)] at found
        obtain ⟨front', back', split', rest⟩ := firstFit_found
          (front ++ [cur]) (by simpa using linked) behind found
        exact ⟨front', back', by simpa using split', rest⟩

theorem firstFit_none {heap : Heap} {size : Nat} : ∀ {back : List Nat} {fuel cur : Nat}
    {pp : Option Nat}, Seg heap.after back none → link cur = back.head? → back.length ≤ fuel →
      firstFit heap size fuel pp cur = none → ∀ a ∈ back, (heap.header a).size < size
  | [], _, _, _, _, _, _, _ => fun _ member => by cases member
  | a :: back, fuel, cur, pp, linked, here, enough, nothing => by
    obtain ⟨other, rfl⟩ := link_eq_some here
    obtain ⟨fuel, rfl⟩ : ∃ less, fuel = less + 1 := by
      cases fuel with
      | zero => cases enough
      | succ less => exact ⟨less, rfl⟩
    unfold firstFit at nothing
    rw [if_neg other] at nothing
    split at nothing
    · cases nothing
    next small =>
      have behind := linked.1
      rw [Option.or_none] at behind
      intro b member
      rcases mem_cons.mp member with rfl | later
      · exact Nat.lt_of_not_le small
      · exact firstFit_none linked.2 behind (Nat.le_of_succ_le_succ enough) nothing b later

/-! ### Handing out a block -/

/-- One more used block at `b`, the payloads of the others as they were. -/
structure Handed (heap heap' : Heap) (start b size : Nat) (blocks blocks' : List Chunk)
    (free' : List Nat) : Prop where
  shaped : Shaped heap' start blocks' free'
  owned : ∃ has, size ≤ has ∧ (used blocks').Perm (⟨b, has, true⟩ :: used blocks)
  frame : Frame heap heap' (used blocks)
  ready : heap'.heapInitialized = heap.heapInitialized
  granted : heap'.granted = heap.granted

variable {start : Nat} {blocks : List Chunk}

theorem Shaped.handed {b : Nat} {front back : List Nat} (shaped : Shaped heap start blocks
    (front ++ b :: back)) (fits : size ≤ (heap.header b).size) : ∃ blocks' free', Handed heap
    (takeBlock heap front.getLast? b size) start b size blocks blocks' free' := by
  obtain ⟨before, has, after, rfl, hasSize⟩ := shaped.split_free
    (show b ∈ front ++ b :: back by simp)
  have same : used (before ++ ⟨b, has, false⟩ :: after) = used (before ++ after) := by
    simp [used, filter_append]
  unfold takeBlock
  rw [← hasSize] at fits ⊢
  dsimp only
  split
  · next room =>
      obtain ⟨shaped', frame⟩ := shaped.carve room
      refine ⟨_, _, shaped', ⟨size, le_refl _, ?_⟩, ?_, ?_, ?_⟩
      · rw [same]
        simp only [used, filter_append]
        simp
      · rw [same]
        exact frame
      · exact setLink_ready ..
      · exact setLink_granted ..
  · obtain ⟨shaped', frame⟩ := shaped.take
    refine ⟨_, _, shaped', ⟨has, fits, ?_⟩, ?_, ?_, ?_⟩
    · rw [same]
      simp only [used, filter_append]
      simp
    · rw [same]
      exact frame
    · exact setLink_ready ..
    · exact setLink_granted ..

/-! ### The calls on a heap in shape -/

/-- The heap has its shape; before the first extension it is empty, and that one is
granted. -/
structure Standing (heap : Heap) (start : Nat) (blocks : List Chunk)
    (free : List Nat) : Prop where
  shaped : Shaped heap start blocks free
  fresh : heap.heapInitialized = false →
    blocks = [] ∧ heap.freeList = 0 ∧ (sbrk heap sbrkAlign).1 ≠ none

variable {free : List Nat}

theorem heapInit_standing (standing : Standing heap start blocks free) :
    ∃ blocks' free', Shaped (heapInit heap) start blocks' free' ∧ used blocks' = used blocks ∧
      Frame heap (heapInit heap) (used blocks) ∧ (heapInit heap).heapInitialized = true := by
  unfold heapInit
  split
  · next ready => exact ⟨blocks, free, standing.shaped, rfl, Frame.refl heap _, ready⟩
  next unready =>
    obtain ⟨_, nothing, granted⟩ := standing.fresh (Bool.eq_false_iff.mpr unready)
    split
    · next refused => exact absurd (congrArg Prod.fst refused) granted
    next base grown extended =>
      obtain ⟨rfl, brk, room, kept, list, _, _⟩ :=
        sbrk_granted (show 0 < sbrkAlign by decide) extended
      obtain ⟨shaped, frame⟩ := standing.shaped.added
        { newBlock grown heap.brk (sbrkAlign - headerSize) 0 with
          freeList := heap.brk, heapInitialized := true }
        sbrkAlign (by decide) brk room rfl
        (fun x below => (newBlock_mem (Or.inl below)).trans (kept x below))
        (by rw [nothing]; exact newBlock_header (by decide) (by decide))
      refine ⟨_, _, shaped, ?_, frame, rfl⟩
      simp [used, filter_append]

/-- The request could not be met: no free block is large enough, and `sbrk` has
refused an extension. -/
def Refused (start size : Nat) (heap' : Heap) : Prop :=
  (∃ heap, sbrk heap (growTotal (alignSize size)) = (none, heap')) ∧
    ∃ blocks free, Shaped heap' start blocks free ∧
      ∀ block ∈ blocks, block.used = false → block.size < alignSize size

section

variable (shaped : Shaped heap start blocks free)
include shaped

theorem Shaped.too_small (small : ∀ a ∈ free, (heap.header a).size < size) :
    ∀ block ∈ blocks, block.used = false → block.size < size := by
  intro block member unused
  have listed : block.addr ∈ free := by
    refine shaped.exact.mem_iff.mpr ?_
    exact mem_map.mpr ⟨block, mem_filter.mpr ⟨member, by simp [unused]⟩, rfl⟩
  rw [← (shaped.heads block member).1]
  exact small _ listed

/-- What `heap_grow` leaves: an extension refused, or one more free block at the
front of the list. -/
theorem heapGrow_shaped {heap' : Heap} {result : Option Nat} (bound : size ≤ maxRequest)
    (grows : heapGrow heap size = (result, heap')) : heap'.heapInitialized = heap.heapInitialized ∧
      ((result = none ∧ Shaped heap' start blocks free ∧ heap'.mem = heap.mem ∧
          sbrk heap (growTotal size) = (none, heap')) ∨ ∃ more next, result = some heap.brk ∧
        size ≤ more ∧ Shaped heap' start (blocks ++ [⟨heap.brk, more, false⟩]) (heap.brk :: free) ∧
          Frame heap heap' (used blocks) ∧ heap'.freeList = heap.brk ∧
          heap'.header heap.brk = ⟨more, next, blockMagicFree⟩) := by
  have total := growTotal_least bound
  have header : headerSize = 12 := rfl
  have signed : toInt32 (growTotal size) = growTotal size := by
    unfold toInt32
    rw [if_pos (growTotal_most bound)]
  unfold heapGrow at grows
  dsimp only at grows
  rw [signed] at grows
  cases extended : sbrk heap (growTotal size) with
  | mk base grown =>
    rw [extended] at grows
    cases base with
    | none =>
      cases grows
      have counted := sbrk_refused (by omega) extended
      subst counted
      exact ⟨rfl, Or.inl ⟨rfl, { shaped with }, rfl, rfl⟩⟩
    | some =>
      obtain ⟨rfl, brk, room, kept, list, ready, _⟩ := sbrk_granted (by omega) extended
      cases grows
      have highest : grown.brk ≤ 0x40000000 := room
      have small : heap.freeList < 2 ^ 32 := by
        have first := shaped.first
        cases free with
        | nil =>
          rw [link_eq_none first]
          decide
        | cons =>
          rw [(link_eq_some first).2]
          exact (shaped.addr_bounds (shaped.free_addr mem_cons_self)).2
      have new : (newBlock grown heap.brk (growTotal size - headerSize)
          grown.freeList).header heap.brk =
          ⟨growTotal size - headerSize, heap.freeList, blockMagicFree⟩ := by
        rw [list]
        exact newBlock_header (by omega) small
      obtain ⟨shaped', frame⟩ := shaped.added
        { newBlock grown heap.brk (growTotal size - headerSize)
          grown.freeList with freeList := heap.brk }
        (growTotal size) (by omega) brk room rfl
        (fun x below => (newBlock_mem (Or.inl below)).trans (kept x below)) new
      exact ⟨ready, Or.inr ⟨growTotal size - headerSize, heap.freeList, rfl,
        by omega, shaped', frame, rfl, new⟩⟩

theorem mallocLoop_ready
    (ready : heap.heapInitialized = true) (some' : size ≠ 0) (bound : size ≤ maxRequest) :
    ∃ blocks' free', Shaped (mallocLoop 2 heap size).2 start blocks' free' ∧ Frame heap
      (mallocLoop 2 heap size).2 (used blocks) ∧ (mallocLoop 2 heap size).2.heapInitialized = true ∧
      (((mallocLoop 2 heap size).1 = 0 ∧ used blocks' = used blocks ∧
          Refused start size (mallocLoop 2 heap size).2) ∨
        ∃ b has, (mallocLoop 2 heap size).1 = b + headerSize ∧ size ≤ has ∧
          (used blocks').Perm (⟨b, has, true⟩ :: used blocks)) := by
  have least := alignSize_least bound
  have most := alignSize_most bound
  have init : ∀ {heap : Heap}, heap.heapInitialized = true → heapInit heap = heap := by
    intro heap ready
    unfold heapInit
    rw [if_pos ready]
  unfold mallocLoop
  rw [if_neg some', init ready]
  dsimp only
  cases found : firstFit heap (alignSize size) (listFuel heap) none heap.freeList with
  | some place =>
    obtain ⟨pp, b⟩ := place
    obtain ⟨front, back, rfl, rfl, fits⟩ := firstFit_found [] shaped.linked shaped.first found
    obtain ⟨blocks', free', handed⟩ := shaped.handed fits
    obtain ⟨has, enough, owned⟩ := handed.owned
    exact ⟨blocks', free', handed.shaped, handed.frame, handed.ready.trans ready,
      Or.inr ⟨b, has, rfl, le_trans least enough, owned⟩⟩
  | none =>
    cases grows : heapGrow heap (alignSize size) with
    | mk _ next =>
      obtain ⟨ready', refused | ⟨more, behind, rfl, room, shaped', frame, first,
        newHeader⟩⟩ := heapGrow_shaped shaped most grows
      · obtain ⟨rfl, shaped', same, refused⟩ := refused
        refine ⟨blocks, free, shaped', ?_, ready'.trans ready,
          Or.inl ⟨rfl, rfl, ⟨heap, refused⟩, blocks, free, shaped', ?_⟩⟩
        · exact fun _ _ x _ _ => congrFun same x
        refine shaped'.too_small ?_
        intro a member
        have small := firstFit_none shaped.linked shaped.first shaped.free_length found a member
        rw [header_congr (fun x _ _ => congrFun same x)]
        exact small
      have positive : heap.brk ≠ 0 := by
        have low := shaped.low
        have above := shaped.tiled.le
        omega
      -- the second pass finds the new block at once
      have again : firstFit next (alignSize size) (listFuel next) none
          next.freeList = some (none, heap.brk) := by
        unfold listFuel firstFit
        rw [first, if_neg positive, newHeader, if_pos room]
      dsimp only
      unfold mallocLoop
      rw [if_neg (alignSize_positive size), init (ready'.trans ready), alignSize_again bound]
      dsimp only
      rw [again]
      have listed : Shaped next start (blocks ++ [⟨heap.brk, more, false⟩])
          ([] ++ heap.brk :: free) := shaped'
      have fits : alignSize size ≤ (next.header heap.brk).size := by
        rw [newHeader]
        exact room
      obtain ⟨blocks', free', handed⟩ := listed.handed fits
      obtain ⟨has, enough, owned⟩ := handed.owned
      have same : used (blocks ++ [⟨heap.brk, more, false⟩]) = used blocks := by
        simp [used, filter_append]
      have frame' := handed.frame
      rw [same] at owned frame'
      exact ⟨blocks', free', handed.shaped, frame.trans frame', handed.ready.trans
        (ready'.trans ready), Or.inr ⟨heap.brk, has, rfl, le_trans least enough, owned⟩⟩

end

theorem mallocUnlocked_standing (standing : Standing heap start blocks free)
    (bound : size ≤ maxRequest) : ∃ blocks' free', Standing
    (mallocUnlocked heap size).2 start blocks' free' ∧ Frame heap (mallocUnlocked heap size).2
      (used blocks) ∧ (((mallocUnlocked heap size).1 = 0 ∧ used blocks' = used blocks ∧
          (size = 0 ∨ Refused start size (mallocUnlocked heap size).2)) ∨
        ∃ b has, (mallocUnlocked heap size).1 = b + headerSize ∧ size ≤ has ∧
          (used blocks').Perm (⟨b, has, true⟩ :: used blocks)) := by
  by_cases nothing : size = 0
  · subst nothing
    exact ⟨blocks, free, standing, Frame.refl heap _, Or.inl ⟨rfl, rfl, Or.inl rfl⟩⟩
  obtain ⟨blocks₁, free₁, shaped, owned, frame, ready⟩ := heapInit_standing standing
  have same : mallocUnlocked heap size = mallocLoop 2 (heapInit heap) size := by
    have twice : heapInit (heapInit heap) = heapInit heap := by rw [heapInit, if_pos ready]
    unfold mallocUnlocked mallocLoop
    rw [if_neg nothing, if_neg nothing, twice]
  rw [same]
  obtain ⟨blocks', free', shaped', frame', ready', result⟩ :=
    mallocLoop_ready shaped ready nothing bound
  rw [owned] at frame' result
  refine ⟨blocks', free', ⟨shaped', ?_⟩, frame.trans frame', ?_⟩
  · intro unready
    rw [ready'] at unready
    cases unready
  · rcases result with ⟨null, kept, refused⟩ | handed
    · exact Or.inl ⟨null, kept, Or.inr refused⟩
    · exact Or.inr handed

theorem freeUnlocked_standing {b : Nat} (standing : Standing heap start blocks free)
    (member : ⟨b, size, true⟩ ∈ blocks) : ∃ blocks' free', Standing (freeUnlocked heap
    (b + headerSize)) start blocks' free' ∧ (used blocks).Perm (⟨b, size, true⟩ :: used blocks') ∧
      Frame heap (freeUnlocked heap (b + headerSize)) (used blocks') := by
  obtain ⟨blocks', free', shaped, owned, frame, ready, _⟩ := standing.shaped.freed member
  refine ⟨blocks', free', ⟨shaped, ?_⟩, owned, frame⟩
  intro unready
  rw [ready] at unready
  rw [(standing.fresh unready).1] at member
  cases member

end MainDob.Libc
